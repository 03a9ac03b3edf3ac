import OpeningHours.Hours
import OpeningHours.Loading
import OpeningHours.Proofs.Change
import OpeningHours.Proofs.Fallback
import OpeningHours.Proofs.Handover
import OpeningHours.Proofs.Insertion
import OpeningHours.Proofs.Machine.Search
import OpeningHours.Proofs.Partition
import OpeningHours.Proofs.Return
import OpeningHours.Proofs.RuleCodec
import OpeningHours.Proofs.Window
import OpeningHours.Text.Fixed
import OpeningHours.Proofs.DatePoint
import OpeningHours.Proofs.DayLife
import OpeningHours.Proofs.Rearrangement
import OpeningHours.Proofs.SpanOrder
import OpeningHours.Proofs.AnnualRange
import OpeningHours.Proofs.Easter
import OpeningHours.Proofs.IsoWeek
import OpeningHours.Proofs.OwnYear
import OpeningHours.Proofs.Overlap
import OpeningHours.Proofs.Independence
import OpeningHours.Proofs.DailyHours
import OpeningHours.Proofs.Lookup
import OpeningHours.Proofs.Join
import OpeningHours.Proofs.DayLookup
import OpeningHours.Proofs.DaySegments
import OpeningHours.Proofs.RuleFaults
import OpeningHours.Proofs.DateText
import OpeningHours.Proofs.HolidayTable
import OpeningHours.Proofs.Joined
import OpeningHours.Proofs.Placement
import OpeningHours.Proofs.ConfigCodec
import OpeningHours.Proofs.CalendarEnds
import OpeningHours.Proofs.SearchLength
import OpeningHours.Proofs.Midnight
