import OpeningHours.Calendar.Date

/-!
# Easter

The date of Easter Sunday by the Meeus/Jones/Butcher rule. The golden number and
the century are remainders and quotients toward the floor; the corrections that
divide the century number divide toward zero, which matters before year 0.
-/

namespace OpeningHours

/--
The three parts of the rule. Easter is the Sunday after the full moon, and the full
moon is found from 21 March on.
-/
structure Computus where
  /-- Days from 21 March to the full moon. -/
  moon : Int
  /-- Days from the day after the full moon to a Sunday. -/
  sunday : Int
  /-- How many weeks earlier the Sunday is in the years whose moon comes out late. -/
  late : Int

/-- The parts of the rule for one year. -/
def Computus.ofYear (year : Int) : Computus :=
  let golden := year % 19
  let century := year / 100
  let rest := year % 100
  let correction := (century - (century + 8).tdiv 25 + 1).tdiv 3
  let moon := (19 * golden + century - century.tdiv 4 - correction + 15) % 30
  let sunday := (32 + 2 * century.tmod 4 + 2 * (rest / 4) - moon - rest % 4) % 7
  { moon, sunday, late := (golden + 11 * moon + 22 * sunday) / 451 }

/-- The month and the day of Easter in one number, 31 days to a month; 114 stands for 22 March. -/
def Computus.marker (c : Computus) : Int := c.moon + c.sunday - 7 * c.late + 114

/-- Easter Sunday of a year of the calendar. -/
def easter? (year : Int) : Option Date :=
  let marker := (Computus.ofYear year).marker
  Date.ofYmd? year (marker / 31).toNat (marker % 31 + 1).toNat

end OpeningHours
