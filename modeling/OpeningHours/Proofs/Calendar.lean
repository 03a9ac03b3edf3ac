import OpeningHours.Calendar.Date

/-!
# The month that a day lies in

The year and the month of a day are found by closed formulas. Here they are told by where
they begin and end: a year is the year of a day when its days surround the day, and so is a
month. A run of fewer than 28 days then lies in the month of its first day or in that of its
last, which is why two plans are enough for a week.
-/

namespace OpeningHours

namespace Civil

/-! ## Years -/

theorem daysBeforeYear_mono {y z : Int} (h : y ≤ z) : daysBeforeYear y ≤ daysBeforeYear z := by
  unfold daysBeforeYear
  omega

/-- The year whose days surround a day is its year. -/
theorem yearOf_eq {number year : Int} (h : daysBeforeYear year ≤ number)
    (h' : number < daysBeforeYear (year + 1)) : yearOf number = year := by
  have hle := daysBeforeYear_yearOf_le number
  have hlt := lt_daysBeforeYear_succ_yearOf number
  rcases Int.lt_trichotomy (yearOf number) year with hbefore | heq | hafter
  · have := daysBeforeYear_mono (show yearOf number + 1 ≤ year by omega)
    omega
  · exact heq
  · have := daysBeforeYear_mono (show year + 1 ≤ yearOf number by omega)
    omega

/-! ## Months -/

theorem daysBeforeMonth_mono (leap : Bool) {m n : Nat} (h : m ≤ n) :
    daysBeforeMonth leap m ≤ daysBeforeMonth leap n := by
  unfold daysBeforeMonth februaryGap
  cases leap <;> simp only [Bool.false_eq_true, if_true, if_false] <;> split <;> split <;> omega

theorem monthOf_eq {leap : Bool} {day month : Nat} (hday : day < if leap then 366 else 365)
    (h : daysBeforeMonth leap month ≤ day) (h' : day < daysBeforeMonth leap (month + 1)) :
    monthOf leap day = month := by
  have hle := daysBeforeMonth_monthOf_le leap day hday
  have hlt := lt_daysBeforeMonth_succ_monthOf leap day
  rcases Nat.lt_trichotomy (monthOf leap day) month with hbefore | heq | hafter
  · have := daysBeforeMonth_mono leap (show monthOf leap day + 1 ≤ month by omega)
    omega
  · exact heq
  · have := daysBeforeMonth_mono leap (show month + 1 ≤ monthOf leap day by omega)
    omega

theorem monthOf_bounds {leap : Bool} {day : Nat} (hday : day < if leap then 366 else 365) :
    1 ≤ monthOf leap day ∧ monthOf leap day ≤ 12 := by
  have hle := daysBeforeMonth_monthOf_le leap day hday
  have hlt := lt_daysBeforeMonth_succ_monthOf leap day
  have hfirst : daysBeforeMonth leap 1 = 0 := by cases leap <;> rfl
  have hlast : daysBeforeMonth leap 13 = if leap then 366 else 365 := by cases leap <;> rfl
  refine ⟨?_, ?_⟩
  · rcases Nat.eq_zero_or_pos (monthOf leap day) with hzero | hpos
    · have := daysBeforeMonth_mono leap (show monthOf leap day + 1 ≤ 1 by omega)
      omega
    · exact hpos
  · rcases Nat.lt_or_ge (monthOf leap day) 13 with hlt13 | hbeyond
    · omega
    · have := daysBeforeMonth_mono leap hbeyond
      omega

/-- The twelve months make up the year. -/
theorem daysBeforeMonth_thirteen (year : Int) : daysBeforeMonth (isLeap year) 13 = yearLength year := by
  unfold yearLength
  cases isLeap year <;> rfl

theorem le_monthLength (leap : Bool) (month : Nat) : 28 ≤ monthLength leap month := by
  unfold monthLength
  split <;> (try split) <;> omega

theorem monthLength_le (leap : Bool) (month : Nat) : monthLength leap month ≤ 31 := by
  unfold monthLength
  split <;> (try split) <;> omega

end Civil

/-! ## The days of a month -/

namespace YearMonth

/-- The number of the first day of a month. -/
def start (m : YearMonth) : Int := Civil.numberOf m.year m.month 1

/-- How many days a month has. -/
def length (m : YearMonth) : Nat := Civil.monthLength (Civil.isLeap m.year) m.month

/-- A month lies in its year. -/
theorem bounds {m : YearMonth} (hm : 1 ≤ m.month ∧ m.month ≤ 12) :
    Civil.daysBeforeYear m.year ≤ m.start ∧ m.start + m.length ≤ Civil.daysBeforeYear (m.year + 1) := by
  have hsucc := Civil.daysBeforeMonth_succ (Civil.isLeap m.year) m.month hm
  have hend := Civil.daysBeforeMonth_mono (Civil.isLeap m.year) (show m.month + 1 ≤ 13 by omega)
  have hlast := Civil.daysBeforeMonth_thirteen m.year
  rw [Civil.daysBeforeYear_succ]
  simp only [start, length, Civil.numberOf]
  omega

/-- The end of December is the end of the year. -/
theorem start_add_length_of_december {m : YearMonth} (hm : m.month = 12) :
    m.start + m.length = Civil.daysBeforeYear (m.year + 1) := by
  have hsucc : Civil.daysBeforeMonth (Civil.isLeap m.year) 13 = _ :=
    Civil.daysBeforeMonth_succ (Civil.isLeap m.year) 12 (by decide)
  rw [Civil.daysBeforeMonth_thirteen] at hsucc
  rw [Civil.daysBeforeYear_succ]
  simp only [start, length, Civil.numberOf, hm]
  omega

end YearMonth

namespace Date

theorem dayOfYear_lt (d : Date) : d.dayOfYear < if Civil.isLeap d.year then 366 else 365 :=
  Civil.dayOfYear_lt d.number

theorem month_bounds (d : Date) : 1 ≤ d.month ∧ d.month ≤ 12 :=
  Civil.monthOf_bounds d.dayOfYear_lt

theorem number_eq (d : Date) : d.number = Civil.daysBeforeYear d.year + d.dayOfYear := by
  have hle := Civil.daysBeforeYear_yearOf_le d.number
  unfold dayOfYear Civil.dayOfYear year
  omega

/-- A day lies among the days of its month. -/
theorem yearMonth_surrounds (d : Date) :
    d.yearMonth.start ≤ d.number ∧ d.number < d.yearMonth.start + d.yearMonth.length := by
  have hle := Civil.daysBeforeMonth_monthOf_le _ _ d.dayOfYear_lt
  have hlt := Civil.lt_daysBeforeMonth_succ_monthOf (Civil.isLeap d.year) d.dayOfYear
  rw [Civil.daysBeforeMonth_succ _ _ (Civil.monthOf_bounds d.dayOfYear_lt)] at hlt
  have hnumber := d.number_eq
  simp only [yearMonth, YearMonth.start, YearMonth.length, Civil.numberOf, month]
  omega

/-- The month whose days surround a day is its month. -/
theorem yearMonth_eq {d : Date} {m : YearMonth} (hm : 1 ≤ m.month ∧ m.month ≤ 12)
    (h : m.start ≤ d.number) (h' : d.number < m.start + m.length) : d.yearMonth = m := by
  -- the month lies in its year, so a day of the month is a day of that year
  obtain ⟨hlow, hhigh⟩ := YearMonth.bounds hm
  have hy : d.year = m.year := Civil.yearOf_eq (by omega) (by omega)
  have hsucc := Civil.daysBeforeMonth_succ (Civil.isLeap m.year) m.month hm
  simp only [YearMonth.start, YearMonth.length, Civil.numberOf] at h h'
  have hnumber := d.number_eq
  have hday := d.dayOfYear_lt
  rw [hy] at hnumber hday
  have hmonth : d.month = m.month := by
    unfold month
    rw [hy]
    exact Civil.monthOf_eq hday (by omega) (by omega)
  exact YearMonth.ext hy hmonth

/-- A day of a run of fewer than 28 days lies in the month of its first or in that of its last. -/
theorem yearMonth_of_run {first d last : Date} (h : first ≤ d) (h' : d ≤ last)
    (hrun : last.number < first.number + 28) :
    d.yearMonth = first.yearMonth ∨ d.yearMonth = last.yearMonth := by
  rw [le_iff] at h h'
  have hfirst := first.yearMonth_surrounds
  have hd := d.yearMonth_surrounds
  have hlong : 28 ≤ d.yearMonth.length := Civil.le_monthLength _ _
  by_cases hin : d.number < first.yearMonth.start + first.yearMonth.length
  · exact Or.inl (yearMonth_eq first.month_bounds (by omega) hin)
  · -- the month of `d` starts inside the run, so the run ends before it does
    have hstarts : first.number < d.yearMonth.start := by
      rcases Int.lt_or_le first.number d.yearMonth.start with hlt | hle
      · exact hlt
      · have heq : first.yearMonth = d.yearMonth := yearMonth_eq d.month_bounds hle (by omega)
        rw [heq] at hin
        omega
    exact Or.inr (yearMonth_eq d.month_bounds (by omega) (by omega)).symm

end Date

end OpeningHours
