import OpeningHours.Calendar.DateText
import OpeningHours.Proofs.DatePoint

/-!
# Dates are read as they were written

A date is written as year, month and day with hyphens between them. Four digits are enough for
most years. Any other year has a sign in front, and it is the sign that keeps the reader from
stopping after the fourth digit.

So what has to be seen of each number is where the reader stops: at the hyphen or at the end of the
text, which are no digits, and not before, because a limit on the digits is never less than what
was written. The reader passes over blanks between the parts. In a written date there are none.
-/

namespace OpeningHours

namespace Text

/-- Digits that stand for a number, zeros in front included. -/
structure IsNumeral (n : Nat) (digits : List Char) : Prop where
  ne_nil : digits ≠ []
  isDigit : ∀ c ∈ digits, c.isDigit = true
  value : Nat.ofDigitChars 10 digits 0 = n

/-- A text that a number does not go on into. -/
def EndsNumber (rest : List Char) : Prop := ∀ c ∈ rest.head?, c.isDigit = false

variable {n width : Nat} {digits rest : List Char}

/-! ## Numbers -/

theorem isNumeral_padded (width n : Nat) : IsNumeral n (padded width n) where
  ne_nil := by
    unfold padded List.leftpad
    exact List.append_ne_nil_of_right_ne_nil _ Nat.toDigits_ne_nil
  isDigit c hc := by
    rcases List.mem_append.1 hc with hzero | hdigit
    · rw [List.eq_of_mem_replicate hzero]
      rfl
    · exact Nat.isDigit_of_mem_toDigits (by decide) (by decide) hdigit
  value := by
    unfold padded List.leftpad
    rw [Nat.ofDigitChars_append, Nat.ofDigitChars_replicate_zero, Nat.mul_zero]
    exact Nat.ofDigitChars_ten_toDigits

theorem le_length_padded (width n : Nat) : width ≤ (padded width n).length := by
  rw [padded, List.length_leftpad]
  exact Nat.le_max_left _ _

theorem length_padded (h : (Nat.toDigits 10 n).length ≤ width) : (padded width n).length = width := by
  rw [padded, List.length_leftpad]
  exact Nat.max_eq_left h

theorem takeWhile_isDigit_of_endsNumber (hrest : EndsNumber rest) :
    rest.takeWhile Char.isDigit = [] := by
  cases rest with
  | nil => rfl
  | cons c rest => exact List.takeWhile_cons_of_neg (ne_true_of_eq_false (hrest c rfl))

/-- A limit that is not less than the digits there are is no limit. -/
theorem leadingDigits_append (hdigits : ∀ c ∈ digits, c.isDigit = true) (hrest : EndsNumber rest)
    {limit : Option Nat} (hlimit : ∀ most ∈ limit, digits.length ≤ most) :
    leadingDigits limit (digits ++ rest) = digits := by
  cases limit with
  | none =>
    rw [leadingDigits, List.takeWhile_append_of_pos hdigits, takeWhile_isDigit_of_endsNumber hrest,
      List.append_nil]
  | some most =>
    have hshort : EndsNumber (rest.take (most - digits.length)) := by
      intro c hc
      rw [List.head?_take] at hc
      split at hc
      · cases hc
      · exact hrest c hc
    rw [leadingDigits, List.take_append, List.take_of_length_le (hlimit most rfl),
      List.takeWhile_append_of_pos hdigits, takeWhile_isDigit_of_endsNumber hshort, List.append_nil]

theorem readNumber?_append (h : IsNumeral n digits) (hrest : EndsNumber rest) {limit : Option Nat}
    (hlimit : ∀ most ∈ limit, digits.length ≤ most) :
    readNumber? limit (digits ++ rest) = some (n, rest) := by
  unfold readNumber?
  rw [leadingDigits_append h.isDigit hrest hlimit]
  have hne := h.ne_nil
  cases digits with
  | nil => exact absurd rfl hne
  | cons c digits =>
    have hvalue : digitsValue (c :: digits) = n := h.value
    dsimp only
    rw [hvalue, List.drop_left]

/-! ## Blanks -/

theorem isBlank_of_isDigit {c : Char} (h : c.isDigit = true) : isBlank c = false := by
  have hbounds : 48 ≤ c.toNat ∧ c.toNat ≤ 57 := Char.isDigit_iff_toNat.1 h
  simp only [isBlank, Bool.or_eq_false_iff, Bool.and_eq_false_iff, decide_eq_false_iff_not,
    beq_eq_false_iff_ne]
  omega

theorem trimStart_cons {c : Char} (h : isBlank c = false) (s : List Char) :
    trimStart (c :: s) = c :: s :=
  List.dropWhile_cons_of_neg (ne_true_of_eq_false h)

theorem trimStart_numeral (h : IsNumeral n digits) (rest : List Char) :
    trimStart (digits ++ rest) = digits ++ rest := by
  have hne := h.ne_nil
  cases digits with
  | nil => exact absurd rfl hne
  | cons c digits => exact trimStart_cons (isBlank_of_isDigit (h.isDigit c List.mem_cons_self)) _

/-- A number starts with a digit. -/
theorem append_ne_cons (h : IsNumeral n digits) {c : Char} (hc : c.isDigit = false)
    (rest r : List Char) : digits ++ rest ≠ c :: r := by
  have hne := h.ne_nil
  cases digits with
  | nil => exact absurd rfl hne
  | cons d digits =>
    intro heq
    obtain ⟨rfl, _⟩ := List.cons.inj heq
    exact ne_true_of_eq_false hc (h.isDigit d List.mem_cons_self)

end Text

namespace Date

open Text

variable {d : Date} {year : Int} {n : Nat} {digits rest s : List Char}

/-! ## The form of a date -/

/-- A year from 0 to 9999 has four digits; any other has its sign and at least four digits. -/
def IsYearText (year : Int) (s : List Char) : Prop :=
  ∃ digits, IsNumeral year.natAbs digits ∧
    if 0 ≤ year ∧ year ≤ 9999 then digits.length = 4 ∧ s = digits
    else 4 ≤ digits.length ∧ s = (if year < 0 then '-' else '+') :: digits

/-- A number of two digits. -/
def IsPair (n : Nat) (s : List Char) : Prop := IsNumeral n s ∧ s.length = 2

/-- The year, the month and the day of a date in this order, with hyphens between them. -/
def WrittenAs (d : Date) (s : List Char) : Prop :=
  ∃ year month day, IsYearText d.year year ∧ IsPair d.month month ∧ IsPair d.day day ∧
    s = year ++ '-' :: (month ++ '-' :: day)

theorem day_bounds (d : Date) :
    1 ≤ d.day ∧ d.day ≤ Civil.monthLength (Civil.isLeap d.year) d.month := by
  have hin := d.yearMonth_surrounds
  have hnumber := d.number_eq_numberOf
  simp only [yearMonth, YearMonth.start, YearMonth.length, Civil.numberOf] at hin hnumber
  omega

/-- Every date is that of its year, its month and its day. -/
theorem ofYmd?_self (d : Date) : ofYmd? d.year d.month d.day = some d :=
  ofYmd?_eq_some_iff.2 ⟨⟨d.month_bounds, d.day_bounds⟩, d.number_eq_numberOf⟩

theorem isYearText_yearText (year : Int) : IsYearText year (yearText year) := by
  refine ⟨padded 4 year.natAbs, isNumeral_padded 4 year.natAbs, ?_⟩
  unfold yearText
  by_cases hplain : 0 ≤ year ∧ year ≤ 9999
  · rw [if_pos hplain]
    refine ⟨length_padded ?_, if_pos hplain⟩
    rw [Nat.length_toDigits_le_iff (by decide) (by decide)]
    omega
  · rw [if_neg hplain]
    exact ⟨le_length_padded 4 _, if_neg hplain⟩

theorem isPair_padded (h : n < 100) : IsPair n (padded 2 n) :=
  ⟨isNumeral_padded 2 n, length_padded ((Nat.length_toDigits_le_iff (by decide) (by decide)).2 h)⟩

theorem writtenAs_toChars (d : Date) : d.WrittenAs d.toChars := by
  have hmonth := d.month_bounds
  have hday := d.day_bounds
  have hlength := Civil.monthLength_le (Civil.isLeap d.year) d.month
  exact ⟨_, _, _, isYearText_yearText d.year, isPair_padded (by omega), isPair_padded (by omega), rfl⟩

/-! ## Reading -/

/-- A year is read whole: without a sign it has four digits, and with one there is no limit. -/
theorem readYear?_append (h : IsYearText year s) (hrest : EndsNumber rest) :
    readYear? (trimStart (s ++ rest)) = some (year, rest) := by
  obtain ⟨digits, hdigits, hform⟩ := h
  by_cases hplain : 0 ≤ year ∧ year ≤ 9999
  · rw [if_pos hplain] at hform
    obtain ⟨hlength, rfl⟩ := hform
    have hread : readNumber? (some 4) (s ++ rest) = some (year.natAbs, rest) :=
      readNumber?_append hdigits hrest fun _ hmost =>
        Nat.le_of_eq (hlength.trans (Option.mem_some_iff.1 hmost))
    have hyear : (year.natAbs : Int) = year := by omega
    rw [trimStart_numeral hdigits]
    unfold readYear?
    -- a digit is no sign
    split
    · rename_i heq
      exact absurd heq (append_ne_cons hdigits (by decide) rest _)
    · rename_i heq
      exact absurd heq (append_ne_cons hdigits (by decide) rest _)
    · rw [hread]
      exact congrArg (fun y => some (y, rest)) hyear
  · rw [if_neg hplain] at hform
    obtain ⟨_, rfl⟩ := hform
    have hread : readNumber? none (digits ++ rest) = some (year.natAbs, rest) :=
      readNumber?_append hdigits hrest fun _ hmost => absurd hmost (Option.not_mem_none _)
    rw [List.cons_append]
    by_cases hneg : year < 0
    · have hyear : -(year.natAbs : Int) = year := by omega
      rw [if_pos hneg, trimStart_cons (by decide), readYear?, hread]
      exact congrArg (fun y => some (y, rest)) hyear
    · have hyear : (year.natAbs : Int) = year := by omega
      rw [if_neg hneg, trimStart_cons (by decide), readYear?, hread]
      exact congrArg (fun y => some (y, rest)) hyear

theorem passHyphen?_cons (h : IsNumeral n digits) (rest : List Char) :
    passHyphen? ('-' :: (digits ++ rest)) = some (digits ++ rest) := by
  rw [passHyphen?, trimStart_cons (by decide)]
  exact congrArg some (trimStart_numeral h rest)

theorem readNumber?_pair (h : IsPair n s) (hrest : EndsNumber rest) :
    readNumber? (some 2) (s ++ rest) = some (n, rest) :=
  readNumber?_append h.1 hrest fun _ hmost =>
    Nat.le_of_eq (h.2.trans (Option.mem_some_iff.1 hmost))

/-- A text in the form of a date is read as this date. -/
theorem ofChars?_of_writtenAs (h : d.WrittenAs s) : ofChars? s = some d := by
  obtain ⟨year, month, day, hyear, hmonth, hday, rfl⟩ := h
  have hyphen : ∀ r, EndsNumber ('-' :: r) := by
    intro r c hc
    cases hc
    rfl
  have hend : EndsNumber [] := fun _ hc => absurd hc (Option.not_mem_none _)
  have hlast := passHyphen?_cons hday.1 []
  have hread := readNumber?_pair hday hend
  rw [List.append_nil] at hlast hread
  simp only [ofChars?, readYear?_append hyear (hyphen _), passHyphen?_cons hmonth.1,
    readNumber?_pair hmonth (hyphen _), hlast, hread, Option.bind_eq_bind, Option.bind_some]
  exact d.ofYmd?_self

theorem writtenAs_toText (d : Date) : d.WrittenAs d.toText.toList := by
  rw [toText, String.toList_ofList]
  exact d.writtenAs_toChars

/-- What is written of a date is read as this date. -/
theorem ofText?_toText (d : Date) : ofText? d.toText = some d :=
  ofChars?_of_writtenAs d.writtenAs_toText

end Date

end OpeningHours
