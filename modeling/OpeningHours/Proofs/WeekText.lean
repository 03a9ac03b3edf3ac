import OpeningHours.Plan.Text
import OpeningHours.Proofs.DateText

/-!
# What the text of a week tells

The text of an interval begins with two times of the clock, each of the same width, and then comes
the word for its status, and the three words begin with different letters. So its hours and its
status are told by the text, whatever comes after. In the short form that is the comment in quotes
or nothing, which tells the comment too. The long form goes on with the rule, and as a comment and
the name of a rule may contain anything, it does not tell where the one ends and the other begins.
-/

namespace OpeningHours

/-! ## Times of the clock and words -/

namespace Text

/-- Two digits tell a number below 100, whatever comes after them. -/
theorem padded_append_inj {m n : Nat} {s t : List Char} (hm : m < 100) (hn : n < 100)
    (h : padded 2 m ++ s = padded 2 n ++ t) : m = n ∧ s = t := by
  obtain ⟨hm, hmlength⟩ := Date.isPair_padded hm
  obtain ⟨hn, hnlength⟩ := Date.isPair_padded hn
  obtain ⟨hdigits, hrest⟩ := List.append_inj h (hmlength.trans hnlength.symm)
  exact ⟨hm.value.symm.trans (hdigits ▸ hn.value), hrest⟩

end Text

/-- A time of the clock is told by its text, whatever comes after it. -/
theorem clockText_append_inj {m n : Nat} {s t : String} (hm : m ≤ minutesPerDay)
    (hn : n ≤ minutesPerDay) (h : clockText m ++ s = clockText n ++ t) : m = n ∧ s = t := by
  unfold minutesPerDay at hm hn
  unfold clockText at h
  rw [← String.toList_inj] at h ⊢
  simp only [String.toList_append, String.toList_ofList, List.append_assoc, List.cons_append] at h
  obtain ⟨hhours, hcolon⟩ := Text.padded_append_inj (by omega) (by omega) h
  obtain ⟨hminutes, hrest⟩ := Text.padded_append_inj (by omega) (by omega) (List.cons.inj hcolon).2
  exact ⟨by omega, hrest⟩

/-- No two words for a status begin with the same letter. -/
theorem Status.eq_of_head?_word {a b : Status} (h : a.word.toList.head? = b.word.toList.head?) :
    a = b := by
  revert h
  cases a <;> cases b <;> decide

theorem Status.head?_word_append (a : Status) (s : String) :
    (a.word ++ s).toList.head? = a.word.toList.head? := by
  rw [String.toList_append, List.head?_append_of_ne_nil]
  cases a <;> decide

/-- A status is told by its word, whatever comes after it. -/
theorem Status.word_append_inj {a b : Status} {s t : String} (h : a.word ++ s = b.word ++ t) :
    a = b ∧ s = t := by
  have hletter : a.word.toList.head? = b.word.toList.head? := by
    rw [← a.head?_word_append s, h, b.head?_word_append t]
  obtain rfl := eq_of_head?_word hletter
  exact ⟨rfl, (String.append_right_inj _).1 h⟩

/-! ## Intervals -/

/-- A text between two others, or nothing. -/
def enclosed (before after : String) (text? : Option String) : String :=
  text?.elim "" fun text => before ++ text ++ after

theorem enclosed_some_ne_empty {before : String} (hbefore : before ≠ "") (text after : String) :
    enclosed before after (some text) ≠ "" := by
  simp [enclosed, hbefore]

theorem enclosed_inj {before after : String} (hbefore : before ≠ "") {a? b? : Option String}
    (h : enclosed before after a? = enclosed before after b?) : a? = b? := by
  cases a? with
  | none =>
      cases b? with
      | none => rfl
      | some b => exact absurd h.symm (enclosed_some_ne_empty hbefore b after)
  | some a =>
      cases b? with
      | none => exact absurd h (enclosed_some_ne_empty hbefore a after)
      | some b =>
          have htext : before ++ a ++ after = before ++ b ++ after := h
          rw [String.append_left_inj, String.append_right_inj] at htext
          rw [htext]

namespace Interval

variable {a b : Interval} {s t : String}

theorem brief_eq (iv : Interval) : iv.brief = clockText iv.start ++ ("-" ++ (clockText iv.stop ++
    (" " ++ (iv.label.status.word ++ enclosed " \"" "\"" iv.label.comment?)))) := by
  unfold brief enclosed
  cases iv.label.comment? <;> simp only [Option.elim, String.append_assoc]

/-- What the long form adds to the short one. -/
def note (iv : Interval) : String :=
  enclosed " [rule " "]" (iv.label.rule?.map RuleId.text) ++
    if iv.label.fallback then " (fallback)" else ""

theorem full_eq (iv : Interval) : iv.full = iv.brief ++ iv.note := by
  unfold full note enclosed
  cases iv.label.rule? <;> simp only [Option.map, Option.elim, String.append_assoc]

/-- The hours and the status are told by the beginning of the text, whatever comes after it. -/
theorem brief_append_inj (h : a.brief ++ s = b.brief ++ t) :
    a.span = b.span ∧ a.label.status = b.label.status ∧
      enclosed " \"" "\"" a.label.comment? ++ s = enclosed " \"" "\"" b.label.comment? ++ t := by
  rw [brief_eq, brief_eq] at h
  simp only [String.append_assoc] at h
  have hwithin : ∀ iv : Interval, iv.start ≤ minutesPerDay := fun iv =>
    Nat.le_trans iv.start_le_stop iv.stop_le_day
  obtain ⟨hstart, h⟩ := clockText_append_inj (hwithin a) (hwithin b) h
  obtain ⟨hstop, h⟩ := clockText_append_inj a.stop_le_day b.stop_le_day
    ((String.append_right_inj _).1 h)
  obtain ⟨hstatus, hrest⟩ := Status.word_append_inj ((String.append_right_inj _).1 h)
  exact ⟨Prod.ext hstart hstop, hstatus, hrest⟩

/-- The short form tells the hours, the status and the comment of an interval, and no more. -/
theorem brief_eq_iff : a.brief = b.brief ↔
    a.span = b.span ∧ a.label.status = b.label.status ∧ a.label.comment? = b.label.comment? := by
  constructor
  · intro h
    obtain ⟨hspan, hstatus, hrest⟩ := brief_append_inj (congrArg (· ++ "") h)
    exact ⟨hspan, hstatus, enclosed_inj (by decide) ((String.append_left_inj _).1 hrest)⟩
  · rintro ⟨hspan, hstatus, hcomment⟩
    obtain ⟨hstart, hstop⟩ := Prod.mk.inj hspan
    rw [brief_eq, brief_eq, hstart, hstop, hstatus, hcomment]

/-- The long form tells the hours and the status, as it begins with the short form. -/
theorem span_and_status_eq_of_full_eq (h : a.full = b.full) :
    a.span = b.span ∧ a.label.status = b.label.status := by
  rw [full_eq, full_eq] at h
  obtain ⟨hspan, hstatus, _⟩ := brief_append_inj h
  exact ⟨hspan, hstatus⟩

/-- Only the mark of a fallback rule ends in a round bracket. -/
theorem getLast?_note_eq_iff (iv : Interval) :
    iv.note.toList.getLast? = some ')' ↔ iv.label.fallback = true := by
  unfold note enclosed
  cases iv.label.fallback with
  | true => simp [List.getLast?_append]
  | false =>
      cases iv.label.rule? with
      | none => simp
      | some id =>
          have hlast : (" [rule " ++ id.text ++ "]" ++ "").toList.getLast? = some ']' := by
            rw [String.append_empty, String.toList_append]
            exact List.getLast?_concat
          simp only [Option.map, Option.elim, Bool.false_eq_true, if_false, hlast]
          decide

theorem note_inj (h : a.note = b.note) :
    a.label.rule? = b.label.rule? ∧ a.label.fallback = b.label.fallback := by
  have hfallback : a.label.fallback = b.label.fallback := by
    rw [Bool.eq_iff_iff, ← getLast?_note_eq_iff, ← getLast?_note_eq_iff, h]
  unfold note at h
  rw [hfallback, String.append_left_inj] at h
  have hrule := enclosed_inj (by decide) h
  exact ⟨Option.map_injective (fun _ _ => RuleId.ext) hrule, hfallback⟩

/-- The two forms together tell all there is of an interval. -/
theorem brief_and_full_eq_iff : a.brief = b.brief ∧ a.full = b.full ↔ a = b := by
  constructor
  · rintro ⟨hbrief, hfull⟩
    obtain ⟨hspan, hstatus, hcomment⟩ := brief_eq_iff.1 hbrief
    rw [full_eq, full_eq, hbrief, String.append_right_inj] at hfull
    obtain ⟨hrule, hfallback⟩ := note_inj hfull
    obtain ⟨hstart, hstop⟩ := Prod.mk.inj hspan
    exact Interval.ext hstart hstop (Label.ext hstatus hcomment hfallback hrule)
  · rintro rfl
    exact ⟨rfl, rfl⟩

end Interval

end OpeningHours
