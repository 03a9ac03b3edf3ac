import OpeningHours.Holiday
import Mathlib.Data.List.Forall2
import Mathlib.Data.List.Induction
import Mathlib.Data.Set.Card

/-!
# The holidays of a country and a part of it

The table of a country and a part of it is made by naming days, one for every holiday of the list
that is kept there. A day that is named again has its new name only, so of all the holidays for a
day and a kind the last one kept gives the name, and the table has one named day for each day and
kind that any kept holiday is for.

All of this follows from what one more holiday at the end of the list does to the table: nothing if
it is not kept, and otherwise it gives its name to one day and leaves the others as they are.

Whether a holiday is kept is decided on texts whose letters are all made small. Two texts become
the same in this way exactly if they are the same but for the case of their ASCII letters, so that
case never matters.
-/

namespace OpeningHours

/-! ## Texts that differ in case only -/

/-- The same character, or the same letter of ASCII in another case. -/
def SameLetter (a b : Char) : Prop :=
  a = b ∨ (a.isUpper = true ∧ b.toNat = a.toNat + 32) ∨ (b.isUpper = true ∧ a.toNat = b.toNat + 32)

/-- Texts that are the same but for the case of their ASCII letters. -/
def SameText (s t : String) : Prop := List.Forall₂ SameLetter s.toList t.toList

theorem isUpper_iff {c : Char} : c.isUpper = true ↔ 65 ≤ c.toNat ∧ c.toNat ≤ 90 :=
  decide_eq_true_iff

theorem toNat_toLower (c : Char) :
    c.toLower.toNat = if c.isUpper = true then c.toNat + 32 else c.toNat := by
  unfold Char.toLower
  split
  · rename_i hrange
    have hupper : c.isUpper = true := isUpper_iff.2 hrange
    have hvalue : c.val.toNat ≤ 90 := hrange.2
    rw [if_pos hupper]
    show (c.val + 32).toNat = c.val.toNat + 32
    rw [UInt32.toNat_add]
    show (c.val.toNat + 32) % 2 ^ 32 = _
    omega
  · rename_i hrange
    rw [if_neg (mt isUpper_iff.1 hrange)]

theorem toLower_eq_iff {a b : Char} : a.toLower = b.toLower ↔ SameLetter a b := by
  rw [← Char.toNat_inj, toNat_toLower, toNat_toLower, SameLetter, ← Char.toNat_inj]
  simp only [isUpper_iff]
  -- a capital and its small letter lie 32 apart, and the capitals fill no more than 26 places
  split <;> split <;> omega

theorem asciiLower_eq_iff {s t : String} : asciiLower s = asciiLower t ↔ SameText s t := by
  unfold asciiLower SameText
  rw [String.ofList_inj, ← List.forall₂_eq_eq_eq, List.forall₂_map_left_iff,
    List.forall₂_map_right_iff]
  simp only [toLower_eq_iff]

theorem asciiLower_append (s t : String) : asciiLower (s ++ t) = asciiLower s ++ asciiLower t := by
  unfold asciiLower
  rw [String.toList_append, List.map_append, String.ofList_append]

/-! ## Where a holiday is kept -/

namespace Holiday

/--
Everywhere if no regions are named. Otherwise a country has to be given, and one of the regions has
to be this country, or the part of it that is given, written behind it with a hyphen.
-/
def KeptIn (h : Holiday) (country subregion : Option String) : Prop :=
  h.regions = [] ∨ ∃ c, country = some c ∧ ∃ region ∈ h.regions,
    SameText region c ∨ ∃ part, subregion = some part ∧ SameText region (c ++ "-" ++ part)

/-- The same holiday but for the case of its regions. -/
structure SameButCase (h h' : Holiday) : Prop where
  date : h.date = h'.date
  kind : h.kind = h'.kind
  name : h.name = h'.name
  regions : List.Forall₂ SameText h.regions h'.regions

variable {h h' : Holiday} {country country' subregion subregion' : Option String} {region : String}

theorem SameButCase.refl (h : Holiday) : h.SameButCase h :=
  ⟨rfl, rfl, rfl, List.forall₂_same.2 fun _ _ => asciiLower_eq_iff.1 rfl⟩

theorem asciiLower_mem_regionsOf :
    asciiLower region ∈ regionsOf country subregion ↔ ∃ c, country = some c ∧
      (SameText region c ∨ ∃ part, subregion = some part ∧ SameText region (c ++ "-" ++ part)) := by
  cases country with
  | none => simp [regionsOf]
  | some c =>
    cases subregion with
    | none => simp [regionsOf, asciiLower_eq_iff]
    | some part => simp [regionsOf, asciiLower_eq_iff]

theorem isKeptIn_iff : h.isKeptIn country subregion = true ↔ h.KeptIn country subregion := by
  unfold isKeptIn KeptIn
  rw [Bool.or_eq_true, List.isEmpty_iff, List.any_eq_true]
  simp only [List.contains_iff_mem, asciiLower_mem_regionsOf]
  refine or_congr_right ⟨?_, ?_⟩
  · intro hgiven
    obtain ⟨region, hregion, c, hc, hsame⟩ := hgiven
    exact ⟨c, hc, region, hregion, hsame⟩
  · intro hgiven
    obtain ⟨c, hc, region, hregion, hsame⟩ := hgiven
    exact ⟨region, hregion, c, hc, hsame⟩

theorem regionsOf_congr (hcountry : Option.Rel SameText country country')
    (hsubregion : Option.Rel SameText subregion subregion') :
    regionsOf country subregion = regionsOf country' subregion' := by
  cases hcountry with
  | none => rfl
  | some hc =>
    rw [← asciiLower_eq_iff] at hc
    cases hsubregion with
    | none => simp only [regionsOf, hc]
    | some hpart =>
      rw [← asciiLower_eq_iff] at hpart
      simp only [regionsOf, asciiLower_append, hc, hpart]

theorem isKeptIn_congr (hsame : h.SameButCase h') (hcountry : Option.Rel SameText country country')
    (hsubregion : Option.Rel SameText subregion subregion') :
    h.isKeptIn country subregion = h'.isKeptIn country' subregion' := by
  have hregions : h.regions.map asciiLower = h'.regions.map asciiLower := by
    rw [← List.forall₂_eq_eq_eq, List.forall₂_map_left_iff, List.forall₂_map_right_iff]
    exact hsame.regions.imp fun _ _ => asciiLower_eq_iff.2
  -- only the small letters of the regions are looked at
  have hlower : ∀ (h : Holiday) (wanted : List String),
      (h.regions.isEmpty || h.regions.any fun region => wanted.contains (asciiLower region)) =
        ((h.regions.map asciiLower).isEmpty || (h.regions.map asciiLower).any wanted.contains) := by
    intro h wanted
    rw [List.isEmpty_map, List.any_map]
    rfl
  unfold isKeptIn
  rw [hlower, hlower, hregions, regionsOf_congr hcountry hsubregion]

end Holiday

/-! ## Naming days -/

namespace HolidayTable

variable {t : HolidayTable} {date : Date} {kind : HolidayKind} {name : String}

/-- What a named day is found by. -/
def key (n : NamedDay) : Date × HolidayKind := (n.date, n.kind)

theorem isFor_iff {n : NamedDay} : isFor date kind n = true ↔ key n = (date, kind) := by
  rw [isFor, Bool.and_eq_true, beq_iff_eq, beq_iff_eq, key, Prod.mk.injEq]

/-- Naming a day changes the name of this day and of no other. -/
theorem name?_insert (t : HolidayTable) (date date' : Date) (kind kind' : HolidayKind)
    (name : String) :
    (t.insert date kind name).name? date' kind' =
      if date = date' ∧ kind = kind' then some name else t.name? date' kind' := by
  unfold insert name?
  by_cases hsame : date = date' ∧ kind = kind'
  · obtain ⟨rfl, rfl⟩ := hsame
    have hself : isFor date kind ⟨date, kind, name⟩ = true := isFor_iff.2 rfl
    rw [if_pos ⟨rfl, rfl⟩, List.find?_cons_of_pos hself]
    rfl
  · have hother : ¬isFor date' kind' ⟨date, kind, name⟩ = true := by
      rw [isFor_iff, key, Prod.mk.injEq]
      exact hsame
    rw [if_neg hsame, List.find?_cons_of_neg hother, List.find?_filter]
    -- no day that is looked for was taken out
    have hkept : (fun n => decide ((!isFor date kind n) = true ∧ isFor date' kind' n = true)) =
        isFor date' kind' := by
      funext n
      rw [Bool.eq_iff_iff, decide_eq_true_iff]
      refine and_iff_right_of_imp fun hn => ?_
      rw [Bool.not_eq_true', ← Bool.not_eq_true]
      intro hn'
      exact hsame (Prod.mk.injEq .. ▸ (isFor_iff.1 hn').symm.trans (isFor_iff.1 hn))
    rw [hkept]

theorem map_key_insert (t : HolidayTable) (date : Date) (kind : HolidayKind) (name : String) :
    (t.insert date kind name).days.map key =
      (date, kind) :: (t.days.map key).filter (· ≠ (date, kind)) := by
  unfold insert
  rw [List.map_cons, List.filter_map]
  congr 2
  refine List.filter_congr fun n _ => ?_
  rw [Bool.eq_iff_iff, Bool.not_eq_true', ← Bool.not_eq_true, isFor_iff]
  simp

/-! ## The table of a list -/

variable {holidays holidays' : List Holiday} {country country' subregion subregion' : Option String}

/-- What one more holiday at the end of the list does to the table. -/
theorem ofHolidays_concat (holidays : List Holiday) (h : Holiday) :
    ofHolidays (holidays ++ [h]) country subregion =
      if h.isKeptIn country subregion then
        (ofHolidays holidays country subregion).insert h.date h.kind h.name
      else ofHolidays holidays country subregion := by
  unfold ofHolidays
  rw [List.filter_append, List.foldl_append, List.filter_cons]
  split
  · rfl
  · rfl

/-- Whether a holiday is kept and is for a day and a kind. -/
def gives (country subregion : Option String) (date : Date) (kind : HolidayKind) (h : Holiday) :
    Bool :=
  h.isKeptIn country subregion && (h.date == date && h.kind == kind)

theorem gives_iff {h : Holiday} : gives country subregion date kind h = true ↔
    h.date = date ∧ h.kind = kind ∧ h.KeptIn country subregion := by
  rw [gives, Bool.and_eq_true, Bool.and_eq_true, beq_iff_eq, beq_iff_eq, Holiday.isKeptIn_iff,
    and_comm, and_assoc]

/-- The last holiday that gives a name for a day and a kind gives the one that is found. -/
theorem name?_ofHolidays_eq_find? (holidays : List Holiday) :
    (ofHolidays holidays country subregion).name? date kind =
      (holidays.reverse.find? (gives country subregion date kind)).map Holiday.name := by
  induction holidays using List.reverseRecOn with
  | nil => rfl
  | append_singleton holidays h ih =>
    rw [ofHolidays_concat, List.reverse_append, List.reverse_singleton, List.singleton_append]
    by_cases hkept : h.isKeptIn country subregion = true
    · rw [if_pos hkept, name?_insert]
      by_cases hfor : h.date = date ∧ h.kind = kind
      · rw [if_pos hfor, List.find?_cons_of_pos
          (gives_iff.2 ⟨hfor.1, hfor.2, Holiday.isKeptIn_iff.1 hkept⟩)]
        rfl
      · rw [if_neg hfor, List.find?_cons_of_neg, ih]
        intro hgives
        exact hfor ⟨(gives_iff.1 hgives).1, (gives_iff.1 hgives).2.1⟩
    · rw [if_neg hkept, List.find?_cons_of_neg, ih]
      intro hgives
      exact hkept (Holiday.isKeptIn_iff.2 (gives_iff.1 hgives).2.2)

theorem name?_ofHolidays_eq_some_iff :
    (ofHolidays holidays country subregion).name? date kind = some name ↔
      ∃ before h after, holidays = before ++ h :: after ∧
        (h.date = date ∧ h.kind = kind ∧ h.KeptIn country subregion) ∧ h.name = name ∧
        ∀ later ∈ after, later.date = date → later.kind = kind →
          ¬later.KeptIn country subregion := by
  rw [name?_ofHolidays_eq_find?, Option.map_eq_some_iff]
  simp only [List.find?_eq_some_iff_append, gives_iff, List.reverse_eq_append_iff,
    List.reverse_cons, List.append_assoc, List.singleton_append, Bool.not_eq_true']
  constructor
  · intro hgiven
    obtain ⟨h, ⟨hgives, after, before, hsplit, hlater⟩, hname⟩ := hgiven
    refine ⟨before.reverse, h, after.reverse, hsplit, hgives, hname, ?_⟩
    intro later hmem hdate hkind hkept
    have hfalse := hlater later (List.mem_reverse.1 hmem)
    rw [gives_iff.2 ⟨hdate, hkind, hkept⟩] at hfalse
    exact Bool.false_ne_true hfalse.symm
  · intro hgiven
    obtain ⟨before, h, after, hsplit, hgives, hname, hlater⟩ := hgiven
    refine ⟨h, ⟨hgives, after.reverse, before.reverse, ?_, ?_⟩, hname⟩
    · rw [List.reverse_reverse, List.reverse_reverse, hsplit]
    · intro later hmem
      rw [← Bool.not_eq_true, gives_iff]
      intro hgives'
      exact hlater later (List.mem_reverse.1 hmem) hgives'.1 hgives'.2.1 hgives'.2.2

theorem name?_ofHolidays_eq_none_iff :
    (ofHolidays holidays country subregion).name? date kind = none ↔
      ∀ h ∈ holidays, h.date = date → h.kind = kind → ¬h.KeptIn country subregion := by
  rw [name?_ofHolidays_eq_find?, Option.map_eq_none_iff, List.find?_eq_none]
  simp only [List.mem_reverse, gives_iff, not_and]

/-! ## The size of the table -/

theorem mem_map_key_ofHolidays {p : Date × HolidayKind} (holidays : List Holiday) :
    p ∈ (ofHolidays holidays country subregion).days.map key ↔
      ∃ h ∈ holidays, h.KeptIn country subregion ∧ (h.date, h.kind) = p := by
  induction holidays using List.reverseRecOn with
  | nil => simp [ofHolidays]
  | append_singleton holidays h ih =>
    rw [ofHolidays_concat]
    simp only [List.mem_append, List.mem_singleton, or_and_right, exists_or, exists_eq_left, ← ih]
    by_cases hkept : h.isKeptIn country subregion = true
    · rw [if_pos hkept, map_key_insert, List.mem_cons, List.mem_filter, decide_eq_true_iff,
        and_iff_right (Holiday.isKeptIn_iff.1 hkept)]
      by_cases hp : p = (h.date, h.kind)
      · exact iff_of_true (Or.inl hp) (Or.inr hp.symm)
      · rw [or_iff_right hp, and_iff_left hp, or_iff_left (Ne.symm hp)]
    · rw [if_neg hkept, or_iff_left]
      intro hgiven
      exact hkept (Holiday.isKeptIn_iff.2 hgiven.1)

theorem nodup_map_key_ofHolidays (holidays : List Holiday) :
    ((ofHolidays holidays country subregion).days.map key).Nodup := by
  induction holidays using List.reverseRecOn with
  | nil => exact List.nodup_nil
  | append_singleton holidays h ih =>
    rw [ofHolidays_concat]
    split
    · rw [map_key_insert, List.nodup_cons]
      refine ⟨?_, ih.filter _⟩
      intro hmem
      exact of_decide_eq_true (List.mem_filter.1 hmem).2 rfl
    · exact ih

theorem size_ofHolidays (holidays : List Holiday) :
    (ofHolidays holidays country subregion).size =
      Set.ncard {p | ∃ h ∈ holidays, h.KeptIn country subregion ∧ (h.date, h.kind) = p} := by
  have hkeys : {p | ∃ h ∈ holidays, h.KeptIn country subregion ∧ (h.date, h.kind) = p} =
      ↑((ofHolidays holidays country subregion).days.map key).toFinset := by
    ext p
    rw [List.coe_toFinset, Set.mem_ofPred_eq, Set.mem_ofPred_eq, mem_map_key_ofHolidays]
  rw [hkeys, Set.ncard_coe_finset, List.toFinset_card_of_nodup (nodup_map_key_ofHolidays holidays),
    List.length_map]
  rfl

/-! ## What does not show in the table -/

theorem ofHolidays_of_not_keptIn {h : Holiday} (hout : ¬h.KeptIn country subregion)
    (before after : List Holiday) :
    ofHolidays (before ++ h :: after) country subregion =
      ofHolidays (before ++ after) country subregion := by
  have hkept : ¬h.isKeptIn country subregion = true := mt Holiday.isKeptIn_iff.1 hout
  unfold ofHolidays
  rw [List.filter_append, List.filter_append, List.filter_cons, if_neg hkept]

/-- Lists that differ in case only name the same days in the same order. -/
theorem ofHolidays_congr (hholidays : List.Forall₂ Holiday.SameButCase holidays holidays')
    (hcountry : Option.Rel SameText country country')
    (hsubregion : Option.Rel SameText subregion subregion') :
    ofHolidays holidays country subregion = ofHolidays holidays' country' subregion' := by
  unfold ofHolidays
  generalize ({} : HolidayTable) = t
  induction hholidays generalizing t with
  | nil => rfl
  | @cons h h' rest rest' hsame _ ih =>
    have hkept := Holiday.isKeptIn_congr hsame hcountry hsubregion
    rw [List.filter_cons, List.filter_cons, hkept]
    split
    · rw [List.foldl_cons, List.foldl_cons, hsame.date, hsame.kind, hsame.name]
      exact ih _
    · exact ih t

/--
**The last holiday kept gives the name.**

The name of a day as a holiday of some kind is that of the last entry of the list that is for this
day and this kind and is kept in the country and the part of it; there is none exactly if no such
entry is kept. The size of the table is the number of days and kinds that a kept entry is for. An
entry that is not kept makes no difference, and neither does the case of the ASCII letters of the
country, of the part of it and of the regions.
-/
theorem name?_ofHolidays (holidays : List Holiday) (country subregion : Option String) :
    (∀ date kind name, (ofHolidays holidays country subregion).name? date kind = some name ↔
        ∃ before h after, holidays = before ++ h :: after ∧
          (h.date = date ∧ h.kind = kind ∧ h.KeptIn country subregion) ∧ h.name = name ∧
          ∀ later ∈ after, later.date = date → later.kind = kind →
            ¬later.KeptIn country subregion) ∧
      (∀ date kind, (ofHolidays holidays country subregion).name? date kind = none ↔
        ∀ h ∈ holidays, h.date = date → h.kind = kind → ¬h.KeptIn country subregion) ∧
      (ofHolidays holidays country subregion).size =
        Set.ncard {p | ∃ h ∈ holidays, h.KeptIn country subregion ∧ (h.date, h.kind) = p} ∧
      (∀ before h after, holidays = before ++ h :: after → ¬h.KeptIn country subregion →
        ofHolidays holidays country subregion = ofHolidays (before ++ after) country subregion) ∧
      ∀ holidays' country' subregion', List.Forall₂ Holiday.SameButCase holidays holidays' →
        Option.Rel SameText country country' → Option.Rel SameText subregion subregion' →
        ofHolidays holidays country subregion = ofHolidays holidays' country' subregion' := by
  refine ⟨?_, ?_, size_ofHolidays holidays, ?_, ?_⟩
  · intro date kind name
    exact name?_ofHolidays_eq_some_iff
  · intro date kind
    exact name?_ofHolidays_eq_none_iff
  · intro before h after hsplit hout
    rw [hsplit]
    exact ofHolidays_of_not_keptIn hout before after
  · intro holidays' country' subregion' hholidays hcountry hsubregion
    exact ofHolidays_congr hholidays hcountry hsubregion

/-- Sunday, 1 January 2023. -/
def newYear : Date := ⟨738886, by decide, by decide⟩

/-- The name of the day in France and Belgium. -/
def nouvelAn : Holiday := ⟨newYear, .publicDay, "Nouvel An", ["FR", "be"]⟩

/-- Its name in a part of Germany. -/
def neujahr : Holiday := ⟨newYear, .publicDay, "Neujahr", ["de-BY"]⟩

/-- The first day of the year with its names, and with one for everywhere that comes first. -/
def newYears : List Holiday := [⟨newYear, .publicDay, "New Year", []⟩, nouvelAn, neujahr]

/--
In France the day has the French name and not the general one before it. The German one makes no
difference there, nor does the case in which the country is written.
-/
theorem name?_ofHolidays_newYears :
    (ofHolidays newYears (some "Fr") none).name? newYear .publicDay = some "Nouvel An" ∧
      (ofHolidays newYears (some "Fr") none).name? newYear .schoolBreak = none ∧
      ofHolidays newYears (some "Fr") none =
        ofHolidays [⟨newYear, .publicDay, "New Year", []⟩, nouvelAn] (some "Fr") none ∧
      ofHolidays newYears (some "Fr") none = ofHolidays newYears (some "fR") none := by
  obtain ⟨hname, hnone, _, hout, hcase⟩ := name?_ofHolidays newYears (some "Fr") none
  have hkept : nouvelAn.KeptIn (some "Fr") none := Holiday.isKeptIn_iff.1 (by decide +kernel)
  have hgerman : ¬neujahr.KeptIn (some "Fr") none := mt Holiday.isKeptIn_iff.2 (by decide +kernel)
  refine ⟨?_, ?_, ?_, ?_⟩
  · refine (hname newYear .publicDay "Nouvel An").2
      ⟨[_], nouvelAn, [neujahr], rfl, ⟨rfl, rfl, hkept⟩, rfl, ?_⟩
    intro later hlater _ _
    rwa [List.mem_singleton.1 hlater]
  · rw [hnone]
    intro h hh _ hkind
    simp only [newYears, List.mem_cons, List.not_mem_nil, or_false] at hh
    rcases hh with rfl | rfl | rfl <;> cases hkind
  · exact hout [_, nouvelAn] neujahr [] rfl hgerman
  · refine hcase newYears (some "fR") none ?_ (.some ?_) .none
    · exact List.forall₂_same.2 fun h _ => Holiday.SameButCase.refl h
    · exact asciiLower_eq_iff.1 (by decide +kernel)

end HolidayTable

end OpeningHours
