import OpeningHours.Json.Read
import Mathlib.Data.List.Basic

/-!
# Readers that undo writers

What a writer writes, its reader reads back. There is one law for each way of
building a reader: scalars, words, options, lists, records. The law for a list or an
option rests on the law for its parts, and the law for a record on where its fields
find their members.
-/

namespace OpeningHours.Json

/-- A value, and not the null that stands for a missing one. -/
def IsValue : Json → Prop
  | null | broken _ => False
  | _ => True

/-- A reader that gets back what a writer wrote, which is always a value. -/
structure Undoes {α : Type} (read : Reader α) (write : α → Json) : Prop where
  read_write : ∀ a, read (write a) = .ok a
  isValue : ∀ a, (write a).IsValue

/-! ## Scalars -/

theorem readIntWithin_ofInt {below above : Nat} {n : Int} (hlow : -(below : Int) ≤ n)
    (hhigh : n < above) : readIntWithin below above (ofInt n) = .ok n := by
  have hn : isWithin below above n = true := isWithin_iff.mpr ⟨hlow, hhigh⟩
  show orMismatch (if isWithin below above n then some n else none) = .ok n
  rw [if_pos hn]
  rfl

theorem undoes_uint32 : Undoes readUInt32 fun n => ofInt n.toNat where
  read_write n := by
    have hn := n.toNat_lt
    have hread : readIntWithin 0 UInt32.size (ofInt n.toNat) = .ok n.toNat :=
      readIntWithin_ofInt (by omega) (by rw [UInt32.size]; omega)
    simp only [readUInt32, hread]
    exact congrArg Except.ok (by simp)
  isValue _ := trivial

theorem undoes_int32 : Undoes readInt32 fun n => ofInt n.toInt where
  read_write n := by
    have hlow := n.le_toInt
    have hhigh := n.toInt_lt
    have hread : readIntWithin 0x80000000 0x80000000 (ofInt n.toInt) = .ok n.toInt :=
      readIntWithin_ofInt (by omega) (by omega)
    simp only [readInt32, hread]
    exact congrArg Except.ok (by simp)
  isValue _ := trivial

theorem undoes_int64 : Undoes readInt64 fun n => ofInt n.toInt where
  read_write n := by
    have hlow := n.le_toInt
    have hhigh := n.toInt_lt
    have hread : readIntWithin 0x8000000000000000 0x8000000000000000 (ofInt n.toInt) = .ok n.toInt :=
      readIntWithin_ofInt (by omega) (by omega)
    simp only [readInt64, hread]
    exact congrArg Except.ok (by simp)
  isValue _ := trivial

theorem undoes_bool : Undoes readBool .bool where
  read_write _ := rfl
  isValue _ := trivial

theorem undoes_string : Undoes readString ofString where
  read_write _ := rfl
  isValue _ := trivial

/-! ## Words, options, lists -/

section Parts

variable {α : Type} {read : Reader α} {write : α → Json}

theorem undoes_parsed {parse : String → Option α} {name : α → String}
    (h : ∀ a, parse (name a) = some a) : Undoes (readParsed parse) fun a => ofString (name a) where
  read_write a := by
    show orMismatch (parse (name a)) = .ok a
    rw [h]
    rfl
  isValue _ := trivial

theorem undoes_word {find? : String → Option α} {word : α → String}
    (h : ∀ a, find? (word a) = some a) : Undoes (readWord find?) fun a => ofString (word a) where
  read_write a := by
    show orMismatch (find? (word a)) = .ok a
    rw [h]
    rfl
  isValue _ := trivial

theorem Undoes.readOption (h : Undoes read write) (a? : Option α) :
    readOption read (ofOption write a?) = .ok a? := by
  cases a? with
  | none => rfl
  | some a =>
    -- only null and what does not parse are read otherwise
    have hread : Json.readOption read (write a) = (read (write a)).map some := by
      have hvalue := h.isValue a
      cases hj : write a <;> first | rfl | (rw [hj] at hvalue; exact hvalue.elim)
    rw [ofOption, hread, h.read_write]
    rfl

/-- Items that were written alike may be read by readers that depend on their places. -/
theorem readItems_map {read : Nat → Reader α} (h : ∀ place a, read place (write a) = .ok a) (place : Nat)
    (as : List α) : readItems read place (as.map write) = .ok as := by
  induction as generalizing place with
  | nil => rfl
  | cons a as ih =>
    rw [List.map_cons, readItems, h place a, ih (place + 1)]
    rfl

theorem readIndexed_ofList {read : Nat → Reader α} (h : ∀ place a, read place (write a) = .ok a)
    (as : List α) : readIndexed read (ofList (as.map write)) = .ok as := by
  rw [ofList, readIndexed, readItems_map h]
  rfl

theorem Undoes.readList (h : Undoes read write) (as : List α) :
    readList read (ofList (as.map write)) = .ok as :=
  readIndexed_ofList (fun _ => h.read_write) as

end Parts

/-! ## Records -/

/-- Members under their names, as an object has them. -/
abbrev named (members : List (String × Json)) : List (Key × Json) :=
  members.map fun (name, value) => (.name name, value)

theorem lookup_eq_findMember? (name : String) (members : List (String × Json)) :
    members.lookup name = (findMember? name (named members)).map Prod.snd := by
  induction members with
  | nil => rfl
  | cons m rest ih =>
    obtain ⟨key, value⟩ := m
    rw [named, List.map_cons, findMember?, Key.isNamed, List.lookup_cons]
    by_cases hkey : key = name
    · subst hkey
      simp
    · have hname : (name == key) = false := beq_eq_false_iff_ne.mpr (Ne.symm hkey)
      have hkey : (key == name) = false := beq_eq_false_iff_ne.mpr hkey
      rw [hkey, if_neg Bool.false_ne_true, ← named, hname, ih, Option.map_map]
      rfl

/-- The list that a member is for, or no member when it is empty. -/
theorem lookup_listMember {α : Type} (key name : String) (write : α → Json) (as : List α) :
    (listMember name write as).lookup key =
      if key = name ∧ as ≠ [] then some (ofList (as.map write)) else none := by
  cases as with
  | nil => simp [listMember]
  | cons a as =>
    rw [listMember, List.isEmpty_cons, if_neg Bool.false_ne_true, List.lookup_cons, List.lookup_nil]
    by_cases hkey : key = name
    · subst hkey
      simp
    · have hkey' : (key == name) = false := beq_eq_false_iff_ne.mpr hkey
      simp [hkey, hkey']

theorem names_listMember {α : Type} (name : String) (write : α → Json) (as : List α) :
    ((listMember name write as).map Prod.fst).Sublist [name] := by
  cases as with
  | nil => exact List.nil_sublist _
  | cons a as => exact List.Sublist.refl _

namespace Record

variable {α β : Type} {members : List (String × Json)}

/-- The fields of a record come to `a` in an object with these members. -/
def Gets (r : Record α) (members : List (String × Json)) (a : α) : Prop :=
  r.ofMembers (named members) = .value a

theorem Gets.map {r : Record α} {a : α} (f : α → β) (h : r.Gets members a) :
    (f <$> r).Gets members (f a) := by
  show Outcome.both (· ·) (.value f) (r.ofMembers (named members)) = .value (f a)
  rw [h]
  rfl

theorem Gets.seq {f : Record (α → β)} {r : Record α} {g : α → β} {a : α} (hf : f.Gets members g)
    (h : r.Gets members a) : (f <*> r).Gets members (g a) := by
  show Outcome.both (· ·) (f.ofMembers (named members)) (r.ofMembers (named members)) = .value (g a)
  rw [hf, h]
  rfl

section Field

variable {name : String} {read : Reader α} {absent? : Option α} {a : α} {j : Json}

theorem gets_field (hj : members.lookup name = some j) (hread : read j = .ok a) :
    (field name read absent?).Gets members a := by
  rw [lookup_eq_findMember?, Option.map_eq_some_iff] at hj
  obtain ⟨⟨place, _⟩, hfound, rfl⟩ := hj
  rw [Gets, field]
  simp only [hfound, readAt, hread]

theorem gets_absent (hj : members.lookup name = none) : (field name read (some a)).Gets members a := by
  rw [lookup_eq_findMember?, Option.map_eq_none_iff] at hj
  rw [Gets, field]
  simp only [hj, absentAt]

end Field

section Written

variable {read : Reader α} {write : α → Json}

theorem gets_required (h : Undoes read write) {name : String} {a : α}
    (hj : members.lookup name = some (write a)) : (required name read).Gets members a :=
  gets_field hj (h.read_write a)

theorem gets_default (h : Undoes read write) {name : String} {a absent : α}
    (hj : members.lookup name = some (write a)) : (default name read absent).Gets members a :=
  gets_field hj (h.read_write a)

theorem gets_optional (h : Undoes read write) {name : String} {a? : Option α}
    (hj : members.lookup name = some (ofOption write a?)) : (optional name read).Gets members a? :=
  gets_field hj (h.readOption a?)

/-- An empty list is left out, and a list left out is empty. -/
theorem gets_list (h : Undoes read write) {name : String} {as : List α}
    (hj : members.lookup name = if as = [] then none else some (ofList (as.map write))) :
    (list name read).Gets members as := by
  by_cases has : as = []
  · subst has
    rw [if_pos rfl] at hj
    exact gets_absent hj
  · rw [if_neg has] at hj
    exact gets_field hj (h.readList as)

end Written

/-- Members with names of the record, none of them twice, have no fault that the fields do not see. -/
theorem memberFault?_named {names : List String} :
    ∀ (members : List (String × Json)) (seen : List String) (place : Nat),
      (∀ name ∈ members.map Prod.fst, name ∈ names ∧ name ∉ seen) → (members.map Prod.fst).Nodup →
      memberFault? names seen place (named members) = none := by
  intro members
  induction members with
  | nil =>
    intro seen place _ _
    rfl
  | cons m rest ih =>
    intro seen place hnames hnodup
    obtain ⟨name, value⟩ := m
    rw [List.map_cons, List.nodup_cons] at hnodup
    obtain ⟨hknown, hnew⟩ := hnames name (by simp)
    -- a later name that had been seen by now would stand twice
    have hrest : ∀ other ∈ rest.map Prod.fst, other ∈ names ∧ other ∉ name :: seen := by
      intro other hother
      obtain ⟨hin, hout⟩ := hnames other (by rw [List.map_cons]; exact List.mem_cons_of_mem _ hother)
      refine ⟨hin, ?_⟩
      rw [List.mem_cons, not_or]
      refine ⟨?_, hout⟩
      rintro rfl
      exact hnodup.1 hother
    show memberFault? names seen place ((.name name, value) :: named rest) = none
    rw [memberFault?, if_pos (by simpa using hknown), if_neg (by simpa using hnew)]
    exact ih (name :: seen) (place + 1) hrest hnodup.2

/-- A record is read back from an object whose members stand in the order of its fields. -/
theorem Gets.read {r : Record α} {a : α} (h : r.Gets members a)
    (hsub : (members.map Prod.fst).Sublist r.names) (hnodup : r.names.Nodup) :
    r.read (Json.ofMembers members) = .ok a := by
  have hfault : memberFault? r.names [] 0 (named members) = none :=
    memberFault?_named members [] 0 (fun name hname => ⟨hsub.subset hname, by simp⟩) (hnodup.sublist hsub)
  rw [Json.ofMembers, Record.read, h, objectFault?, hfault]
  rfl

end Record

/-! ## Documents -/

/-- A text in which nothing of a value is lost is read as the value is. -/
theorem readDocument_of_scan {α : Type} {read : Reader α} {j : Json} {a : α} {text : Bytes}
    (htext : scan text = ⟨j, false⟩) (hread : read j = .ok a) :
    readDocument read text = .ok a := by
  rw [readDocument, htext]
  show (do let a ← read j; .ok a) = .ok a
  rw [hread]
  rfl

end OpeningHours.Json
