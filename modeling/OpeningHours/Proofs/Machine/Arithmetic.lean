import OpeningHours.HoursError
import OpeningHours.Timeline.Interval

/-!
# Steps that a machine can break at

Plans are made of numbers without bounds and of dates that answer an option. A machine
counts in 32 or 64 bits, divides by what it is given and moves dates without asking,
and it stops where that fails. Here are those steps with their breaches.

Above them, every function of the evaluation is written once more on such steps, under
its own name, and proved to come to what it comes to without them. A computation that gives
a result or an error of the rules, and not a breach, `Yields` it.
-/

namespace OpeningHours

/-- Why a machine stops. -/
inductive Breach where
  /-- A number that does not fit its type. -/
  | overflow (value : Int)
  | divisionByZero
  /-- A number to be brought between bounds that stand the wrong way round. -/
  | crossedBounds (low high : Nat)
  | noInterval (fault : IntervalFault)
  /-- A day number outside the calendar. -/
  | offCalendar (number : Int)
  /-- More days than a duration can have. -/
  | longDuration (days : Int)
  /-- A place beyond the end of a list. -/
  | noPlace (index : Nat)
  deriving DecidableEq

/-- What comes of steps that may break. -/
abbrev Machine := Except Breach

namespace Machine

@[simp] theorem ok_bind {α β : Type} (a : α) (f : α → Machine β) : (Except.ok a >>= f) = f a := rfl

@[simp] theorem pure_eq_ok {α : Type} (a : α) : (pure a : Machine α) = .ok a := rfl

/-! ## Numbers -/

/-- A number that has to be at least `low` and less than `high`. -/
def fit (low high value : Int) : Machine Int :=
  if low ≤ value ∧ value < high then .ok value else .error (.overflow value)

/-- A result of arithmetic on 32 bits with a sign. -/
def int32 (value : Int) : Machine Int := fit (-0x80000000) 0x80000000 value

/-- A result of arithmetic on 64 bits with a sign. -/
def int64 (value : Int) : Machine Int := fit (-0x8000000000000000) 0x8000000000000000 value

/-- A result of arithmetic on 32 bits without a sign. -/
def uint32 (value : Int) : Machine Nat := Int.toNat <$> fit 0 0x100000000 value

/-- A result of arithmetic on 64 bits without a sign. -/
def uint64 (value : Int) : Machine Nat := Int.toNat <$> fit 0 0x10000000000000000 value

theorem int32_eq {value : Int} (h : -0x80000000 ≤ value ∧ value < 0x80000000) :
    int32 value = .ok value := if_pos h

theorem int64_eq {value : Int} (h : -0x8000000000000000 ≤ value ∧ value < 0x8000000000000000) :
    int64 value = .ok value := if_pos h

theorem uint32_eq {value : Int} {n : Nat} (hvalue : value = n) (h : n < 0x100000000) :
    uint32 value = .ok n := by
  subst hvalue
  rw [uint32, fit, if_pos (by omega)]
  rfl

example : uint32 (0 - 1) = .error (.overflow (-1)) := rfl

theorem uint64_eq {value : Int} {n : Nat} (hvalue : value = n) (h : n < 0x10000000000000000) :
    uint64 value = .ok n := by
  subst hvalue
  rw [uint64, fit, if_pos (by omega)]
  rfl

theorem uint32_eq_ok_iff {value : Int} {n : Nat} :
    uint32 value = .ok n ↔ value = n ∧ n < 0x100000000 := by
  refine ⟨fun h => ?_, fun h => uint32_eq h.1 h.2⟩
  unfold uint32 fit at h
  split at h
  · cases h
    omega
  · cases h

/-- The remainder of a division, which goes toward zero. -/
def rem (a b : Int) : Machine Int := if b = 0 then .error .divisionByZero else .ok (a.tmod b)

theorem rem_eq {a b : Int} (ha : 0 ≤ a) (hb : b ≠ 0) : rem a b = .ok (a % b) := by
  rw [rem, if_neg hb, Int.tmod_eq_emod_of_nonneg ha]

/-- A number brought between two bounds. -/
def clamp (value low high : Nat) : Machine Nat :=
  if low ≤ high then .ok (min (max value low) high) else .error (.crossedBounds low high)

theorem clamp_eq {value low high : Nat} (h : low ≤ high) :
    clamp value low high = .ok (min (max value low) high) := if_pos h

/-- A minute of the day, from the hour and the minute that a clock shows. -/
def clock (minute : Nat) : Machine Nat := do
  let hours ← uint32 ((minute / 60 : Nat) * 60)
  uint32 (hours + (minute % 60 : Nat))

theorem clock_eq {minute : Nat} (h : minute < 1440) : clock minute = .ok minute := by
  rw [clock, uint32_eq (n := minute / 60 * 60) (by omega) (by omega), ok_bind]
  exact uint32_eq (by omega) (by omega)

/-- A number of days as a duration, which counts in milliseconds on 64 bits. -/
def duration (days : Int) : Machine Int :=
  if -106751991167 ≤ days ∧ days ≤ 106751991167 then .ok days else .error (.longDuration days)

theorem duration_eq {days : Int} (h : -106751991167 ≤ days ∧ days ≤ 106751991167) :
    duration days = .ok days := if_pos h

/-! ## Dates, intervals, places -/

/-- The date a number of days later, with nothing to answer when there is none. -/
def addDays (d : Date) (days : Int) : Machine Date :=
  match d.add? days with
  | some e => .ok e
  | none => .error (.offCalendar (d.number + days))

theorem addDays_eq {d e : Date} {days : Int} (h : e.number = d.number + days) :
    addDays d days = .ok e := by
  rw [addDays, Date.add?_eq_some_iff.2 h]

/-- The interval with these ends, with nothing to answer when they are not the ends of one. -/
def interval (start stop : Nat) (label : Label) : Machine Interval :=
  match Interval.new? start stop label with
  | .ok iv => .ok iv
  | .error fault => .error (.noInterval fault)

/-- What stands at a place of a list. -/
def entry {α : Type} (list : List α) (index : Nat) : Machine α :=
  match list[index]? with
  | some a => .ok a
  | none => .error (.noPlace index)

theorem entry_eq {α : Type} {list : List α} {index : Nat} {a : α} (h : list[index]? = some a) :
    entry list index = .ok a := by
  rw [entry, h]

/-! ## Lists -/

section Lists

variable {α β : Type} {list : List α}

theorem mapM_eq {f : α → Machine β} {g : α → β} (h : ∀ a ∈ list, f a = .ok (g a)) :
    list.mapM f = .ok (list.map g) := by
  induction list with
  | nil => rfl
  | cons a rest ih =>
    rw [List.mapM_cons, h a List.mem_cons_self, ih fun b hb => h b (List.mem_cons_of_mem a hb)]
    rfl

theorem mapM_range_eq {n : Nat} {f : Nat → Machine β} {g : Fin n → β}
    (h : ∀ i : Fin n, f i = .ok (g i)) :
    (List.range n).mapM f = .ok ((List.finRange n).map g) := by
  have hrange : List.range n = (List.finRange n).map Fin.val :=
    List.ext_getElem (by simp) (by simp)
  rw [hrange, List.mapM_map]
  exact mapM_eq fun i _ => h i

theorem anyM_eq {f : α → Machine Bool} {p : α → Bool} (h : ∀ a ∈ list, f a = .ok (p a)) :
    list.anyM f = .ok (list.any p) := by
  induction list with
  | nil => rfl
  | cons a rest ih =>
    rw [List.anyM, h a List.mem_cons_self, ok_bind, List.any_cons,
      ih fun b hb => h b (List.mem_cons_of_mem a hb)]
    cases p a <;> rfl

theorem foldlM_eq {f : β → α → Machine β} {g : β → α → β}
    (h : ∀ b, ∀ a ∈ list, f b a = .ok (g b a)) (b : β) : list.foldlM f b = .ok (list.foldl g b) := by
  induction list generalizing b with
  | nil => rfl
  | cons a rest ih =>
    rw [List.foldlM_cons, h b a List.mem_cons_self, ok_bind, List.foldl_cons]
    exact ih (fun b' a' ha' => h b' a' (List.mem_cons_of_mem a ha')) (g b a)

end Lists

/-! ## Errors of the rules -/

/-- A result or an error, without a step that may break. -/
def answer {ε α : Type} (y : Except ε α) : ExceptT ε Machine α := ExceptT.mk (.ok y)

/-- A computation that does not break comes to a result or an error. -/
def Yields {ε α : Type} (x : ExceptT ε Machine α) (y : Except ε α) : Prop := x.run = .ok y

section Yields

variable {ε α β : Type}

theorem yields_answer (y : Except ε α) : Yields (answer y) y := rfl

theorem yields_pure (a : α) : Yields (pure a : ExceptT ε Machine α) (.ok a) := rfl

theorem yields_throw (e : ε) : Yields (throw e : ExceptT ε Machine α) (.error e) := rfl

/-- Steps in a row need to match only where the first gives a result. -/
theorem Yields.bind {x : ExceptT ε Machine α} {y : Except ε α} {f : α → ExceptT ε Machine β}
    {g : α → Except ε β} (hx : Yields x y) (hf : ∀ a, y = .ok a → Yields (f a) (g a)) :
    Yields (x >>= f) (y >>= g) := by
  show (x.run >>= ExceptT.bindCont f) = .ok (y >>= g)
  rw [show x.run = .ok y from hx]
  cases y with
  | error e => rfl
  | ok a => exact hf a rfl

theorem Yields.bind_error {x : ExceptT ε Machine α} {e : ε} (hx : Yields x (.error e))
    (f : α → ExceptT ε Machine β) : Yields (x >>= f) (.error e) := by
  show (x.run >>= ExceptT.bindCont f) = .ok (.error e)
  rw [show x.run = .ok (.error e) from hx]
  rfl

theorem yields_liftM {c : Machine α} {a : α} (h : c = .ok a) :
    Yields (liftM c : ExceptT ε Machine α) (.ok a) := by
  rw [h]
  rfl

/-- A step that may break, and does not. -/
theorem Yields.step {c : Machine α} {a : α} {f : α → ExceptT ε Machine β} {y : Except ε β}
    (hc : c = .ok a) (hf : Yields (f a) y) : Yields (liftM c >>= f) y := by
  rw [hc]
  exact hf

theorem exists_of_run_bind {x : ExceptT ε Machine α} {f : α → ExceptT ε Machine β} {b : β}
    (h : (x >>= f).run = .ok (.ok b)) : ∃ a, x.run = .ok (.ok a) ∧ (f a).run = .ok (.ok b) := by
  change (x.run >>= ExceptT.bindCont f) = .ok (.ok b) at h
  cases hx : x.run with
  | error breach =>
    rw [hx] at h
    cases h
  | ok y =>
    rw [hx] at h
    cases y with
    | error e => cases h
    | ok a => exact ⟨a, rfl, h⟩

theorem eq_ok_of_run_liftM {c : Machine α} {a : α}
    (h : (liftM c : ExceptT ε Machine α).run = .ok (.ok a)) : c = .ok a := by
  cases c with
  | error breach => cases h
  | ok a' =>
    cases h
    rfl

theorem Yields.mapM {list : List α} {f : α → ExceptT ε Machine β} {g : α → Except ε β}
    (h : ∀ a ∈ list, Yields (f a) (g a)) : Yields (list.mapM f) (list.mapM g) := by
  induction list with
  | nil => exact yields_pure []
  | cons a rest ih =>
    rw [List.mapM_cons, List.mapM_cons]
    refine (h a List.mem_cons_self).bind fun b _ => ?_
    refine (ih fun a' ha' => h a' (List.mem_cons_of_mem a ha')).bind fun bs _ => ?_
    exact yields_pure (b :: bs)

end Yields

end Machine

end OpeningHours
