import Mathlib.Logic.Function.Basic

/-!
# Tables whose entries expire

A `Table` maps keys to entries, and an entry is a value that may have a deadline.  An
entry whose deadline has passed is not removed by anybody; it is removed by whoever comes
across it (`reap`).

Programs often keep the deadlines in a map of their own.  `Split` says that two maps are
such a representation of a table, and the lemmas about it say which updates of the two
maps are which operation on the table.
-/

namespace Expiring

universe u v w

/-- A value, and the time up to which it is there. -/
@[ext]
structure Entry (V : Type v) (T : Type w) where
  value : V
  deadline : Option T

variable {K : Type u} {V : Type v} {T : Type w}

/-- The deadline of the entry has passed at time `t`. -/
def Entry.Stale [LE T] (e : Entry V T) (t : T) : Prop := ∃ w, e.deadline = some w ∧ w ≤ t

instance [LE T] [DecidableLE T] (e : Entry V T) (t : T) : Decidable (e.Stale t) :=
  match h : e.deadline with
  | none => isFalse fun ⟨w, hw, _⟩ ↦ by rw [h] at hw; cases hw
  | some w => decidable_of_iff (w ≤ t)
      ⟨fun hle ↦ ⟨w, h, hle⟩, fun ⟨_, hw, hle⟩ ↦ Option.some.inj (h.symm.trans hw) ▸ hle⟩

/-- A finite or infinite map from keys to entries. -/
def Table (K : Type u) (V : Type v) (T : Type w) := K → Option (Entry V T)

namespace Table

/-- The table without entries. -/
def empty : Table K V T := fun _ ↦ none

/-- The values have the property `P`. -/
def Holds (P : V → Prop) (m : Table K V T) : Prop := ∀ k e, m k = some e → P e.value

theorem Holds.of_empty {P : V → Prop} : (empty : Table K V T).Holds P := by
  intro k e he
  cases he

variable [DecidableEq K]

def erase (m : Table K V T) (k : K) : Table K V T := Function.update m k none

/-- A new value for a key, which keeps the deadline it has. -/
def put (m : Table K V T) (k : K) (v : V) : Table K V T :=
  Function.update m k (some ⟨v, (m k).bind Entry.deadline⟩)

/-- A deadline for a key. -/
def arm (m : Table K V T) (k : K) (w : T) : Table K V T :=
  Function.update m k ((m k).map fun e ↦ { e with deadline := some w })

/-- The key of a stale entry is removed. -/
def reap [LE T] [DecidableLE T] (m : Table K V T) (t : T) (k : K) : Table K V T :=
  match m k with
  | none => m
  | some e => if e.Stale t then m.erase k else m

@[simp] theorem erase_self (m : Table K V T) (k : K) : m.erase k k = none := Function.update_self ..

@[simp] theorem put_self (m : Table K V T) (k : K) (v : V) :
    m.put k v k = some ⟨v, (m k).bind Entry.deadline⟩ := Function.update_self ..

@[simp] theorem arm_self (m : Table K V T) (k : K) (w : T) :
    m.arm k w k = (m k).map fun e ↦ { e with deadline := some w } := Function.update_self ..

variable {k k' : K}

theorem erase_of_ne (h : k' ≠ k) (m : Table K V T) : m.erase k k' = m k' := Function.update_of_ne h ..

theorem put_of_ne (h : k' ≠ k) (m : Table K V T) (v : V) : m.put k v k' = m k' :=
  Function.update_of_ne h ..

theorem arm_of_ne (h : k' ≠ k) (m : Table K V T) (w : T) : m.arm k w k' = m k' :=
  Function.update_of_ne h ..

variable {P : V → Prop} {m : Table K V T}

theorem Holds.erase (h : m.Holds P) (k : K) : (m.erase k).Holds P := by
  intro k' e he
  by_cases hk : k' = k
  · rw [hk, erase_self] at he
    cases he
  · rw [erase_of_ne hk] at he
    exact h k' e he

theorem Holds.put (h : m.Holds P) (k : K) {v : V} (hv : P v) : (m.put k v).Holds P := by
  intro k' e he
  by_cases hk : k' = k
  · rw [hk, put_self] at he
    cases he
    exact hv
  · rw [put_of_ne hk] at he
    exact h k' e he

theorem Holds.arm (h : m.Holds P) (k : K) (w : T) : (m.arm k w).Holds P := by
  intro k' e he
  by_cases hk : k' = k
  · rw [hk, arm_self] at he
    obtain ⟨e', he', rfl⟩ := Option.map_eq_some_iff.mp he
    exact h k e' he'
  · rw [arm_of_ne hk] at he
    exact h k' e he

theorem Holds.reap [LE T] [DecidableLE T] (h : m.Holds P) (t : T) (k : K) : (m.reap t k).Holds P := by
  unfold Table.reap
  split
  · exact h
  · split
    · exact h.erase k
    · exact h

end Table

/-! ## Values and deadlines in two maps -/

/-- The two maps represent the table; `f` says which value an object stands for. -/
structure Split {W : Type*} (f : W → V) (values : K → Option W) (deadlines : K → Option T)
    (m : Table K V T) : Prop where
  entry : ∀ k, m k = (values k).map fun o ↦ ⟨f o, deadlines k⟩
  /-- Only keys that are there have a deadline. -/
  guarded : ∀ k, values k = none → deadlines k = none

namespace Split

variable {W : Type*} {f : W → V} {values : K → Option W} {deadlines : K → Option T}
  {m : Table K V T}

variable [DecidableEq K]

theorem erase (h : Split f values deadlines m) (k : K) :
    Split f (Function.update values k none) (Function.update deadlines k none) (m.erase k) := by
  constructor
  · intro k'
    by_cases hk : k' = k
    · rw [hk, Table.erase_self, Function.update_self, Function.update_self, Option.map_none]
    · rw [Table.erase_of_ne hk, Function.update_of_ne hk, Function.update_of_ne hk]
      exact h.entry k'
  · intro k' hk'
    by_cases hk : k' = k
    · rw [hk, Function.update_self]
    · rw [Function.update_of_ne hk] at hk' ⊢
      exact h.guarded k' hk'

/-- A key that was not there had no deadline, so a new entry has none. -/
theorem put (h : Split f values deadlines m) (k : K) (o : W) :
    Split f (Function.update values k (some o)) deadlines (m.put k (f o)) := by
  constructor
  · intro k'
    by_cases hk : k' = k
    · rw [hk, Table.put_self, Function.update_self, h.entry]
      cases hv : values k with
      | none => rw [h.guarded k hv]; rfl
      | some o' => rfl
    · rw [Table.put_of_ne hk, Function.update_of_ne hk]
      exact h.entry k'
  · intro k' hk'
    by_cases hk : k' = k
    · rw [hk, Function.update_self] at hk'
      cases hk'
    · rw [Function.update_of_ne hk] at hk'
      exact h.guarded k' hk'

theorem arm (h : Split f values deadlines m) {k : K} (hk : (values k).isSome) (w : T) :
    Split f values (Function.update deadlines k (some w)) (m.arm k w) := by
  constructor
  · intro k'
    by_cases hk' : k' = k
    · rw [hk', Table.arm_self, Function.update_self, h.entry, Option.map_map]
      rfl
    · rw [Table.arm_of_ne hk', Function.update_of_ne hk']
      exact h.entry k'
  · intro k' hnone
    by_cases hk' : k' = k
    · rw [← hk', hnone] at hk
      cases hk
    · rw [Function.update_of_ne hk']
      exact h.guarded k' hnone

variable [LE T] [DecidableLE T]

/-- A stale entry is one whose deadline is found in the second map. -/
theorem reap_of_stale (h : Split f values deadlines m) {t w : T} {k : K}
    (hw : deadlines k = some w) (hle : w ≤ t) : m.reap t k = m.erase k := by
  unfold Table.reap
  rw [h.entry]
  cases hv : values k with
  | none =>
      rw [h.guarded k hv] at hw
      cases hw
  | some o => exact if_pos ⟨w, hw, hle⟩

theorem reap_of_fresh (h : Split f values deadlines m) {t : T} {k : K}
    (hfresh : ¬ ∃ w, deadlines k = some w ∧ w ≤ t) : m.reap t k = m := by
  unfold Table.reap
  rw [h.entry]
  cases values k with
  | none => rfl
  | some o => exact if_neg hfresh

end Split

end Expiring
