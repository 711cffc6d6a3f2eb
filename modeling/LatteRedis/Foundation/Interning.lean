import Mathlib.Data.List.Basic
import Mathlib.Data.Nat.Basic

/-!
# Interning with a counter

A table hands out numbers for keys: a key that has one keeps it, a new key gets the next
number.  One number is reserved, and the counter jumps over it when it comes by.

What makes the numbers tell keys apart is a relation between the table and the counter
(`Table.Valid`): everything handed out is below the counter.  A run of calls is summed up
by `internAll_answers`: all answers of a run can be read off the table it ends with, and
that table is still valid.
-/

namespace Interning

/-- The numbers handed out so far, and the next one. -/
structure Table (κ : Type*) where
  ids : List (κ × Nat)
  next : Nat

variable {κ : Type*} [BEq κ]

/-- The number of a key, if it has one. -/
def Table.find (t : Table κ) (k : κ) : Option Nat := t.ids.lookup k

/-- The number behind `n`, or the one behind that if it is reserved. -/
def bump (reserved n : Nat) : Nat := if n + 1 = reserved then n + 1 + 1 else n + 1

theorem lt_bump (reserved n : Nat) : n < bump reserved n := by
  unfold bump
  split <;> omega

theorem bump_ne (reserved n : Nat) : bump reserved n ≠ reserved := by
  unfold bump
  split <;> omega

/-- The table with a number for one more key. -/
def Table.extend (reserved : Nat) (t : Table κ) (k : κ) : Table κ where
  ids := (k, t.next) :: t.ids
  next := bump reserved t.next

/-- The number of a key, and the table behind the call. -/
def Table.intern (reserved : Nat) (t : Table κ) (k : κ) : Nat × Table κ :=
  match t.find k with
  | some id => (id, t)
  | none => (t.next, t.extend reserved k)

/-- What a run of calls answers, each beside its key. -/
def Table.internAll (reserved : Nat) : Table κ → List κ → List (κ × Nat) × Table κ
  | t, [] => ([], t)
  | t, k :: ks =>
      let (id, t) := t.intern reserved k
      let (calls, t) := t.internAll reserved ks
      ((k, id) :: calls, t)

theorem Table.intern_of_find {t : Table κ} {k : κ} {id : Nat} (h : t.find k = some id)
    (reserved : Nat) : t.intern reserved k = (id, t) := by
  unfold intern
  rw [h]

theorem Table.intern_of_new {t : Table κ} {k : κ} (h : t.find k = none) (reserved : Nat) :
    t.intern reserved k = (t.next, t.extend reserved k) := by
  unfold intern
  rw [h]

variable [LawfulBEq κ]

@[simp]
theorem Table.find_extend_self (reserved : Nat) (t : Table κ) (k : κ) :
    (t.extend reserved k).find k = some t.next := List.lookup_cons_self

theorem Table.find_extend_of_ne (reserved : Nat) (t : Table κ) {k k' : κ} (h : k' ≠ k) :
    (t.extend reserved k).find k' = t.find k' := by
  unfold find extend
  rw [List.lookup_cons, beq_false_of_ne h]

/-! ## The invariant -/

/-- No two keys share a number, the reserved one was not handed out, and the counter is
above every number that was.  It is not far above: it counts the keys, and the reserved
number once it is past it. -/
structure Table.Valid (reserved : Nat) (t : Table κ) : Prop where
  lt_next : ∀ k id, t.find k = some id → id < t.next
  ne_reserved : ∀ k id, t.find k = some id → id ≠ reserved
  inj : ∀ k k' id, t.find k = some id → t.find k' = some id → k = k'
  next_ne : t.next ≠ reserved
  next_le : t.next ≤ t.ids.length + if reserved < t.next then 1 else 0

omit [LawfulBEq κ] in
/-- The table nothing was asked of. -/
theorem Table.valid_empty {reserved : Nat} (h : reserved ≠ 0) :
    (⟨[], 0⟩ : Table κ).Valid reserved where
  lt_next _ _ hfind := by cases hfind
  ne_reserved _ _ hfind := by cases hfind
  inj _ _ _ hfind := by cases hfind
  next_ne := h.symm
  next_le := Nat.zero_le _

/-- One more key keeps the table valid: its number is above all others. -/
theorem Table.Valid.extend {reserved : Nat} {t : Table κ} (h : t.Valid reserved) {k : κ} :
    (t.extend reserved k).Valid reserved := by
  have hcases : ∀ k' id, (t.extend reserved k).find k' = some id →
      (k' = k ∧ id = t.next) ∨ t.find k' = some id := by
    intro k' id hfind
    by_cases hk : k' = k
    · subst hk
      rw [find_extend_self] at hfind
      exact .inl ⟨rfl, (Option.some.inj hfind).symm⟩
    · rw [find_extend_of_ne reserved t hk] at hfind
      exact .inr hfind
  refine ⟨?_, ?_, ?_, bump_ne reserved t.next, ?_⟩
  · intro k' id hfind
    obtain ⟨-, rfl⟩ | hold := hcases k' id hfind
    · exact lt_bump reserved t.next
    · exact Nat.lt_trans (h.lt_next k' id hold) (lt_bump reserved t.next)
  · intro k' id hfind
    obtain ⟨-, rfl⟩ | hold := hcases k' id hfind
    · exact h.next_ne
    · exact h.ne_reserved k' id hold
  · intro k₁ k₂ id hfind₁ hfind₂
    obtain ⟨rfl, rfl⟩ | hold₁ := hcases k₁ id hfind₁
    · obtain ⟨rfl, -⟩ | hold₂ := hcases k₂ t.next hfind₂
      · rfl
      · exact absurd (h.lt_next k₂ _ hold₂) (lt_irrefl _)
    · obtain ⟨rfl, rfl⟩ | hold₂ := hcases k₂ id hfind₂
      · exact absurd (h.lt_next k₁ _ hold₁) (lt_irrefl _)
      · exact h.inj k₁ k₂ id hold₁ hold₂
  · have hle := h.next_le
    simp only [Table.extend, bump, List.length_cons]
    split at hle <;> split <;> split <;> omega

/-! ## Calls and runs of calls -/

/-- A call keeps the table valid and every number in it, and answers what the table says
from then on. -/
theorem Table.Valid.intern {reserved : Nat} {t : Table κ} (h : t.Valid reserved) (k : κ) :
    (t.intern reserved k).2.Valid reserved ∧
      (t.intern reserved k).2.find k = some (t.intern reserved k).1 ∧
      ∀ k' id, t.find k' = some id → (t.intern reserved k).2.find k' = some id := by
  cases hfind : t.find k with
  | some id =>
      rw [intern_of_find hfind]
      exact ⟨h, hfind, fun _ _ hold ↦ hold⟩
  | none =>
      rw [intern_of_new hfind]
      refine ⟨h.extend, find_extend_self reserved t k, ?_⟩
      intro k' id hold
      have hne : k' ≠ k := by
        rintro rfl
        rw [hfind] at hold
        cases hold
      rw [find_extend_of_ne reserved t hne]
      exact hold

/-- Every answer of a run can be read off the table at its end. -/
theorem Table.Valid.internAll_answers {reserved : Nat} {t : Table κ} (h : t.Valid reserved)
    (ks : List κ) :
    (t.internAll reserved ks).2.Valid reserved ∧
      (∀ c ∈ (t.internAll reserved ks).1, (t.internAll reserved ks).2.find c.1 = some c.2) ∧
      ∀ k id, t.find k = some id → (t.internAll reserved ks).2.find k = some id := by
  induction ks generalizing t with
  | nil =>
      refine ⟨h, ?_, fun _ _ hold ↦ hold⟩
      rintro c ⟨⟩
  | cons k ks ih =>
      obtain ⟨hvalid, hself, hkeeps⟩ := h.intern k
      obtain ⟨hvalid', hcalls, hkeeps'⟩ := ih hvalid
      refine ⟨hvalid', ?_, fun k' id hold ↦ hkeeps' k' id (hkeeps k' id hold)⟩
      rintro c (_ | ⟨_, hc⟩)
      · exact hkeeps' k _ hself
      · exact hcalls c hc

end Interning
