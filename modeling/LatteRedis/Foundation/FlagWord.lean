import Mathlib.Data.List.Basic
import Mathlib.Data.Nat.Basic
import Mathlib.Tactic.Push

/-!
# Words of flags

A set of flags is a machine word, its union is a bitwise or, and what can be said about it
is said bit by bit (`getLsbD_union`).

C programs move such words through variables of other widths.  `narrow v` is what is left
of a word that was kept in a signed variable of `v` bits: the lower bits survive, and
every upper bit becomes a copy of the highest of them.  A union of narrowed words is
the union narrowed, and `or_union_narrow_eq_iff` says when nobody can tell the difference.
-/

namespace FlagWord

variable {w : Nat}

/-! ## Unions -/

/-- The union of a list of words. -/
def union (l : List (BitVec w)) : BitVec w := l.foldr (· ||| ·) 0

@[simp] theorem union_nil : union ([] : List (BitVec w)) = 0 := rfl

@[simp] theorem union_cons (x : BitVec w) (l : List (BitVec w)) : union (x :: l) = x ||| union l :=
  rfl

theorem getLsbD_union {l : List (BitVec w)} {i : Nat} :
    (union l).getLsbD i = true ↔ ∃ x ∈ l, x.getLsbD i = true := by
  induction l with
  | nil => simp
  | cons x l ih => simp [ih]

/-- A union has none of the flags `m` if none of its words has. -/
theorem union_and_eq_zero_iff {l : List (BitVec w)} {m : BitVec w} :
    union l &&& m = 0 ↔ ∀ x ∈ l, x &&& m = 0 := by
  induction l with
  | nil => simp
  | cons x l ih =>
      rw [union_cons, BitVec.and_or_distrib_right, List.forall_mem_cons, ← ih]
      exact BitVec.or_eq_zero_iff

/-- A loop that adds one word after the other and breaks off where there is none. -/
theorem foldlM_or_eq_some_iff {α : Type*} {g : α → Option (BitVec w)} {l : List α}
    {f r : BitVec w} :
    l.foldlM (fun flags a ↦ (g a).map (flags ||| ·)) f = some r ↔
      (∀ a ∈ l, g a ≠ none) ∧ r = f ||| union (l.map fun a ↦ (g a).getD 0) := by
  induction l generalizing f with
  | nil => simp [eq_comm]
  | cons a l ih =>
      rw [List.foldlM_cons, List.forall_mem_cons]
      cases hg : g a with
      | none => simp
      | some x =>
          rw [Option.map_some, Option.bind_eq_bind, Option.bind_some, ih, List.map_cons, hg,
            union_cons, ← BitVec.or_assoc]
          simp

/-! ## Narrowing -/

/-- What is left of a word that was kept in a signed variable of `v` bits. -/
def narrow (v : Nat) (x : BitVec w) : BitVec w := (x.setWidth v).signExtend w

theorem getLsbD_narrow {v i : Nat} (hv : 0 < v) (hi : i < w) (x : BitVec w) :
    (narrow v x).getLsbD i = if i < v then x.getLsbD i else x.getLsbD (v - 1) := by
  unfold narrow
  rw [BitVec.getLsbD_signExtend]
  split
  · next hiv => simp [hi, hiv]
  · have hlast : v - 1 < v := by omega
    simp [hi, BitVec.msb_eq_getLsbD_last, hlast]

/-- Whether some word has the bit that is copied upwards. -/
def Spills (v : Nat) (l : List (BitVec w)) : Prop := ∃ x ∈ l, x.getLsbD (v - 1) = true

theorem getLsbD_union_narrow {v i : Nat} (hv : 0 < v) (hi : i < w) (l : List (BitVec w)) :
    (union (l.map (narrow v))).getLsbD i = true ↔
      if i < v then (union l).getLsbD i = true else Spills v l := by
  rw [getLsbD_union]
  simp only [List.mem_map, exists_exists_and_eq_and, getLsbD_narrow hv hi]
  split
  · rw [getLsbD_union]
  · rfl

/-- Narrowing each word of a list is harmless beside the flags `f`: if a copied bit spills,
every upper bit is there anyway, and if none does, the upper bits that get lost are in `f`. -/
structure Harmless (v : Nat) (f : BitVec w) (l : List (BitVec w)) : Prop where
  spilled : Spills v l → ∀ i < w, v ≤ i → (f ||| union l).getLsbD i = true
  lost : ¬Spills v l → ∀ i < w, v ≤ i → (union l).getLsbD i = true → f.getLsbD i = true

theorem or_union_narrow_eq_iff {v : Nat} (hv : 0 < v) {f : BitVec w} {l : List (BitVec w)} :
    f ||| union (l.map (narrow v)) = f ||| union l ↔ Harmless v f l := by
  -- the two unions agree below `v`, so everything is about the bits above
  have hbit : f ||| union (l.map (narrow v)) = f ||| union l ↔
      ∀ i < w, v ≤ i → (f.getLsbD i = true ∨ Spills v l ↔ (f ||| union l).getLsbD i = true) := by
    rw [BitVec.eq_of_getLsbD_eq_iff]
    refine forall_congr' fun i ↦ forall_congr' fun hi ↦ ?_
    rw [Bool.eq_iff_iff, BitVec.getLsbD_or, Bool.or_eq_true, getLsbD_union_narrow hv hi]
    split
    · next hiv =>
        simp only [BitVec.getLsbD_or, Bool.or_eq_true, true_iff]
        exact fun hvi ↦ absurd hvi (Nat.not_le_of_lt hiv)
    · next hiv => simp [Nat.le_of_not_lt hiv]
  rw [hbit]
  constructor
  · intro h
    refine ⟨fun hspills i hi hvi ↦ (h i hi hvi).mp (.inr hspills), ?_⟩
    intro hno i hi hvi hl
    have hmem : (f ||| union l).getLsbD i = true := by simp [hl]
    exact ((h i hi hvi).mpr hmem).resolve_right hno
  · intro h i hi hvi
    constructor
    · rintro (hf | hspills)
      · simp [hf]
      · exact h.spilled hspills i hi hvi
    · intro hmem
      by_cases hspills : Spills v l
      · exact .inr hspills
      · rw [BitVec.getLsbD_or, Bool.or_eq_true] at hmem
        exact .inl (hmem.elim id (h.lost hspills i hi hvi))

end FlagWord
