import Mathlib.Data.List.Basic

/-!
# Memory that is given out and taken back

A heap of blocks, addressed in the order in which they were given out.  An address is never
given out again, so one that was freed stays dangling.
-/

namespace Memory

universe u

/-- The blocks that were ever given out; `none` are those that were freed. -/
structure Heap (α : Type u) where
  blocks : List (Option α) := []

namespace Heap

variable {α : Type u} {h h' : Heap α} {p q : Nat} {a b : α}

/-- What is at an address, if there is something. -/
def read (h : Heap α) (p : Nat) : Option α := h.blocks[p]?.join

/-- A new block, and its address. -/
def alloc (h : Heap α) (a : α) : Heap α × Nat := (⟨h.blocks ++ [some a]⟩, h.blocks.length)

def free (h : Heap α) (p : Nat) : Option (Heap α) := (h.read p).map fun _ ↦ ⟨h.blocks.set p none⟩

def write (h : Heap α) (p : Nat) (a : α) : Option (Heap α) :=
  (h.read p).map fun _ ↦ ⟨h.blocks.set p (some a)⟩

theorem read_eq_some : h.read p = some a ↔ h.blocks[p]? = some (some a) := Option.join_eq_some_iff

theorem lt_of_read (hp : h.read p = some a) : p < h.blocks.length :=
  (List.getElem?_eq_some_iff.mp (read_eq_some.mp hp)).1

/-- A new block is at an address nobody has. -/
theorem read_alloc_fresh (h : Heap α) (a : α) : h.read (h.alloc a).2 = none := by
  unfold read alloc
  rw [List.getElem?_eq_none (Nat.le_refl _)]
  rfl

theorem read_alloc_self (h : Heap α) (a : α) : (h.alloc a).1.read (h.alloc a).2 = some a := by
  unfold read alloc
  simp

theorem read_alloc (hp : h.read p = some b) (a : α) : (h.alloc a).1.read p = some b := by
  unfold alloc
  rw [read_eq_some] at hp ⊢
  rw [List.getElem?_append_left (List.getElem?_eq_some_iff.mp hp).1, hp]

theorem free_ok (hp : h.read p = some a) :
    ∃ h', h.free p = some h' ∧ ∀ q, q ≠ p → h'.read q = h.read q := by
  refine ⟨⟨h.blocks.set p none⟩, by rw [free, hp]; rfl, ?_⟩
  intro q hq
  unfold read
  rw [List.getElem?_set_ne (Ne.symm hq)]

theorem write_ok (hp : h.read p = some a) (b : α) :
    ∃ h', h.write p b = some h' ∧ h'.read p = some b ∧ ∀ q, q ≠ p → h'.read q = h.read q := by
  refine ⟨⟨h.blocks.set p (some b)⟩, by rw [write, hp]; rfl, ?_, ?_⟩
  · rw [read_eq_some, List.getElem?_set_self (lt_of_read hp)]
  · intro q hq
    unfold read
    rw [List.getElem?_set_ne (Ne.symm hq)]

end Heap

end Memory
