import Mathlib.Data.Multiset.AddSub
import Mathlib.Data.Multiset.Count

/-!
# Reference counts

A heap of counted cells, addressed by the order of their creation, and what it means that
the counts are right.  Who holds a reference is not a matter of the heap: the places that
hold one are given as a multiset of addresses, and a heap is `Balanced` with it when every
count is the number of times the address occurs.

An operation on the heap comes with a change of that multiset.  Creating a cell and
incrementing a count add a holder, decrementing a count takes one away.  A cell whose
count is zero is gone: reading it or changing its count fails.
-/

namespace RefCount

universe u

/-- A value and the number of references to it; the value is gone once that is zero. -/
structure Cell (α : Type u) where
  val : α
  refcount : Nat

/-- The cells that were ever created, in that order. -/
structure Heap (α : Type u) where
  cells : List (Cell α) := []

namespace Heap

variable {α : Type u}

/-- The reference count of a cell, which is zero for an address that is not in use yet. -/
def count (h : Heap α) (id : Nat) : Nat := (h.cells[id]?.map Cell.refcount).getD 0

/-- The cell at an address, if it is still there. -/
def live? (h : Heap α) (id : Nat) : Option (Cell α) :=
  match h.cells[id]? with
  | some c => if c.refcount = 0 then none else some c
  | none => none

def read (h : Heap α) (id : Nat) : Option α := (h.live? id).map Cell.val

def set (h : Heap α) (id : Nat) (c : Cell α) : Heap α := ⟨h.cells.set id c⟩

/-- A new cell with one reference, and its address. -/
def new (h : Heap α) (a : α) : Heap α × Nat := (⟨h.cells ++ [⟨a, 1⟩]⟩, h.cells.length)

/-- The cells of a list of values. -/
def newAll (h : Heap α) : List α → Heap α × List Nat
  | [] => (h, [])
  | a :: as =>
      let (h, id) := h.new a
      let (h, ids) := h.newAll as
      (h, id :: ids)

def incr (h : Heap α) (id : Nat) : Option (Heap α) :=
  (h.live? id).map fun c ↦ h.set id { c with refcount := c.refcount + 1 }

def decr (h : Heap α) (id : Nat) : Option (Heap α) :=
  (h.live? id).map fun c ↦ h.set id { c with refcount := c.refcount - 1 }

def modify (h : Heap α) (id : Nat) (f : α → α) : Option (Heap α) :=
  (h.live? id).map fun c ↦ h.set id { c with val := f c.val }

/-- One reference is given up for each address in the list. -/
def decrAll (h : Heap α) (ids : List Nat) : Option (Heap α) := ids.foldlM decr h

/-! ## Counts -/

theorem live?_eq_some {h : Heap α} {id : Nat} {c : Cell α} :
    h.live? id = some c ↔ h.cells[id]? = some c ∧ c.refcount ≠ 0 := by
  unfold live?
  cases h.cells[id]? with
  | none => simp
  | some c' =>
      dsimp only
      split
      · next hzero =>
          refine ⟨fun hc ↦ by simp at hc, ?_⟩
          rintro ⟨hc, hne⟩
          cases hc
          exact absurd hzero hne
      · next hne =>
          constructor
          · intro hc
            cases hc
            exact ⟨rfl, hne⟩
          · exact fun hc ↦ hc.1

/-- A cell is there exactly as long as it is counted. -/
theorem exists_live?_iff {h : Heap α} {id : Nat} : (∃ c, h.live? id = some c) ↔ h.count id ≠ 0 := by
  unfold count
  simp only [live?_eq_some]
  cases h.cells[id]? with
  | none => simp
  | some c => simp

theorem count_of_live? {h : Heap α} {id : Nat} {c : Cell α} (hc : h.live? id = some c) :
    h.count id = c.refcount := by
  unfold count
  rw [(live?_eq_some.mp hc).1]
  rfl

theorem count_set {h : Heap α} {id : Nat} {c c' : Cell α} (hc : h.live? id = some c) (j : Nat) :
    (h.set id c').count j = if j = id then c'.refcount else h.count j := by
  have hlt : id < h.cells.length := (List.getElem?_eq_some_iff.mp (live?_eq_some.mp hc).1).1
  unfold count set
  by_cases hj : j = id
  · subst hj
    simp [List.getElem?_set_self hlt]
  · rw [if_neg hj, List.getElem?_set_ne (Ne.symm hj)]

theorem count_new (h : Heap α) (a : α) (j : Nat) :
    (h.new a).1.count j = if j = (h.new a).2 then 1 else h.count j := by
  unfold count new
  dsimp only
  by_cases hj : j = h.cells.length
  · subst hj
    simp
  · rw [if_neg hj]
    by_cases hlt : j < h.cells.length
    · rw [List.getElem?_append_left hlt]
    · rw [List.getElem?_eq_none (by simp; omega), List.getElem?_eq_none (by omega)]

/-! ## Cells -/

theorem live?_set_self {h : Heap α} {id : Nat} {c c' : Cell α} (hc : h.live? id = some c)
    (hc' : c'.refcount ≠ 0) : (h.set id c').live? id = some c' := by
  have hlt : id < h.cells.length := (List.getElem?_eq_some_iff.mp (live?_eq_some.mp hc).1).1
  exact live?_eq_some.mpr ⟨List.getElem?_set_self hlt, hc'⟩

theorem live?_set_of_ne (h : Heap α) {id j : Nat} (hj : j ≠ id) (c' : Cell α) :
    (h.set id c').live? j = h.live? j := by
  unfold live? set
  rw [List.getElem?_set_ne (Ne.symm hj)]

/-- The address of a new cell was not in use. -/
theorem live?_fresh (h : Heap α) (a : α) : h.live? (h.new a).2 = none := by
  unfold live? new
  rw [List.getElem?_eq_none (Nat.le_refl _)]

theorem live?_new (h : Heap α) (a : α) (j : Nat) :
    (h.new a).1.live? j = if j = (h.new a).2 then some ⟨a, 1⟩ else h.live? j := by
  unfold live? new
  dsimp only
  by_cases hj : j = h.cells.length
  · subst hj
    simp
  · rw [if_neg hj]
    by_cases hlt : j < h.cells.length
    · rw [List.getElem?_append_left hlt]
    · rw [List.getElem?_eq_none (by simp; omega), List.getElem?_eq_none (by omega)]

/-! ## Holders -/

/-- Every reference count is the number of times the address is held. -/
def Balanced (h : Heap α) (held : Multiset Nat) : Prop := ∀ id, h.count id = held.count id

namespace Balanced

variable {h : Heap α} {held : Multiset Nat}

theorem empty : Balanced ({} : Heap α) 0 := fun id ↦ by simp [count]

/-- What is held is there. -/
theorem live (hb : h.Balanced held) {id : Nat} (hid : id ∈ held) : ∃ c, h.live? id = some c := by
  rw [exists_live?_iff, hb id]
  exact (Multiset.count_pos.mpr hid).ne'

/-- An object that is gone is held nowhere. -/
theorem not_mem_of_count_eq_zero (hb : h.Balanced held) {id : Nat} (hzero : h.count id = 0) :
    id ∉ held := by
  rw [hb id] at hzero
  exact Multiset.count_eq_zero.mp hzero

/-- A new cell is held by whoever made it. -/
theorem new (hb : h.Balanced held) (a : α) : (h.new a).1.Balanced ((h.new a).2 ::ₘ held) := by
  intro j
  rw [count_new, Multiset.count_cons, hb j]
  split
  · next hj =>
      -- the address is past the end of the heap, so nobody holds it yet
      have hfresh : held.count j = 0 := by
        rw [← hb j, hj, count, Heap.new, List.getElem?_eq_none (Nat.le_refl _)]
        rfl
      rw [hfresh]
  · rw [Nat.add_zero]

theorem newAll (hb : h.Balanced held) (as : List α) :
    (h.newAll as).1.Balanced (((h.newAll as).2 : Multiset Nat) + held) := by
  induction as generalizing h held with
  | nil => simpa [Heap.newAll] using hb
  | cons a as ih =>
      have hrest := ih (hb.new a)
      rwa [Multiset.add_cons, ← Multiset.cons_add, Multiset.cons_coe] at hrest

theorem incr (hb : h.Balanced held) {id : Nat} (hid : id ∈ held) :
    ∃ h', h.incr id = some h' ∧ h'.Balanced (id ::ₘ held) := by
  obtain ⟨c, hc⟩ := hb.live hid
  refine ⟨_, by rw [Heap.incr, hc]; rfl, ?_⟩
  intro j
  rw [count_set hc, Multiset.count_cons, ← hb j]
  split
  · next hj => rw [hj, count_of_live? hc]
  · rfl

theorem decr {id : Nat} (hb : h.Balanced (id ::ₘ held)) :
    ∃ h', h.decr id = some h' ∧ h'.Balanced held := by
  obtain ⟨c, hc⟩ := hb.live (Multiset.mem_cons_self id held)
  refine ⟨_, by rw [Heap.decr, hc]; rfl, ?_⟩
  intro j
  have hj := hb j
  rw [Multiset.count_cons] at hj
  rw [count_set hc]
  split
  · next heq =>
      rw [if_pos heq, heq, count_of_live? hc] at hj
      dsimp only
      rw [hj, heq, Nat.add_sub_cancel]
  · next hne => rw [hj, if_neg hne, Nat.add_zero]

theorem decrAll {ids : List Nat} (hb : h.Balanced ((ids : Multiset Nat) + held)) :
    ∃ h', h.decrAll ids = some h' ∧ h'.Balanced held := by
  induction ids generalizing h with
  | nil => exact ⟨h, rfl, by simpa using hb⟩
  | cons id ids ih =>
      rw [← Multiset.cons_coe, Multiset.cons_add] at hb
      obtain ⟨h₁, hdecr, hb₁⟩ := hb.decr
      obtain ⟨h₂, hrest, hb₂⟩ := ih hb₁
      refine ⟨h₂, ?_, hb₂⟩
      rw [Heap.decrAll, List.foldlM_cons, hdecr]
      exact hrest

/-- Changing a value changes no count. -/
theorem modify (hb : h.Balanced held) {id : Nat} (hid : id ∈ held) (f : α → α) :
    ∃ h', h.modify id f = some h' ∧ h'.Balanced held := by
  obtain ⟨c, hc⟩ := hb.live hid
  refine ⟨_, by rw [Heap.modify, hc]; rfl, ?_⟩
  intro j
  rw [count_set hc, ← hb j]
  split
  · next hj => rw [hj, count_of_live? hc]
  · rfl

end Balanced

/-! ## What stays the same -/

section Keeps

variable {β : Type*} (g : α → β)

/-- The part `g` of a value, also when the cell is gone. -/
def shown (h : Heap α) (id : Nat) : Option β := h.cells[id]?.map fun c ↦ g c.val

/-- From `h` to `h'` that part of no value has changed. -/
def Keeps (h h' : Heap α) : Prop := ∀ id b, h.shown g id = some b → h'.shown g id = some b

variable {g} {h h' : Heap α}

theorem Keeps.refl (h : Heap α) : h.Keeps g h := fun _ _ hb ↦ hb

theorem Keeps.trans {h'' : Heap α} (hk : h.Keeps g h') (hk' : h'.Keeps g h'') : h.Keeps g h'' :=
  fun id b hb ↦ hk' id b (hk id b hb)

theorem shown_of_live? {id : Nat} {c : Cell α} (hc : h.live? id = some c) :
    h.shown g id = some (g c.val) := by
  rw [shown, (live?_eq_some.mp hc).1]
  rfl

/-- What is held can be read. -/
theorem Balanced.read_shown {held : Multiset Nat} (hb : h.Balanced held) {id : Nat} (hid : id ∈ held)
    {b : β} (hshown : h.shown g id = some b) : ∃ a, h.read id = some a ∧ g a = b := by
  obtain ⟨c, hc⟩ := hb.live hid
  refine ⟨c.val, by rw [Heap.read, hc]; rfl, ?_⟩
  rw [shown_of_live? hc] at hshown
  exact Option.some.inj hshown

theorem keeps_set {id : Nat} {c c' : Cell α} (hc : h.live? id = some c) (hg : g c'.val = g c.val) :
    h.Keeps g (h.set id c') := by
  have hlt : id < h.cells.length := (List.getElem?_eq_some_iff.mp (live?_eq_some.mp hc).1).1
  intro j b hb
  by_cases hj : j = id
  · subst hj
    rw [shown_of_live? hc, ← hg] at hb
    rw [shown, set, List.getElem?_set_self hlt]
    exact hb
  · rw [shown, set, List.getElem?_set_ne (Ne.symm hj)]
    exact hb

theorem keeps_incr {id : Nat} (hi : h.incr id = some h') : h.Keeps g h' := by
  obtain ⟨c, hc, rfl⟩ := Option.map_eq_some_iff.mp hi
  exact keeps_set hc rfl

theorem keeps_decr {id : Nat} (hd : h.decr id = some h') : h.Keeps g h' := by
  obtain ⟨c, hc, rfl⟩ := Option.map_eq_some_iff.mp hd
  exact keeps_set hc rfl

theorem keeps_decrAll {ids : List Nat} (hd : h.decrAll ids = some h') : h.Keeps g h' := by
  induction ids generalizing h with
  | nil =>
      cases hd
      exact .refl _
  | cons id ids ih =>
      obtain ⟨h₁, hd₁, hd₂⟩ := Option.bind_eq_some_iff.mp hd
      exact (keeps_decr hd₁).trans (ih hd₂)

theorem keeps_modify {id : Nat} {f : α → α} (hm : h.modify id f = some h')
    (hg : ∀ a, h.read id = some a → g (f a) = g a) : h.Keeps g h' := by
  obtain ⟨c, hc, rfl⟩ := Option.map_eq_some_iff.mp hm
  exact keeps_set hc (hg c.val (by rw [Heap.read, hc]; rfl))

theorem keeps_new (h : Heap α) (a : α) : h.Keeps g (h.new a).1 := by
  intro id b hb
  obtain ⟨c, hc, rfl⟩ := Option.map_eq_some_iff.mp hb
  rw [shown, new, List.getElem?_append_left (List.getElem?_eq_some_iff.mp hc).1, hc]
  rfl

theorem keeps_newAll (h : Heap α) (as : List α) : h.Keeps g (h.newAll as).1 := by
  induction as generalizing h with
  | nil => exact .refl h
  | cons a as ih => exact (keeps_new h a).trans (ih _)

/-- The new cells hold the values they were made of. -/
theorem shown_newAll (h : Heap α) (as : List α) :
    List.Forall₂ (fun id a ↦ (h.newAll as).1.shown g id = some (g a)) (h.newAll as).2 as := by
  induction as generalizing h with
  | nil => exact .nil
  | cons a as ih =>
      refine .cons (keeps_newAll (h.new a).1 as _ _ ?_) (ih _)
      simp [shown, new]

end Keeps

end Heap

end RefCount
