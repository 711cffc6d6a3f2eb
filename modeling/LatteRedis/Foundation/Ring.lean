import Mathlib.Data.Int.ModEq
import Mathlib.Data.List.DropRight
import Mathlib.Data.List.Rotate

/-!
# Rings of slots

A list of slots that is written to in turn, and from the front again when the end is
reached.  `Shows` says which slot has which of the values that were written: the latest
ones are there, each in the slot of its number modulo the number of slots, and the slots
that have never been written to are as they were.

Counted backwards from the slot that is written to next, the slots have the values from
the latest one on (`Shows.recent`).  In whatever order, the slots are the latest values
(`Shows.perm`).
-/

namespace Ring

universe u

variable {α : Type u}

/-- The slots after `xs` was written to slots that all held `z`, and the slot that is next. -/
structure Shows (z : α) (xs slots : List α) (idx : Nat) : Prop where
  idx_eq : idx = xs.length % slots.length
  latest : ∀ p < xs.length, xs.length ≤ p + slots.length →
    slots[p % slots.length]? = xs[p]?
  untouched : ∀ j < slots.length, xs.length ≤ j → slots[j]? = some z

theorem Shows.start (z : α) (n : Nat) : Shows z [] (List.replicate n z) 0 where
  idx_eq := (Nat.zero_mod _).symm
  latest p hp := absurd hp (Nat.not_lt_zero p)
  untouched j hj _ := by
    rw [List.length_replicate] at hj
    rw [List.getElem?_replicate, if_pos hj]

variable {z : α} {xs slots : List α} {idx : Nat}

theorem Shows.idx_lt (h : Shows z xs slots idx) (hslots : slots ≠ []) : idx < slots.length := by
  rw [h.idx_eq]
  exact Nat.mod_lt _ (List.length_pos_iff.mpr hslots)

/-- Positions that are less than the number of slots apart have different slots. -/
theorem mod_ne_mod {n p q : Nat} (hlt : p < q) (hnear : q < p + n) : p % n ≠ q % n := by
  intro h
  have hdvd : n ∣ q - p := (Nat.modEq_iff_dvd' hlt.le).mp h
  have hle := Nat.le_of_dvd (Nat.sub_pos_of_lt hlt) hdvd
  omega

/-- The next value. -/
theorem Shows.push (h : Shows z xs slots idx) (hslots : slots ≠ []) (x : α) :
    Shows z (xs ++ [x]) (slots.set idx x) ((idx + 1) % slots.length) := by
  have hidx := h.idx_lt hslots
  refine ⟨?_, ?_, ?_⟩
  · rw [List.length_set, List.length_append, List.length_singleton, h.idx_eq, Nat.mod_add_mod]
  · intro p hp hnear
    rw [List.length_append, List.length_singleton] at hp hnear
    rw [List.length_set] at hnear ⊢
    rcases Nat.lt_or_eq_of_le (Nat.le_of_lt_succ hp) with hp | rfl
    · rw [List.getElem?_append_left hp, List.getElem?_set_ne, h.latest p hp (by omega)]
      rw [h.idx_eq]
      exact (mod_ne_mod hp (by omega)).symm
    · rw [← h.idx_eq, List.getElem?_set_self hidx, List.getElem?_concat_length]
  · intro j hj hlen
    rw [List.length_set] at hj
    rw [List.length_append, List.length_singleton] at hlen
    have hne : idx ≠ j := by
      have hmod := Nat.mod_le xs.length slots.length
      rw [← h.idx_eq] at hmod
      omega
    rw [List.getElem?_set_ne hne]
    exact h.untouched j hj (by omega)

/-- The slot `i + 1` places in front of slot `idx`. -/
def back (n idx i : Nat) : Nat := (((idx : Int) - 1 - i) % n).toNat

theorem back_eq {n m i : Nat} (hi : i < m) : back n (m % n) i = (m - 1 - i) % n := by
  have hcast : ((m - 1 - i : Nat) : Int) = (m : Int) - 1 - i := by omega
  have hmod : ((m % n : Nat) : Int) - 1 - i ≡ (m : Int) - 1 - i [ZMOD n] := by
    rw [Int.natCast_mod]
    exact ((Int.mod_modEq _ _).sub_right 1).sub_right i
  unfold back
  rw [hmod.eq, ← hcast, ← Int.natCast_mod, Int.toNat_natCast]

/-- Backwards from the next slot the values stand in the order of their age. -/
theorem Shows.recent (h : Shows z xs slots idx) {i : Nat} (hi : i < min xs.length slots.length) :
    slots[back slots.length idx i]? = xs.reverse[i]? := by
  obtain ⟨hlen, hslots⟩ := Nat.lt_min.mp hi
  rw [h.idx_eq, back_eq hlen, h.latest _ (by omega) (by omega), List.getElem?_reverse hlen]

/-- A slot that none of them is in is as it was. -/
theorem Shows.rest (h : Shows z xs slots idx) {j : Nat} (hj : j < slots.length)
    (hother : ∀ i < min xs.length slots.length, back slots.length idx i ≠ j) :
    slots[j]? = some z := by
  refine h.untouched j hj (Nat.le_of_not_lt fun hlt ↦ ?_)
  -- the last value that was written to slot `j` has been overwritten by none
  have hi : (xs.length - 1 - j) % slots.length < min xs.length slots.length := by
    refine Nat.lt_min.mpr ⟨?_, Nat.mod_lt _ (Nat.zero_lt_of_lt hj)⟩
    have hle := Nat.mod_le (xs.length - 1 - j) slots.length
    omega
  refine hother _ hi ?_
  rw [h.idx_eq, back_eq (Nat.lt_min.mp hi).1]
  have hdiv := Nat.div_add_mod (xs.length - 1 - j) slots.length
  have hpos : xs.length - 1 - (xs.length - 1 - j) % slots.length =
      j + slots.length * ((xs.length - 1 - j) / slots.length) := by omega
  rw [hpos, Nat.add_mul_mod_self_left, Nat.mod_eq_of_lt hj]

/-- With fewer values than slots nothing has been overwritten. -/
theorem Shows.eq_append (h : Shows z xs slots idx) (hlen : xs.length ≤ slots.length) :
    slots = xs ++ List.replicate (slots.length - xs.length) z := by
  apply List.ext_getElem?
  intro j
  rcases Nat.lt_or_ge j xs.length with hj | hj
  · have hslot := h.latest j hj (by omega)
    rw [Nat.mod_eq_of_lt (Nat.lt_of_lt_of_le hj hlen)] at hslot
    rw [hslot, List.getElem?_append_left hj]
  · rw [List.getElem?_append_right hj, List.getElem?_replicate]
    split
    · next hlt => exact h.untouched j (by omega) hj
    · next hge => exact List.getElem?_eq_none (by omega)

/-- With more of them the slots are the latest values, from the next slot on. -/
theorem Shows.rotate_eq (h : Shows z xs slots idx) (hlen : slots.length ≤ xs.length) :
    slots.rotate xs.length = xs.rtake slots.length := by
  apply List.ext_getElem?
  intro j
  rcases Nat.lt_or_ge j slots.length with hj | hj
  · have hslot := h.latest (xs.length - slots.length + j) (by omega) (by omega)
    rw [show xs.length - slots.length + j = j + xs.length - slots.length by omega,
      ← Nat.mod_eq_sub_mod (by omega)] at hslot
    rw [List.getElem?_rotate hj, hslot, List.rtake, List.getElem?_drop]
    congr 1
    omega
  · rw [List.getElem?_eq_none (by rw [List.length_rotate]; exact hj), List.rtake,
      List.getElem?_eq_none (by rw [List.length_drop]; omega)]

/-- The slots are the latest values, and as many of the first ones as have not been written to. -/
theorem Shows.perm (h : Shows z xs slots idx) :
    slots.Perm (xs.rtake slots.length ++ List.replicate (slots.length - xs.length) z) := by
  rcases Nat.le_total xs.length slots.length with hlen | hlen
  · rw [List.rtake, Nat.sub_eq_zero_of_le hlen, List.drop_zero, ← h.eq_append hlen]
  · rw [Nat.sub_eq_zero_of_le hlen, List.replicate_zero, List.append_nil, ← h.rotate_eq hlen]
    exact (List.rotate_perm slots xs.length).symm

end Ring
