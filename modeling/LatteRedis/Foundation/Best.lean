import Mathlib.Data.List.Sort
import Mathlib.Data.Multiset.AddSub

/-!
# The best of what has been offered

Things are offered one after another, each with a score, and there is room for `n` of them.
They are kept in a list, in the order of their scores.  A new one is put in front of the first
that is not worse, and if there is one too many the worst goes.

`IsBest` says what that is for: what is kept are `n` of all that was offered, and nothing that
is not kept is better than something that is.  `offer` keeps it that way (`IsBest.offer`),
and how things are kept does not depend on anything but their scores (`map_offer`).
-/

namespace Best

variable {α β γ : Type*} [LinearOrder β] (score : α → β) (n : Nat)

/-- `l` holds `n` of the things in `s`, or all of them, and none of the others is better. -/
def IsBest (s : Multiset α) (l : List α) : Prop :=
  ∃ rest : Multiset α, s = l + rest ∧ l.length = min n s.card ∧
    ∀ x ∈ rest, ∀ y ∈ l, score x ≤ score y

/-- The list is in the order of the scores. -/
def Sorted (l : List α) : Prop := l.Pairwise fun a b ↦ score a ≤ score b

/-- The list with `a` in its place. -/
def place (a : α) (l : List α) : List α := l.orderedInsert (fun a b ↦ score a ≤ score b) a

/-- The list after `a` was offered. -/
def offer (l : List α) (a : α) : List α :=
  if n < (place score a l).length then (place score a l).tail else place score a l

variable {score n} {l : List α} {a : α}

@[simp] theorem length_place (a : α) (l : List α) : (place score a l).length = l.length + 1 :=
  List.orderedInsert_length _ l a

/-- What is placed stands behind all that is worse. -/
theorem place_eq (a : α) (l : List α) :
    place score a l =
      l.takeWhile (score · < score a) ++ a :: l.dropWhile (score · < score a) := by
  unfold place
  rw [List.orderedInsert_eq_take_drop]
  simp only [not_le]

theorem Sorted.place (h : Sorted score l) (a : α) : Sorted score (place score a l) := by
  have : Std.Total fun a b : α ↦ score a ≤ score b := ⟨fun a b ↦ le_total _ _⟩
  have : IsTrans α fun a b ↦ score a ≤ score b := ⟨fun _ _ _ ↦ le_trans⟩
  exact List.Pairwise.orderedInsert a l h

theorem Sorted.offer (h : Sorted score l) (a : α) : Sorted score (offer score n l a) := by
  unfold Best.offer
  split
  · exact List.Pairwise.tail (h.place a)
  · exact h.place a

theorem mem_of_mem_offer {x : α} (h : x ∈ offer score n l a) : x = a ∨ x ∈ l := by
  have hplace : x ∈ place score a l := by
    unfold offer at h
    split at h
    · exact List.mem_of_mem_tail h
    · exact h
  exact (List.mem_orderedInsert _).mp hplace

/-- There is room for `a`, or it is better than the worst. -/
def Enters (score : α → β) (n : Nat) (l : List α) (a : α) : Prop :=
  l.length < n ∨ ∃ b, l.head? = some b ∧ score b < score a

theorem offer_of_room (h : l.length < n) (a : α) :
    offer score n l a = l.takeWhile (score · < score a) ++ a :: l.dropWhile (score · < score a) := by
  rw [← place_eq]
  unfold offer
  rw [length_place, if_neg (by omega)]

theorem offer_of_full (h : l.length = n) (a : α) :
    offer score n l a =
      (l.takeWhile (score · < score a) ++ a :: l.dropWhile (score · < score a)).tail := by
  rw [← place_eq]
  unfold offer
  rw [length_place, if_pos (by omega)]

theorem offer_of_not_enters (hlen : l.length ≤ n) (h : ¬ Enters score n l a) :
    offer score n l a = l := by
  obtain ⟨hfull, hworst⟩ := not_or.mp h
  rw [offer_of_full (by omega)]
  cases l with
  | nil => rfl
  | cons b l =>
      have hb : ¬ score b < score a := fun hlt ↦ hworst ⟨b, rfl, hlt⟩
      simp [hb]

/-- Nothing but the scores is looked at. -/
theorem map_offer {score' : γ → β} {f : α → γ} (hf : ∀ a, score' (f a) = score a) (l : List α)
    (a : α) : (offer score n l a).map f = offer score' n (l.map f) (f a) := by
  have hplace : (place score a l).map f = place score' (f a) (l.map f) := by
    unfold place
    apply List.map_orderedInsert
    · intro b _
      rw [hf, hf]
    · intro b _
      rw [hf, hf]
  unfold offer
  rw [← hplace, List.length_map]
  split
  · rw [List.map_tail]
  · rfl

theorem enters_map {score' : γ → β} {f : α → γ} (hf : ∀ a, score' (f a) = score a) (l : List α)
    (a : α) : Enters score' n (l.map f) (f a) ↔ Enters score n l a := by
  unfold Enters
  rw [List.length_map, List.head?_map, hf]
  cases l with
  | nil => simp
  | cons b l => simp [hf]

theorem isBest_self (h : l.length ≤ n) : IsBest score n l l :=
  ⟨0, (Multiset.add_zero _).symm, (min_eq_right h).symm, by simp⟩

/-- The worst of the list with a new thing: it is the new thing itself, or the worst there
was. -/
theorem place_head (hl : Sorted score l) {x : α} {tail : List α} (h : place score a l = x :: tail)
    {rest : Multiset α} (hrest : ∀ x ∈ rest, ∀ y ∈ l, score x ≤ score y) :
    ∀ z ∈ x ::ₘ rest, ∀ y ∈ tail, score z ≤ score y := by
  have hsorted := hl.place a
  rw [h] at hsorted
  intro z hz y hy
  have hxy : score x ≤ score y := List.rel_of_pairwise_cons hsorted hy
  rcases Multiset.mem_cons.mp hz with rfl | hmem
  · exact hxy
  · cases l with
    | nil =>
        cases h
        simp at hy
    | cons b l =>
        unfold place at h
        rw [List.orderedInsert_cons] at h
        split at h
        · obtain ⟨-, rfl⟩ := List.cons.inj h
          exact hrest z hmem y hy
        · obtain ⟨rfl, -⟩ := List.cons.inj h
          exact (hrest z hmem b List.mem_cons_self).trans hxy

/-- **What is kept is the best.** -/
theorem IsBest.offer {s : Multiset α} (h : IsBest score n s l) (hl : Sorted score l) (a : α) :
    IsBest score n (a ::ₘ s) (Best.offer score n l a) := by
  obtain ⟨rest, hs, hlen, hrest⟩ := h
  have hcard : s.card = l.length + rest.card := by rw [hs, Multiset.card_add, Multiset.coe_card]
  have hperm : (place score a l : Multiset α) = a ::ₘ l :=
    Multiset.coe_eq_coe.mpr (List.perm_orderedInsert _ a l)
  unfold Best.offer
  rw [length_place]
  split
  · -- there is one too many
    cases hplace : place score a l with
    | nil => exact absurd (congrArg List.length hplace) (by simp)
    | cons x tail =>
        have htail : tail.length = l.length := by
          have := congrArg List.length hplace
          simpa using this.symm
        refine ⟨x ::ₘ rest, ?_, ?_, place_head hl hplace hrest⟩
        · rw [hs, ← Multiset.cons_add, ← hperm, hplace, List.tail_cons, Multiset.add_cons,
            ← Multiset.cons_coe, Multiset.cons_add]
        · rw [List.tail_cons, htail, Multiset.card_cons]
          omega
  · -- all there was is still there
    have hall : rest = 0 := Multiset.card_eq_zero.mp (by omega)
    subst hall
    refine ⟨0, ?_, ?_, by simp⟩
    · rw [hs, Multiset.add_zero, Multiset.add_zero, hperm]
    · rw [length_place, Multiset.card_cons]
      omega

/-! ## One after another -/

theorem Sorted.offers (h : Sorted score l) (as : List α) :
    Sorted score (as.foldl (Best.offer score n) l) := by
  induction as generalizing l with
  | nil => exact h
  | cons a as ih => exact ih (h.offer a)

theorem IsBest.offers {s : Multiset α} (h : IsBest score n s l) (hl : Sorted score l) (as : List α) :
    IsBest score n (s + as) (as.foldl (Best.offer score n) l) := by
  induction as generalizing l s with
  | nil => simpa using h
  | cons a as ih =>
      have hrest := ih (h.offer hl a) (hl.offer a)
      rwa [Multiset.cons_add, ← Multiset.add_cons, Multiset.cons_coe] at hrest

theorem map_offers {score' : γ → β} {f : α → γ} (hf : ∀ a, score' (f a) = score a) (l as : List α) :
    (as.foldl (offer score n) l).map f = (as.map f).foldl (offer score' n) (l.map f) := by
  induction as generalizing l with
  | nil => rfl
  | cons a as ih => rw [List.foldl_cons, ih, map_offer hf, List.map_cons, List.foldl_cons]

/-- What is kept was there or was offered. -/
theorem mem_of_mem_offers {as : List α} {x : α} (h : x ∈ as.foldl (offer score n) l) :
    x ∈ l ∨ x ∈ as := by
  induction as generalizing l with
  | nil => exact .inl h
  | cons a as ih =>
      rcases ih h with hx | hx
      · rcases mem_of_mem_offer hx with rfl | hx
        · exact .inr List.mem_cons_self
        · exact .inl hx
      · exact .inr (List.mem_cons_of_mem a hx)

end Best
