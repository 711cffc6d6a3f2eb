import Mathlib.Algebra.BigOperators.Intervals
import Mathlib.Algebra.Ring.Parity
import Mathlib.NumberTheory.Padics.PadicVal.Basic

/-!
# Fenwick trees

A Fenwick tree over `n` cells keeps, at node `i` of `1, …, n`, the sum of the cells
`i - lowBit i, …, i - 1`, where `lowBit i` is the lowest bit that is set in `i`.  Adding
to one cell means adding to every node above it: `a`, `a + lowBit a`, and so on, as far as
there are nodes.  Summing the cells below `p` means adding up the nodes `p`,
`p - lowBit p`, and so on, down to zero.

The whole of the argument is one fact about powers of two, `covers_next_iff`: among the
nodes above `a`, those that cover cell `a - 1` are `a` itself and the ones that cover the
next node's cell.  Everything else is by induction along the way up or the way down.
-/

namespace Fenwick

/-! ## The lowest set bit -/

/-- The lowest bit that is set in a number. -/
def lowBit (n : Nat) : Nat := 2 ^ padicValNat 2 n

/-- A positive number is an odd multiple of its lowest bit. -/
theorem exists_eq_odd_mul {n : Nat} (hn : 0 < n) :
    ∃ k m, n = 2 ^ k * (2 * m + 1) ∧ lowBit n = 2 ^ k := by
  obtain ⟨k, r, ⟨m, hm⟩, hk⟩ := Nat.exists_eq_two_pow_mul_odd hn.ne'
  refine ⟨k, m, by rw [hk, hm], ?_⟩
  have hodd : ¬2 ∣ 2 * m + 1 := by omega
  rw [lowBit, hk, hm, padicValNat.mul (by positivity) (by omega), padicValNat.prime_pow,
    padicValNat.eq_zero_of_not_dvd hodd, Nat.add_zero]

theorem lowBit_pos (n : Nat) : 0 < lowBit n := by
  unfold lowBit
  positivity

theorem lowBit_le {n : Nat} (hn : 0 < n) : lowBit n ≤ n := by
  obtain ⟨k, m, rfl, hlow⟩ := exists_eq_odd_mul hn
  rw [hlow]
  exact Nat.le_mul_of_pos_right _ (by omega)

/-- A machine word computes the lowest bit as `n & -n`. -/
theorem toNat_and_neg {w n : Nat} (hn : 0 < n) (hw : n < 2 ^ w) :
    (BitVec.ofNat w n &&& -BitVec.ofNat w n).toNat = lowBit n := by
  obtain ⟨k, m, hk, hlow⟩ := exists_eq_odd_mul hn
  have hpow : 2 ^ k ≤ n := hlow ▸ lowBit_le hn
  have hkw : k < w := (Nat.pow_lt_pow_iff_right (by omega)).mp (hpow.trans_lt hw)
  have hsplit : 2 ^ w = 2 ^ k * 2 ^ (w - k) := by
    rw [← pow_add]
    congr 1
    omega
  have hodd : 2 * m + 1 < 2 ^ (w - k) := by
    rw [hk, hsplit] at hw
    exact Nat.lt_of_mul_lt_mul_left hw
  have hneg : 2 ^ w - n = 2 ^ k * (2 ^ (w - k) - (2 * m + 1)) := by
    rw [hk, hsplit, Nat.mul_sub]
  rw [BitVec.toNat_and, BitVec.toNat_neg, BitVec.toNat_ofNat, Nat.mod_eq_of_lt hw,
    Nat.mod_eq_of_lt (by omega : 2 ^ w - n < 2 ^ w), hneg, hlow, hk]
  apply Nat.eq_of_testBit_eq
  intro j
  rw [Nat.testBit_and, Nat.testBit_two_pow_mul, Nat.testBit_two_pow_mul,
    Nat.testBit_two_pow_sub_succ (by omega), Nat.testBit_two_pow]
  -- above its lowest bit, an odd number and its complement share no bit
  rcases Nat.lt_trichotomy j k with hj | rfl | hj
  · simp [hj.not_ge, hj.ne']
  · simp [hkw]
  · obtain ⟨t, ht⟩ : ∃ t, j - k = t + 1 := ⟨j - k - 1, by omega⟩
    have hbits : (2 * m + 1).testBit (t + 1) = (2 * m).testBit (t + 1) := by
      rw [Nat.testBit_succ, Nat.testBit_succ]
      congr 1
      omega
    rw [ht, hbits]
    cases (2 * m).testBit (t + 1) <;> simp [hj.ne]

/-- Between two multiples of a number lies that number. -/
theorem add_le_of_dvd {d a b : Nat} (ha : d ∣ a) (hb : d ∣ b) (h : a < b) : a + d ≤ b := by
  have hdvd := Nat.dvd_sub hb ha
  have hle := Nat.le_of_dvd (by omega) hdvd
  omega

/-- **The step up.**  A node other than `a` covers the cell of `a` exactly if it covers
the cell of the node above `a`. -/
theorem covers_next_iff {a i : Nat} (ha : 0 < a) (hi : 0 < i) (hne : i ≠ a) :
    (i - lowBit i < a ∧ a ≤ i) ↔ (i - lowBit i < a + lowBit a ∧ a + lowBit a ≤ i) := by
  obtain ⟨k, m, hik, hlowi⟩ := exists_eq_odd_mul hi
  obtain ⟨j, n, haj, hlowa⟩ := exists_eq_odd_mul ha
  -- the left end of the range of `i` is a multiple of twice its lowest bit
  have hleft : i - lowBit i = 2 ^ (k + 1) * m := by
    rw [hlowi, hik, Nat.mul_add, Nat.mul_one, Nat.add_sub_cancel, pow_succ]
    ring
  have hidvd : ¬2 ^ (k + 1) ∣ i := by
    rw [hik, pow_succ, Nat.mul_dvd_mul_iff_left (by positivity)]
    omega
  have hadvd : ¬2 ^ (j + 1) ∣ a := by
    rw [haj, pow_succ, Nat.mul_dvd_mul_iff_left (by positivity)]
    omega
  have hja : 2 ^ j ∣ a := ⟨_, haj⟩
  have hki : 2 ^ k ∣ i := ⟨_, hik⟩
  have hsum : i = 2 ^ (k + 1) * m + 2 ^ k := by
    have hle := lowBit_le hi
    omega
  have hnext : 2 ^ (j + 1) ∣ a + 2 ^ j := by
    refine ⟨n + 1, ?_⟩
    rw [haj, pow_succ]
    ring
  rw [hleft, hlowa]
  constructor
  · rintro ⟨hlt, hle⟩
    -- `a` lies strictly inside the range, so its lowest bit is below that of `i`
    have hjk : j < k := by
      by_contra hkj
      have hka : 2 ^ k ∣ a := (pow_dvd_pow 2 (by omega)).trans hja
      have hm : 2 ^ k ∣ 2 ^ (k + 1) * m := (pow_dvd_pow 2 (by omega)).trans ⟨m, rfl⟩
      have hstep := add_le_of_dvd hm hka hlt
      omega
    have hstep := add_le_of_dvd hja ((pow_dvd_pow 2 hjk.le).trans hki) (by omega)
    omega
  · rintro ⟨hlt, hle⟩
    have hpos : 0 < 2 ^ j := by positivity
    refine ⟨?_, by omega⟩
    by_contra hge
    rcases Nat.lt_or_ge k j with hkj | hjk
    · -- the next node is a multiple of `2 ^ (k + 1)`, and `i` is not
      have hdvd : 2 ^ (k + 1) ∣ a + 2 ^ j := (pow_dvd_pow 2 (by omega)).trans hnext
      have hstep := add_le_of_dvd (d := 2 ^ (k + 1)) ⟨m, rfl⟩ hdvd hlt
      have hpow : 2 ^ (k + 1) = 2 ^ k + 2 ^ k := by ring
      have hposk : 0 < 2 ^ k := by positivity
      omega
    · -- `a` is the left end itself, which is too round a number
      have hdvd : 2 ^ j ∣ 2 ^ (k + 1) * m := (pow_dvd_pow 2 (by omega)).trans ⟨m, rfl⟩
      have heq : a = 2 ^ (k + 1) * m := by
        by_contra hane
        have hstep := add_le_of_dvd hja hdvd (by omega)
        omega
      exact hadvd (heq ▸ (pow_dvd_pow 2 (by omega)).trans ⟨m, rfl⟩)

/-! ## The way up -/

/-- The nodes `i`, `i + lowBit i`, … as far as they are at most `n`. -/
def ancestors (n i : Nat) : List Nat :=
  if i ≤ n then i :: ancestors n (i + lowBit i) else []
termination_by n + 1 - i
decreasing_by
  have := lowBit_pos i
  omega

theorem ancestors_of_le {n i : Nat} (h : i ≤ n) :
    ancestors n i = i :: ancestors n (i + lowBit i) := by
  rw [ancestors, if_pos h]

theorem ancestors_of_lt {n i : Nat} (h : n < i) : ancestors n i = [] := by
  rw [ancestors, if_neg (by omega)]

/-- The nodes above `a` are those that cover its cell. -/
theorem mem_ancestors {n a i : Nat} (ha : 0 < a) :
    i ∈ ancestors n a ↔ (i - lowBit i < a ∧ a ≤ i) ∧ i ≤ n := by
  induction a using ancestors.induct n with
  | case1 a hle ih =>
      have hlow := lowBit_pos a
      rw [ancestors_of_le hle, List.mem_cons, ih (by omega)]
      by_cases hne : i = a
      · subst hne
        simp only [true_or, true_iff]
        omega
      · rcases Nat.eq_zero_or_pos i with rfl | hi
        · omega
        · rw [covers_next_iff ha hi hne]
          simp only [hne, false_or]
  | case2 a hlt =>
      rw [ancestors_of_lt (by omega)]
      simp only [List.not_mem_nil, false_iff]
      omega

/-! ## Trees -/

variable {M : Type*} [AddCommGroup M]

/-- The table holds, at every node, the sum of the cells it covers. -/
def IsTree (n : Nat) (cells table : Nat → M) : Prop :=
  ∀ i, 0 < i → i ≤ n → table i = ∑ j ∈ Finset.Ico (i - lowBit i) i, cells j

/-- Adding to a cell is adding to every node above it. -/
theorem IsTree.add {n : Nat} {cells table : Nat → M} (h : IsTree n cells table) (p : Nat) (x : M) :
    IsTree n (cells + Pi.single p x)
      fun i ↦ table i + if i ∈ ancestors n (p + 1) then x else 0 := by
  intro i hi hn
  simp only [Pi.add_apply, Finset.sum_add_distrib, h i hi hn, Finset.sum_pi_single',
    mem_ancestors (Nat.succ_pos p), Finset.mem_Ico]
  congr 1
  refine if_congr ?_ rfl rfl
  omega

/-! ## The way down -/

/-- The sum of the nodes `p`, `p - lowBit p`, … down to zero. -/
def query (table : Nat → M) (p : Nat) : M :=
  if 0 < p then table p + query table (p - lowBit p) else 0
termination_by p
decreasing_by
  have := lowBit_pos p
  omega

/-- A query adds up the cells below it. -/
theorem IsTree.query_eq {n : Nat} {cells table : Nat → M} (h : IsTree n cells table) {p : Nat}
    (hp : p ≤ n) : query table p = ∑ j ∈ Finset.range p, cells j := by
  induction p using query.induct with
  | case1 p hpos ih =>
      have hle := lowBit_le hpos
      rw [query, if_pos hpos, ih (by omega), h p hpos hp, add_comm]
      exact Finset.sum_range_add_sum_Ico cells (by omega)
  | case2 p hzero =>
      obtain rfl : p = 0 := by omega
      rw [query, if_neg hzero, Finset.range_zero, Finset.sum_empty]

end Fenwick
