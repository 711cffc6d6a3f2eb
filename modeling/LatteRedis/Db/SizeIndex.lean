import LatteRedis.Db.KvStore
import LatteRedis.Foundation.Fenwick

/-!
# The totals of a key-value store (`db.c`)

A `kv_store_t` of any number of dictionaries keeps four totals beside them, and
`cumulative_key_count_add` is where they change.  Three of them are right after every
sequence of additions and deletions: `key_count`, `allocated_dicts` and
`dict_size_index`, a Fenwick tree of the sizes.  The fourth, `non_empty_dicts`, is
inferred from the size after the operation, and a deletion that leaves one key looks
like an addition to an empty dictionary.

`Accurate` says what the three totals count, `callCases` what a call does to the sizes,
and `run_ok` puts the two together along a run.
-/

namespace LatteRedis

open ByteString

namespace KvStore

variable {bits : Nat} {V : Type}

/-- `dict_size` of the dictionary at an index; zero where none was created. -/
def dictSize (kvs : KvStore bits V) (i : Nat) : Nat :=
  if h : i < 2 ^ bits then ((kvs.dicts ⟨i, h⟩).map fun d ↦ d.keys.length).getD 0 else 0

/-- The number of dictionaries that were created. -/
def createdDicts (kvs : KvStore bits V) : Nat :=
  (Finset.univ.filter fun i ↦ (kvs.dicts i).isSome = true).card

/-- The number of dictionaries whose size is greater than zero. -/
def inhabitedDicts (kvs : KvStore bits V) : Nat :=
  ((Finset.range (2 ^ bits)).filter fun i ↦ 0 < kvs.dictSize i).card

/-- The indices the loop of `cumulative_key_count_add` touches. -/
def sizeIndexVisits (numDicts : Nat) : Nat → Nat → List Nat
  | 0, _ => []
  | fuel + 1, idx =>
      if idx ≤ numDicts then idx :: sizeIndexVisits numDicts fuel (idx + lowBit idx) else []

/-- The sum of the entries along `p`, `p - lowbit(p)`, … -/
def sizeIndexQuery (index : List Nat) : Nat → Nat → Nat
  | 0, _ => 0
  | fuel + 1, p => if p = 0 then 0 else index.getD p 0 + sizeIndexQuery index fuel (p - lowBit p)

/-- A call that changes the sizes. -/
inductive Call (bits : Nat)
  | dictAddRaw (didx : Fin (2 ^ bits)) (key : Bytes)
  | dictDeleteKey (didx : Fin (2 ^ bits)) (key : Bytes)

section Runs

variable [Inhabited V]

/-- One call, and the store it leaves. -/
def call (kvs : KvStore bits V) : Call bits → Except Fault (KvStore bits V)
  | .dictAddRaw didx key => Prod.snd <$> kvs.dictAddRaw didx key
  | .dictDeleteKey didx key => Prod.snd <$> kvs.dictDeleteKey didx key

/-- A sequence of calls on a store that was just created. -/
def run (V : Type) [Inhabited V] (onDemand : Bool) (calls : List (Call bits)) :
    Except Fault (KvStore bits V) :=
  calls.foldlM call (create bits V onDemand)

end Runs

/-! ## The loop over the index -/

theorem lowBit_eq {i : Nat} (hpos : 0 < i) (hi : i < 2 ^ 32) : lowBit i = Fenwick.lowBit i :=
  Fenwick.toNat_and_neg hpos hi

/-- Enough fuel for the way up: it is not what ends the loop. -/
theorem sizeIndexVisits_eq {numDicts : Nat} (hn : numDicts < 2 ^ 32) {fuel idx : Nat}
    (hpos : 0 < idx) (hfuel : numDicts + 1 ≤ fuel + idx) :
    sizeIndexVisits numDicts fuel idx = Fenwick.ancestors numDicts idx := by
  induction fuel generalizing idx with
  | zero => rw [sizeIndexVisits, Fenwick.ancestors_of_lt (by omega)]
  | succ fuel ih =>
      unfold sizeIndexVisits
      split
      · next hle =>
          have hlow := Fenwick.lowBit_pos idx
          rw [lowBit_eq hpos (by omega), ih (by omega) (by omega), Fenwick.ancestors_of_le hle]
      · next hgt => rw [Fenwick.ancestors_of_lt (by omega)]

/-- One iteration of the loop of `cumulative_key_count_add`. -/
def sizeIndexTouch (delta : Int) (index : List Nat) (idx : Nat) : Except Fault (List Nat) :=
  if delta < 0 ∧ (index.getD idx 0 : Int) < delta.natAbs then
    .error (.assertion "kvs->dict_size_index[idx] is less than labs(delta)")
  else .ok (index.set idx ((index.getD idx 0 : Int) + delta).toNat)

/-- The loop reads and writes the entries it visits, in this order. -/
theorem sizeIndexLoop_eq_foldlM (numDicts : Nat) (delta : Int) (fuel idx : Nat) (index : List Nat) :
    sizeIndexLoop numDicts delta fuel idx index =
      (sizeIndexVisits numDicts fuel idx).foldlM (sizeIndexTouch delta) index := by
  induction fuel generalizing idx index with
  | zero => rfl
  | succ fuel ih =>
      unfold sizeIndexLoop sizeIndexVisits
      split
      · rw [List.foldlM_cons]
        unfold sizeIndexTouch
        split
        · rfl
        · exact ih ..
      · rfl

/-- What one iteration does to the index. -/
theorem getD_set_add {index : List Nat} {idx : Nat} (h : idx < index.length) {delta : Int}
    (hle : 0 ≤ (index.getD idx 0 : Int) + delta) (i : Nat) :
    ((index.set idx ((index.getD idx 0 : Int) + delta).toNat).getD i 0 : Int) =
      index.getD i 0 + if i = idx then delta else 0 := by
  by_cases hi : i = idx
  · subst hi
    rw [if_pos rfl, List.getD_eq_getElem?_getD, List.getElem?_set_self h, Option.getD_some]
    exact Int.toNat_of_nonneg hle
  · rw [if_neg hi, Int.add_zero, List.getD_eq_getElem?_getD, List.getElem?_set_ne (Ne.symm hi),
      List.getD_eq_getElem?_getD]

/-- The loop adds `delta` at every index it touches, and nowhere else. -/
theorem sizeIndexLoop_ok {numDicts : Nat} (hn : numDicts < 2 ^ 32) {delta : Int} (fuel : Nat)
    {idx : Nat} (hpos : 0 < idx) (hfuel : numDicts + 1 ≤ fuel + idx) {index : List Nat}
    (hlen : index.length = numDicts + 1)
    (hle : ∀ i ∈ Fenwick.ancestors numDicts idx, 0 ≤ (index.getD i 0 : Int) + delta) :
    ∃ index', sizeIndexLoop numDicts delta fuel idx index = .ok index' ∧
      index'.length = numDicts + 1 ∧ ∀ i, (index'.getD i 0 : Int) =
        index.getD i 0 + if i ∈ Fenwick.ancestors numDicts idx then delta else 0 := by
  induction fuel generalizing idx index with
  | zero =>
      refine ⟨index, rfl, hlen, ?_⟩
      intro i
      rw [Fenwick.ancestors_of_lt (by omega)]
      simp
  | succ fuel ih =>
      unfold sizeIndexLoop
      split
      · next hidx =>
          have hlow := Fenwick.lowBit_pos idx
          have hnext := Fenwick.ancestors_of_le hidx
          have hhere := hle idx (by rw [hnext]; exact List.mem_cons_self)
          -- the nodes further up are larger, so the entry written here is not touched again
          have habove : ∀ i ∈ Fenwick.ancestors numDicts (idx + Fenwick.lowBit idx), idx ≠ i := by
            intro i hi
            have := ((Fenwick.mem_ancestors (by omega)).mp hi).1.2
            omega
          have hset := getD_set_add (by omega) hhere
          rw [if_neg (by omega), lowBit_eq hpos (by omega)]
          obtain ⟨index', hok, hlen', hval⟩ := @ih (idx + Fenwick.lowBit idx) (by omega) (by omega)
            (index.set idx ((index.getD idx 0 : Int) + delta).toNat)
            (by rw [List.length_set, hlen]) fun i hi ↦ by
              rw [hset, if_neg (habove i hi).symm, Int.add_zero]
              exact hle i (by rw [hnext]; exact List.mem_cons_of_mem _ hi)
          refine ⟨index', hok, hlen', ?_⟩
          intro i
          rw [hval, hset, hnext]
          by_cases hi : i = idx
          · subst hi
            rw [if_pos rfl, if_neg fun h ↦ habove _ h rfl, if_pos List.mem_cons_self, Int.add_zero]
          · rw [if_neg hi, Int.add_zero]
            simp only [List.mem_cons, hi, false_or]
      · next hgt =>
          refine ⟨index, rfl, hlen, ?_⟩
          intro i
          rw [Fenwick.ancestors_of_lt (by omega)]
          simp

/-- The entries along the way down are a query of the tree. -/
theorem sizeIndexQuery_eq {index : List Nat} {fuel p : Nat} (hfuel : p ≤ fuel) (hp : p < 2 ^ 32) :
    (sizeIndexQuery index fuel p : Int) = Fenwick.query (fun i ↦ (index.getD i 0 : Int)) p := by
  induction fuel generalizing p with
  | zero =>
      rw [Fenwick.query, if_neg (by omega)]
      rfl
  | succ fuel ih =>
      unfold sizeIndexQuery
      rw [Fenwick.query]
      by_cases hzero : p = 0
      · rw [if_pos hzero, if_neg (by omega)]
        rfl
      · have hlow := Fenwick.lowBit_pos p
        rw [if_neg hzero, if_pos (by omega), lowBit_eq (by omega) hp, Nat.cast_add,
          ih (by omega) (by omega)]

/-! ## What the totals count -/

/-- `key_count` and `dict_size_index` are those of dictionaries of these sizes. -/
structure Indexes (kvs : KvStore bits V) (sizes : Nat → Nat) : Prop where
  keyCount : (kvs.keyCount : Int) = ∑ i ∈ Finset.range (2 ^ bits), (sizes i : Int)
  length : 1 < 2 ^ bits → kvs.dictSizeIndex.length = 2 ^ bits + 1
  tree : 1 < 2 ^ bits → Fenwick.IsTree (2 ^ bits) (fun i ↦ (sizes i : Int))
    fun i ↦ (kvs.dictSizeIndex.getD i 0 : Int)

/-- The three totals that are right in every run. -/
structure Accurate (kvs : KvStore bits V) : Prop where
  indexes : kvs.Indexes kvs.dictSize
  allocated : kvs.allocatedDicts = kvs.createdDicts

/-- How much `cumulative_key_count_add` adds to `non_empty_dicts`. -/
def nonEmptyDelta (dsize : Nat) : Int := if dsize = 1 then 1 else if dsize = 0 then -1 else 0

/-- After an addition the adjustment is right. -/
theorem nonEmptyDelta_grow (n : Nat) :
    nonEmptyDelta (n + 1) = (if 0 < n + 1 then 1 else 0) - if 0 < n then 1 else 0 := by
  cases n with
  | zero => rfl
  | succ n => simp [nonEmptyDelta]

/-- After a deletion it is one too many if one key is left. -/
theorem nonEmptyDelta_shrink {n m : Nat} (h : n + 1 = m) :
    nonEmptyDelta n = ((if 0 < n then 1 else 0) - if 0 < m then 1 else 0) +
      if m = 2 then 1 else 0 := by
  subst h
  match n with
  | 0 => rfl
  | 1 => rfl
  | n + 2 => simp [nonEmptyDelta]

theorem dictSize_of_lt (kvs : KvStore bits V) (didx : Fin (2 ^ bits)) :
    kvs.dictSize didx = ((kvs.dicts didx).map fun d ↦ d.keys.length).getD 0 := by
  rw [dictSize, dif_pos didx.isLt]

theorem dictSize_of_some {kvs : KvStore bits V} {didx : Fin (2 ^ bits)} {d : Dict V}
    (h : kvs.dicts didx = some d) : kvs.dictSize didx = d.keys.length := by
  rw [dictSize_of_lt, h]
  rfl

theorem dictSize_setDict (kvs : KvStore bits V) (didx : Fin (2 ^ bits)) (d : Dict V) :
    (kvs.setDict didx d).dictSize = Function.update kvs.dictSize didx d.keys.length := by
  funext i
  by_cases hi : i = didx
  · subst hi
    rw [Function.update_self]
    exact dictSize_of_some (Function.update_self ..)
  · rw [Function.update_of_ne hi]
    unfold dictSize
    split
    · next hlt =>
        have hne : (⟨i, hlt⟩ : Fin (2 ^ bits)) ≠ didx := fun h ↦ hi (congrArg Fin.val h)
        simp only [setDict, Function.update_of_ne hne]
    · rfl

/-- What a sum over a family changes by when one member does. -/
theorem sum_update {ι α : Type} [DecidableEq ι] {s : Finset ι} {p : ι} (hp : p ∈ s) (f : ι → α)
    (g : α → Int) (v : α) :
    ∑ i ∈ s, g (Function.update f p v i) = ∑ i ∈ s, g (f i) + (g v - g (f p)) := by
  have hcomp : ∀ i, g (Function.update f p v i) = Function.update (fun i ↦ g (f i)) p (g v) i :=
    fun i ↦ congrFun (Function.comp_update g f p v) i
  rw [Finset.sum_congr rfl fun i _ ↦ hcomp i, Finset.sum_update_of_mem hp,
    ← Finset.add_sum_erase s (fun i ↦ g (f i)) hp, Finset.sdiff_singleton_eq_erase]
  omega

section Totals

variable {kvs : KvStore bits V} {sizes : Nat → Nat} (h : kvs.Indexes sizes) (didx : Fin (2 ^ bits))
  {delta : Int} {size : Nat}
include h

/-- All keys are at least those of one dictionary. -/
theorem Indexes.size_le_keyCount : (sizes didx : Int) ≤ kvs.keyCount := by
  rw [h.keyCount]
  exact Finset.single_le_sum (f := fun i ↦ (sizes i : Int)) (fun i _ ↦ by positivity)
    (Finset.mem_range.mpr didx.isLt)

/-- An entry above a dictionary counts it, so it is at least its size. -/
theorem Indexes.size_le_entry (hmany : 1 < 2 ^ bits) {i : Nat}
    (hi : i ∈ Fenwick.ancestors (2 ^ bits) (didx + 1)) :
    (sizes didx : Int) ≤ kvs.dictSizeIndex.getD i 0 := by
  obtain ⟨⟨hlow, hle⟩, hn⟩ := (Fenwick.mem_ancestors (Nat.succ_pos _)).mp hi
  have hcovered : (didx : Nat) ∈ Finset.Ico (i - Fenwick.lowBit i) i := by
    rw [Finset.mem_Ico]
    omega
  refine le_trans ?_ (h.tree hmany i (by omega) hn).ge
  exact Finset.single_le_sum (f := fun i ↦ (sizes i : Int)) (fun i _ ↦ by positivity) hcovered

/-- The total after one dictionary has changed its size. -/
theorem Indexes.keyCount_update (hsize : (size : Int) = sizes didx + delta) :
    ((kvs.keyCount + delta).toNat : Int) =
      ∑ i ∈ Finset.range (2 ^ bits), (Function.update sizes didx size i : Int) := by
  rw [sum_update (Finset.mem_range.mpr didx.isLt) sizes (fun n ↦ (n : Int)) size, ← h.keyCount]
  have hle := h.size_le_keyCount didx
  omega

/-- The entries of the index, likewise. -/
theorem Indexes.tree_update (hsize : (size : Int) = sizes didx + delta) (hmany : 1 < 2 ^ bits)
    {index : List Nat}
    (hindex : ∀ i, (index.getD i 0 : Int) = kvs.dictSizeIndex.getD i 0 +
      if i ∈ Fenwick.ancestors (2 ^ bits) (didx + 1) then delta else 0) :
    Fenwick.IsTree (2 ^ bits) (fun i ↦ (Function.update sizes didx size i : Int))
      fun i ↦ (index.getD i 0 : Int) := by
  have hcells : (fun i ↦ (Function.update sizes didx size i : Int)) =
      (fun i ↦ (sizes i : Int)) + Pi.single (didx : Nat) delta := by
    funext i
    by_cases hi : i = didx
    · subst hi
      simp [hsize]
    · simp [hi]
  rw [hcells]
  intro i hi hn
  exact (hindex i).trans ((h.tree hmany).add didx delta i hi hn)

end Totals

/-- `cumulative_key_count_add` brings the totals from the sizes before the operation to
those after it, and its assertion holds. -/
theorem cumulativeKeyCountAdd_ok (hbits : bits ≤ 16) {kvs : KvStore bits V} {sizes : Nat → Nat}
    (h : kvs.Indexes sizes) (didx : Fin (2 ^ bits)) {delta : Int} {size : Nat}
    (hsize : (size : Int) = sizes didx + delta) :
    ∃ kvs', kvs.cumulativeKeyCountAdd didx delta = .ok kvs' ∧
      kvs'.Indexes (Function.update sizes didx size) ∧ kvs'.dicts = kvs.dicts ∧
      kvs'.allocatedDicts = kvs.allocatedDicts ∧
      kvs'.nonEmptyDicts = kvs.nonEmptyDicts + nonEmptyDelta (kvs.dictSize didx) := by
  have hpow : 2 ^ bits ≤ 2 ^ 16 := Nat.pow_le_pow_right (by omega) hbits
  have hcount := h.keyCount_update didx hsize
  unfold cumulativeKeyCountAdd
  by_cases hone : 2 ^ bits = 1
  · refine ⟨_, if_pos hone, ⟨hcount, ?_, ?_⟩, rfl, rfl, ?_⟩
    · omega
    · omega
    · rw [dictSize_of_lt]
      rfl
  · have hmany : 1 < 2 ^ bits := by
      have := Nat.two_pow_pos bits
      omega
    have hentries : ∀ i ∈ Fenwick.ancestors (2 ^ bits) (didx + 1),
        0 ≤ (kvs.dictSizeIndex.getD i 0 : Int) + delta := by
      intro i hi
      have hentry := h.size_le_entry didx hmany hi
      omega
    obtain ⟨index', hok, hlen, hval⟩ := sizeIndexLoop_ok (by omega)
      (2 ^ bits) (Nat.succ_pos didx) (by omega) (h.length hmany) hentries
    refine ⟨{ kvs with
      keyCount := (kvs.keyCount + delta).toNat
      nonEmptyDicts := kvs.nonEmptyDicts + nonEmptyDelta (kvs.dictSize didx)
      dictSizeIndex := index' },
      ?_, ⟨hcount, fun _ ↦ hlen, fun _ ↦ h.tree_update didx hsize hmany hval⟩, rfl, rfl, rfl⟩
    rw [dictSize_of_lt]
    simp only [numDicts, if_neg hone, hok]
    rfl

/-! ## Calls

What a call does to the sizes: nothing, or one dictionary becomes larger or smaller by
one key. -/

theorem createdDicts_eq_sum (kvs : KvStore bits V) :
    (kvs.createdDicts : Int) = ∑ i, if (kvs.dicts i).isSome then 1 else 0 := by
  rw [createdDicts, Finset.natCast_card_filter]

theorem inhabitedDicts_eq_sum (kvs : KvStore bits V) :
    (kvs.inhabitedDicts : Int) =
      ∑ i ∈ Finset.range (2 ^ bits), if 0 < kvs.dictSize i then 1 else 0 := by
  rw [inhabitedDicts, Finset.natCast_card_filter]

theorem createdDicts_setDict (kvs : KvStore bits V) (didx : Fin (2 ^ bits)) (d : Dict V) :
    ((kvs.setDict didx d).createdDicts : Int) =
      kvs.createdDicts + if (kvs.dicts didx).isSome then 0 else 1 := by
  rw [createdDicts_eq_sum, createdDicts_eq_sum, setDict,
    sum_update (Finset.mem_univ didx) kvs.dicts (fun o ↦ if o.isSome then 1 else 0)]
  cases (kvs.dicts didx).isSome <;> rfl

theorem inhabitedDicts_setDict (kvs : KvStore bits V) (didx : Fin (2 ^ bits)) (d : Dict V) :
    ((kvs.setDict didx d).inhabitedDicts : Int) = kvs.inhabitedDicts +
      ((if 0 < d.keys.length then 1 else 0) - if 0 < kvs.dictSize didx then 1 else 0) := by
  rw [inhabitedDicts_eq_sum, inhabitedDicts_eq_sum, dictSize_setDict]
  exact sum_update (Finset.mem_range.mpr didx.isLt) kvs.dictSize
    (fun n ↦ if 0 < n then 1 else 0) _

/-- A dictionary that is made on demand is empty: no size changes. -/
theorem createDictIfNeeded_cases {kvs : KvStore bits V} (h : kvs.Accurate) (didx : Fin (2 ^ bits)) :
    ∃ kvs' d, kvs.createDictIfNeeded didx = (kvs', d) ∧ kvs'.dicts didx = some d ∧
      kvs'.Accurate ∧ kvs'.dictSize = kvs.dictSize ∧ kvs'.nonEmptyDicts = kvs.nonEmptyDicts := by
  cases hd : kvs.dicts didx with
  | some d => exact ⟨kvs, d, by simp only [createDictIfNeeded, hd], hd, h, rfl, rfl⟩
  | none =>
      have hsize : (kvs.setDict didx ∅).dictSize = kvs.dictSize := by
        rw [dictSize_setDict, Function.update_eq_self_iff, dictSize_of_lt, hd]
        rfl
      refine ⟨{ kvs.setDict didx ∅ with allocatedDicts := kvs.allocatedDicts + 1 }, ∅,
        by simp only [createDictIfNeeded, hd], Function.update_self .., ⟨?_, ?_⟩, hsize, rfl⟩
      · have hindexes := h.indexes
        rw [← hsize] at hindexes
        exact ⟨hindexes.keyCount, hindexes.length, hindexes.tree⟩
      · have hcreated := createdDicts_setDict kvs didx ∅
        rw [hd] at hcreated
        rw [h.allocated]
        exact hcreated.symm

/-- Putting a changed dictionary back and counting it. -/
theorem setDict_cumulative_ok (hbits : bits ≤ 16) {kvs : KvStore bits V} (h : kvs.Accurate)
    {didx : Fin (2 ^ bits)} {d : Dict V} (hd : kvs.dicts didx = some d) (d' : Dict V) (delta : Int)
    (hsize : (d'.keys.length : Int) = d.keys.length + delta) :
    ∃ kvs', (kvs.setDict didx d').cumulativeKeyCountAdd didx delta = .ok kvs' ∧ kvs'.Accurate ∧
      kvs'.nonEmptyDicts = kvs.nonEmptyDicts + nonEmptyDelta d'.keys.length ∧
      (kvs'.inhabitedDicts : Int) = kvs.inhabitedDicts +
        ((if 0 < d'.keys.length then 1 else 0) - if 0 < d.keys.length then 1 else 0) := by
  have hindexes : (kvs.setDict didx d').Indexes kvs.dictSize :=
    ⟨h.indexes.keyCount, h.indexes.length, h.indexes.tree⟩
  rw [← dictSize_of_some hd] at hsize
  obtain ⟨kvs', hok, hafter, hdicts, halloc, hnon⟩ :=
    cumulativeKeyCountAdd_ok hbits hindexes didx hsize
  have hsizes : kvs'.dictSize = (kvs.setDict didx d').dictSize := by
    funext i
    rw [dictSize, hdicts]
    rfl
  refine ⟨kvs', hok, ⟨?_, ?_⟩, ?_, ?_⟩
  · rw [hsizes, dictSize_setDict]
    exact hafter
  · have hcreated := createdDicts_setDict kvs didx d'
    rw [hd] at hcreated
    rw [halloc, createdDicts, hdicts]
    exact h.allocated.trans ((Int.add_zero _).symm.trans hcreated.symm)
  · rw [hnon, dictSize_of_some (Function.update_self ..)]
    rfl
  · rw [← dictSize_of_some hd, ← inhabitedDicts_setDict, inhabitedDicts, hsizes]
    rfl

/-- A deletion of a key from a dictionary of two: it leaves one behind. -/
def LeavesOne (kvs : KvStore bits V) : Call bits → Prop
  | .dictAddRaw _ _ => False
  | .dictDeleteKey didx key => (kvs.dictFind didx key).isSome ∧ kvs.dictSize didx = 2

instance (kvs : KvStore bits V) : (c : Call bits) → Decidable (kvs.LeavesOne c)
  | .dictAddRaw _ _ => inferInstanceAs (Decidable False)
  | .dictDeleteKey didx key =>
      inferInstanceAs (Decidable ((kvs.dictFind didx key).isSome ∧ kvs.dictSize didx = 2))

theorem not_leavesOne_dictAddRaw (kvs : KvStore bits V) (didx : Fin (2 ^ bits)) (key : Bytes) :
    ¬kvs.LeavesOne (.dictAddRaw didx key) := id

theorem leavesOne_dictDeleteKey {kvs : KvStore bits V} {didx : Fin (2 ^ bits)} {d : Dict V}
    (hd : kvs.dicts didx = some d) (key : Bytes) :
    kvs.LeavesOne (.dictDeleteKey didx key) ↔ key ∈ d ∧ d.keys.length = 2 := by
  rw [LeavesOne, dictFind, hd, Option.bind_some, AList.lookup_isSome, dictSize_of_some hd]

variable [Inhabited V]

/-- **A call.**  The store stays accurate, and `non_empty_dicts` moves with the number
of dictionaries that are not empty, except at a deletion that leaves one key. -/
theorem call_cases (hbits : bits ≤ 16) {kvs : KvStore bits V} (h : kvs.Accurate) (c : Call bits) :
    ∃ kvs', kvs.call c = .ok kvs' ∧ kvs'.Accurate ∧
      kvs'.nonEmptyDicts - kvs'.inhabitedDicts =
        kvs.nonEmptyDicts - kvs.inhabitedDicts + if kvs.LeavesOne c then 1 else 0 := by
  cases c with
  | dictAddRaw didx key =>
      obtain ⟨kvs₁, d, hcreate, hd, h₁, hsize₁, hnon₁⟩ := createDictIfNeeded_cases h didx
      have hinh₁ : kvs₁.inhabitedDicts = kvs.inhabitedDicts := by
        rw [inhabitedDicts, hsize₁]
        rfl
      by_cases hmem : key ∈ d
      · refine ⟨kvs₁, ?_, h₁, ?_⟩
        · simp only [call, KvStore.dictAddRaw, hcreate, if_pos hmem]
          rfl
        · rw [hnon₁, hinh₁, if_neg (not_leavesOne_dictAddRaw kvs didx key), Int.add_zero]
      · have hlen := length_keys_insert_of_notMem hmem (default : V)
        obtain ⟨kvs', hok, h', hnon, hinh⟩ := setDict_cumulative_ok hbits h₁ hd
          (d.insert key default) 1 (by omega)
        refine ⟨kvs', ?_, h', ?_⟩
        · simp only [call, KvStore.dictAddRaw, hcreate, if_neg hmem, hok]
          rfl
        · rw [hnon, hinh, hnon₁, hinh₁, hlen, if_neg (not_leavesOne_dictAddRaw kvs didx key),
            nonEmptyDelta_grow]
          omega
  | dictDeleteKey didx key =>
      cases hd : kvs.dicts didx with
      | none =>
          refine ⟨kvs, ?_, h, ?_⟩
          · simp only [call, KvStore.dictDeleteKey, hd]
            rfl
          · rw [if_neg, Int.add_zero]
            rw [LeavesOne, dictFind, hd]
            simp
      | some d =>
          have hleaves := leavesOne_dictDeleteKey hd key
          by_cases hmem : key ∈ d
          · have hlen := length_keys_erase_of_mem hmem
            obtain ⟨kvs', hok, h', hnon, hinh⟩ := setDict_cumulative_ok hbits h hd
              (d.erase key) (-1) (by omega)
            refine ⟨kvs', ?_, h', ?_⟩
            · simp only [call, KvStore.dictDeleteKey, hd, if_pos hmem, hok]
              rfl
            · rw [hnon, hinh, if_congr (hleaves.trans (and_iff_right hmem)) rfl rfl,
                nonEmptyDelta_shrink hlen]
              omega
          · refine ⟨kvs, ?_, h, ?_⟩
            · simp only [call, KvStore.dictDeleteKey, hd, if_neg hmem]
              rfl
            · rw [if_neg, Int.add_zero]
              exact fun hl ↦ hmem (hleaves.mp hl).1

/-! ## Runs -/

/-- The dictionaries made at once are empty, like those made on demand. -/
theorem create_empty (bits : Nat) (V : Type) (onDemand : Bool) :
    (create bits V onDemand).Accurate ∧ (create bits V onDemand).nonEmptyDicts = 0 ∧
      (create bits V onDemand).dictSize = fun _ ↦ 0 := by
  have hempty : (create bits V true).dictSize = fun _ ↦ 0 := by
    funext i
    simp [dictSize, create]
  have hstart : (create bits V true).Accurate := by
    refine ⟨⟨?_, ?_, ?_⟩, ?_⟩
    · rw [hempty]
      simp [create]
    · intro hmany
      simp [create, hmany]
    · intro hmany i hi hn
      rw [hempty]
      simp [create, hmany, Nat.lt_succ_of_le hn]
    · simp [create, createdDicts]
  cases onDemand with
  | true => exact ⟨hstart, rfl, hempty⟩
  | false =>
      refine List.foldlRecOn (motive := fun kvs : KvStore bits V ↦
        kvs.Accurate ∧ kvs.nonEmptyDicts = 0 ∧ kvs.dictSize = fun _ ↦ 0) _ _
        ⟨hstart, rfl, hempty⟩ ?_
      rintro kvs ⟨hacc, hnon, hsize⟩ i -
      obtain ⟨kvs', d, hcreate, -, hacc', hsize', hnon'⟩ := createDictIfNeeded_cases hacc i
      simp only [hcreate]
      exact ⟨hacc', hnon'.trans hnon, hsize'.trans hsize⟩

theorem create_accurate (bits : Nat) (V : Type) (onDemand : Bool) :
    (create bits V onDemand).Accurate ∧
      (create bits V onDemand).nonEmptyDicts = (create bits V onDemand).inhabitedDicts := by
  obtain ⟨hacc, hnon, hsize⟩ := create_empty bits V onDemand
  refine ⟨hacc, ?_⟩
  rw [hnon, inhabitedDicts, hsize]
  simp

/-- **A run.**  Every call returns, the store stays accurate, and the excess of
`non_empty_dicts` is the number of deletions that left one key. -/
theorem calls_ok (hbits : bits ≤ 16) {kvs : KvStore bits V} (h : kvs.Accurate)
    (calls : List (Call bits)) :
    ∃ (kvs' : KvStore bits V) (n : Nat), calls.foldlM call kvs = .ok kvs' ∧ kvs'.Accurate ∧
      kvs'.nonEmptyDicts - kvs'.inhabitedDicts = kvs.nonEmptyDicts - kvs.inhabitedDicts + n ∧
      (n = 0 ↔ ∀ pre c post, calls = pre ++ c :: post →
        ∀ s, pre.foldlM call kvs = .ok s → ¬s.LeavesOne c) := by
  induction calls generalizing kvs with
  | nil => exact ⟨kvs, 0, rfl, h, by omega, by simp⟩
  | cons c calls ih =>
      obtain ⟨kvs₁, hok₁, h₁, hdrift₁⟩ := call_cases hbits h c
      obtain ⟨kvs', n, hok, h', hdrift, hn⟩ := ih h₁
      have hrun : ∀ pre, (c :: pre).foldlM call kvs = pre.foldlM call kvs₁ := fun pre ↦ by
        rw [List.foldlM_cons, hok₁]
        rfl
      refine ⟨kvs', n + if kvs.LeavesOne c then 1 else 0, by rw [hrun, hok], h', ?_, ?_⟩
      · rw [hdrift, hdrift₁]
        split_ifs <;> omega
      · constructor
        · intro hzero pre c' post heq s hs
          split_ifs at hzero with hc
          · cases pre with
            | nil =>
                cases heq
                cases hs
                exact hc
            | cons c'' pre =>
                obtain ⟨rfl, rfl⟩ := List.cons_eq_cons.mp heq
                exact hn.mp (by omega) pre c' post rfl s (by rw [← hrun, hs])
        · intro hall
          rw [if_neg (hall [] c calls rfl kvs rfl), hn.mpr, Nat.add_zero]
          intro pre c' post heq s hs
          exact hall (c :: pre) c' post (by rw [heq]; rfl) s (by rw [hrun, hs])

/-- The totals of a store say how large its dictionaries are. -/
structure SizesAccounted (kvs : KvStore bits V) : Prop where
  keyCount_eq : kvs.keyCount = ∑ i ∈ Finset.range kvs.numDicts, kvs.dictSize i
  allocatedDicts_eq : kvs.allocatedDicts = kvs.createdDicts
  length_eq : 1 < kvs.numDicts → kvs.dictSizeIndex.length = kvs.numDicts + 1
  dictSizeIndex_eq : 1 < kvs.numDicts → ∀ i, 1 ≤ i → i ≤ kvs.numDicts →
    kvs.dictSizeIndex.getD i 0 = ∑ j ∈ Finset.Ico (i - lowBit i) i, kvs.dictSize j
  query_eq : 1 < kvs.numDicts → ∀ p ≤ kvs.numDicts,
    sizeIndexQuery kvs.dictSizeIndex p p = ∑ j ∈ Finset.range p, kvs.dictSize j

/-- The index is a Fenwick tree of the sizes after every sequence of calls; the loop that
maintains it ends, and touches no entry outside `1, …, num_dicts`. -/
theorem run_sizesAccounted (hbits : bits ≤ 16) (onDemand : Bool) (calls : List (Call bits)) :
    ∃ kvs : KvStore bits V, run V onDemand calls = .ok kvs ∧ kvs.SizesAccounted ∧
      ∀ didx : Fin (2 ^ bits), ∀ fuel ≥ kvs.numDicts,
        sizeIndexVisits kvs.numDicts fuel (didx + 1) =
          sizeIndexVisits kvs.numDicts kvs.numDicts (didx + 1) ∧
        ∀ i ∈ sizeIndexVisits kvs.numDicts fuel (didx + 1), 1 ≤ i ∧ i ≤ kvs.numDicts := by
  have hpow : 2 ^ bits ≤ 2 ^ 16 := Nat.pow_le_pow_right (by omega) hbits
  obtain ⟨kvs, -, hok, h, -⟩ := calls_ok hbits (create_accurate bits V onDemand).1 calls
  refine ⟨kvs, hok, ⟨?_, h.allocated, h.indexes.length, ?_, ?_⟩, ?_⟩
  · exact_mod_cast h.indexes.keyCount
  · intro hmany i hi hn
    have htree := h.indexes.tree hmany i hi hn
    rw [lowBit_eq hi (by unfold numDicts at hn; omega)]
    beta_reduce at htree
    exact_mod_cast htree
  · intro hmany p hp
    have hquery := (h.indexes.tree hmany).query_eq hp
    rw [← sizeIndexQuery_eq le_rfl (by unfold numDicts at hp; omega)] at hquery
    exact_mod_cast hquery
  · intro didx fuel hfuel
    unfold numDicts at hfuel ⊢
    rw [sizeIndexVisits_eq (by omega) (Nat.succ_pos _) (by omega),
      sizeIndexVisits_eq (by omega) (Nat.succ_pos _) (by omega)]
    refine ⟨rfl, ?_⟩
    intro i hi
    have := (Fenwick.mem_ancestors (Nat.succ_pos _)).mp hi
    omega

theorem run_sizesAccounted_four_dicts :
    2 ≤ 16 ∧ ∃ kvs : KvStore 2 Unit, run Unit true [.dictAddRaw 2 [97], .dictAddRaw 1 [98],
      .dictDeleteKey 2 [97], .dictDeleteKey 0 [97]] = .ok kvs ∧ kvs.SizesAccounted := by
  have hbits : 2 ≤ 16 := by decide
  obtain ⟨kvs, hok, haccounted, -⟩ := run_sizesAccounted (V := Unit) hbits true
    [.dictAddRaw 2 [97], .dictAddRaw 1 [98], .dictDeleteKey 2 [97], .dictDeleteKey 0 [97]]
  exact ⟨hbits, kvs, hok, haccounted⟩

/-- `non_empty_dicts` is exact after a run exactly if no deletion in it left one key. -/
theorem run_nonEmptyDicts_iff (hbits : bits ≤ 16) (onDemand : Bool) (calls : List (Call bits)) :
    ∃ kvs : KvStore bits V, run V onDemand calls = .ok kvs ∧
      (kvs.nonEmptyDicts = kvs.inhabitedDicts ↔ ∀ pre c post, calls = pre ++ c :: post →
        ∀ s : KvStore bits V, run V onDemand pre = .ok s → ¬s.LeavesOne c) := by
  obtain ⟨hacc, hstart⟩ := create_accurate bits V onDemand
  obtain ⟨kvs, n, hok, -, hdrift, hn⟩ := calls_ok hbits hacc calls
  refine ⟨kvs, hok, Iff.trans ?_ hn⟩
  omega

theorem run_nonEmptyDicts_iff_one_key :
    0 ≤ 16 ∧ ∃ kvs : KvStore 0 Unit, run Unit true [.dictAddRaw 0 [97]] = .ok kvs ∧
      (kvs.nonEmptyDicts = kvs.inhabitedDicts ↔ ∀ pre c post,
        [.dictAddRaw 0 [97]] = pre ++ c :: post →
        ∀ s : KvStore 0 Unit, run Unit true pre = .ok s → ¬s.LeavesOne c) :=
  ⟨by decide, run_nonEmptyDicts_iff (by decide) true [.dictAddRaw 0 [97]]⟩

/-- Two keys are added to the only dictionary and one of them is deleted: one dictionary
is not empty, and two are counted. -/
theorem run_nonEmptyDicts_drift : ∃ kvs : KvStore 0 Unit,
    run Unit true [.dictAddRaw 0 [97], .dictAddRaw 0 [98], .dictDeleteKey 0 [98]] = .ok kvs ∧
      kvs.nonEmptyDicts = 2 ∧ kvs.inhabitedDicts = 1 :=
  ⟨_, rfl, by decide +kernel, by decide +kernel⟩

end KvStore

end LatteRedis
