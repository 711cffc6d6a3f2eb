import Mathlib.Data.Set.Card
import LatteRedis.Db.SizeIndex

/-!
# A store of many dictionaries is one map (`db.c`)

The callers of a `kv_store_t` see entries under an index and a key.  They do not see which
dictionaries were created, when, or that sizes are kept beside them.  `Shelf` is the map they
see, and `run_shelf` says that in every run of the five operations each returns what the map
returns; the totals are then those of the map: `key_count` the number of its entries and a
query of `dict_size_index` the number of entries below an index.
-/

namespace LatteRedis

open ByteString

namespace KvStore

/-- What is stored, under an index and a key. -/
abbrev Shelf (bits : Nat) (V : Type) := Fin (2 ^ bits) × Bytes → Option V

/-- The operations the rest of `db.c` is made of. -/
inductive Op (bits : Nat) (V : Type)
  | dictFind (didx : Fin (2 ^ bits)) (key : Bytes)
  | dictAddRaw (didx : Fin (2 ^ bits)) (key : Bytes)
  | dictSetVal (didx : Fin (2 ^ bits)) (key : Bytes) (val : V)
  | dictDeleteKey (didx : Fin (2 ^ bits)) (key : Bytes)

/-- What an operation returns. -/
inductive Returned (V : Type)
  | entry (o : Option V)
  | code (done : Bool)
deriving DecidableEq

variable {bits : Nat} {V : Type}

namespace Shelf

/-- How many entries there are under the indices below `p`. -/
noncomputable def sizeBelow (m : Shelf bits V) (p : Nat) : Nat :=
  {a : Fin (2 ^ bits) × Bytes | a.1 < p ∧ (m a).isSome}.ncard

variable [Inhabited V]

/-- An operation on the map.  The value of an entry is only set by a caller that holds the
entry, so there is one. -/
def apply (m : Shelf bits V) : Op bits V → Option (Shelf bits V × Returned V)
  | .dictFind didx key => some (m, .entry (m (didx, key)))
  | .dictAddRaw didx key =>
      if (m (didx, key)).isSome then some (m, .code false)
      else some (Function.update m (didx, key) (some default), .code true)
  | .dictSetVal didx key val =>
      if (m (didx, key)).isSome then some (Function.update m (didx, key) (some val), .code true)
      else none
  | .dictDeleteKey didx key => some (Function.update m (didx, key) none, .code (m (didx, key)).isSome)

/-- A run, with what the operations return. -/
def run (p : Shelf bits V × List (Returned V)) (op : Op bits V) :
    Option (Shelf bits V × List (Returned V)) := do
  let (m, r) ← p.1.apply op
  return (m, p.2 ++ [r])

end Shelf

section Code

variable [Inhabited V]

/-- An operation of the code. -/
def apply (kvs : KvStore bits V) : Op bits V → Except Fault (KvStore bits V × Returned V)
  | .dictFind didx key => .ok (kvs, .entry (kvs.dictFind didx key))
  | .dictAddRaw didx key => do
      let (new, kvs) ← kvs.dictAddRaw didx key
      return (kvs, .code new)
  | .dictSetVal didx key val => .ok (kvs.dictSetVal didx key val, .code true)
  | .dictDeleteKey didx key => do
      let (found, kvs) ← kvs.dictDeleteKey didx key
      return (kvs, .code found)

def runOp (p : KvStore bits V × List (Returned V)) (op : Op bits V) :
    Except Fault (KvStore bits V × List (Returned V)) := do
  let (kvs, r) ← p.1.apply op
  return (kvs, p.2 ++ [r])

end Code

/-- The map a store shows. -/
def contents (kvs : KvStore bits V) : Shelf bits V := fun a ↦ kvs.dictFind a.1 a.2

/-! ## What one operation does to the map -/

section Contents

variable {kvs kvs' : KvStore bits V} {didx : Fin (2 ^ bits)} {d : Dict V} {key : Bytes}

theorem contents_congr (h : kvs'.dicts = kvs.dicts) : kvs'.contents = kvs.contents := by
  funext a
  unfold contents dictFind
  rw [h]

theorem contents_of_some (hd : kvs.dicts didx = some d) (key : Bytes) :
    kvs.contents (didx, key) = d.lookup key := by
  unfold contents dictFind
  rw [hd]
  rfl

theorem contents_of_none (hd : kvs.dicts didx = none) (key : Bytes) :
    kvs.contents (didx, key) = none := by
  unfold contents dictFind
  rw [hd]
  rfl

theorem contents_setDict_self (d : Dict V) (key : Bytes) :
    (kvs.setDict didx d).contents (didx, key) = d.lookup key :=
  contents_of_some (Function.update_self ..) key

theorem contents_setDict_of_ne {i : Fin (2 ^ bits)} (h : i ≠ didx) (d : Dict V) (key : Bytes) :
    (kvs.setDict didx d).contents (i, key) = kvs.contents (i, key) := by
  unfold contents dictFind setDict
  dsimp only
  rw [Function.update_of_ne h]

/-- A dictionary changes at one key: the map changes there. -/
theorem contents_setDict (hd : ∀ k, kvs.contents (didx, k) = d.lookup k) {d' : Dict V} {o : Option V}
    (hself : d'.lookup key = o) (hother : ∀ k ≠ key, d'.lookup k = d.lookup k) :
    (kvs.setDict didx d').contents = Function.update kvs.contents (didx, key) o := by
  funext ⟨i, k⟩
  by_cases hi : i = didx
  · subst hi
    rw [contents_setDict_self]
    by_cases hk : k = key
    · subst hk
      rw [Function.update_self, hself]
    · rw [Function.update_of_ne (fun h ↦ hk (Prod.mk.inj h).2), hother k hk, hd]
  · rw [contents_setDict_of_ne hi, Function.update_of_ne (fun h ↦ hi (Prod.mk.inj h).1)]

/-- A dictionary made on demand is empty: nobody sees it. -/
theorem contents_createDictIfNeeded (kvs : KvStore bits V) (didx : Fin (2 ^ bits)) :
    (kvs.createDictIfNeeded didx).1.contents = kvs.contents := by
  unfold createDictIfNeeded
  cases hd : kvs.dicts didx with
  | some d => rfl
  | none =>
      show (kvs.setDict didx ∅).contents = kvs.contents
      funext ⟨i, k⟩
      by_cases hi : i = didx
      · subst hi
        rw [contents_setDict_self, contents_of_none hd]
        exact AList.lookup_empty k
      · rw [contents_setDict_of_ne hi]

end Contents

/-! ## Operations -/

section Ops

variable {kvs : KvStore bits V}

theorem create_contents (bits : Nat) (V : Type) (onDemand : Bool) :
    (create bits V onDemand).contents = fun _ ↦ none := by
  cases onDemand with
  | true => rfl
  | false =>
      refine List.foldlRecOn (motive := fun kvs : KvStore bits V ↦ kvs.contents = fun _ ↦ none) _ _
        rfl ?_
      intro kvs h i _
      rw [contents_createDictIfNeeded, h]

/-- A value is replaced, and nothing is counted. -/
theorem dictSetVal_contents (h : kvs.Accurate) {didx : Fin (2 ^ bits)} {key : Bytes}
    (hkey : (kvs.contents (didx, key)).isSome) (val : V) :
    (kvs.dictSetVal didx key val).Accurate ∧
      (kvs.dictSetVal didx key val).contents = Function.update kvs.contents (didx, key) (some val) := by
  cases hd : kvs.dicts didx with
  | none =>
      rw [contents_of_none hd] at hkey
      cases hkey
  | some d =>
      have hmem : key ∈ d := by
        rw [contents_of_some hd] at hkey
        exact AList.lookup_isSome.mp hkey
      have hset : kvs.dictSetVal didx key val = kvs.setDict didx (d.insert key val) := by
        unfold dictSetVal
        rw [hd]
      have hsize : (kvs.setDict didx (d.insert key val)).dictSize = kvs.dictSize := by
        rw [dictSize_setDict, Function.update_eq_self_iff, dictSize_of_some hd,
          length_keys_insert_of_mem hmem]
      rw [hset]
      refine ⟨⟨?_, ?_⟩, ?_⟩
      · have hindexes := h.indexes
        rw [← hsize] at hindexes
        exact ⟨hindexes.keyCount, hindexes.length, hindexes.tree⟩
      · have hcreated := createdDicts_setDict kvs didx (d.insert key val)
        rw [hd] at hcreated
        exact h.allocated.trans ((Int.add_zero _).symm.trans hcreated.symm)
      · exact contents_setDict (contents_of_some hd) (AList.lookup_insert d)
          fun k hk ↦ AList.lookup_insert_ne hk

/-- Putting a changed dictionary back and counting it, as the callers see it. -/
theorem setDict_cumulative_contents (hbits : bits ≤ 16) (h : kvs.Accurate) {didx : Fin (2 ^ bits)}
    {d d' : Dict V} (hd : kvs.dicts didx = some d) {key : Bytes} {o : Option V} {delta : Int}
    (hsize : (d'.keys.length : Int) = d.keys.length + delta) (hself : d'.lookup key = o)
    (hother : ∀ k ≠ key, d'.lookup k = d.lookup k) :
    ∃ kvs', (kvs.setDict didx d').cumulativeKeyCountAdd didx delta = .ok kvs' ∧ kvs'.Accurate ∧
      kvs'.contents = Function.update kvs.contents (didx, key) o := by
  obtain ⟨kvs', hok, h', -⟩ := setDict_cumulative_ok hbits h hd d' delta hsize
  have hindexes : (kvs.setDict didx d').Indexes kvs.dictSize :=
    ⟨h.indexes.keyCount, h.indexes.length, h.indexes.tree⟩
  rw [← dictSize_of_some hd] at hsize
  obtain ⟨kvs₂, hok₂, -, hdicts, -⟩ := cumulativeKeyCountAdd_ok hbits hindexes didx hsize
  cases hok.symm.trans hok₂
  refine ⟨kvs', hok, h', ?_⟩
  rw [contents_congr hdicts]
  exact contents_setDict (contents_of_some hd) hself hother

theorem dictDeleteKey_contents (hbits : bits ≤ 16) (h : kvs.Accurate) (didx : Fin (2 ^ bits))
    (key : Bytes) :
    ∃ kvs', kvs.dictDeleteKey didx key = .ok ((kvs.contents (didx, key)).isSome, kvs') ∧
      kvs'.Accurate ∧ kvs'.contents = Function.update kvs.contents (didx, key) none := by
  unfold dictDeleteKey
  cases hd : kvs.dicts didx with
  | none =>
      rw [contents_of_none hd]
      exact ⟨kvs, rfl, h, (Function.update_eq_self_iff.mpr (contents_of_none hd key).symm).symm⟩
  | some d =>
      rw [contents_of_some hd]
      dsimp only
      by_cases hmem : key ∈ d
      · have hlen := length_keys_erase_of_mem hmem
        have hsize : ((d.erase key).keys.length : Int) = d.keys.length + -1 := by omega
        obtain ⟨kvs', hok, h', hcontents⟩ := setDict_cumulative_contents hbits h hd hsize
          (AList.lookup_erase key d) fun k hk ↦ AList.lookup_erase_ne hk
        rw [AList.lookup_isSome.mpr hmem, if_pos hmem, hok]
        exact ⟨kvs', rfl, h', hcontents⟩
      · have hnone := AList.lookup_eq_none.mpr hmem
        rw [hnone, if_neg hmem]
        refine ⟨kvs, rfl, h, (Function.update_eq_self_iff.mpr ?_).symm⟩
        rw [contents_of_some hd, hnone]

variable [Inhabited V]

/-- A new entry, or the map as it was. -/
theorem dictAddRaw_contents (hbits : bits ≤ 16) (h : kvs.Accurate) (didx : Fin (2 ^ bits))
    (key : Bytes) :
    ∃ kvs', kvs.dictAddRaw didx key = .ok (!(kvs.contents (didx, key)).isSome, kvs') ∧
      kvs'.Accurate ∧ kvs'.contents = if (kvs.contents (didx, key)).isSome then kvs.contents
        else Function.update kvs.contents (didx, key) (some default) := by
  obtain ⟨kvs₁, d, hcreate, hd, h₁, -, -⟩ := createDictIfNeeded_cases h didx
  have hsame : kvs₁.contents = kvs.contents := by
    have := contents_createDictIfNeeded kvs didx
    rwa [hcreate] at this
  have hlookup : kvs.contents (didx, key) = d.lookup key := by rw [← hsame, contents_of_some hd]
  rw [← hsame] at hlookup ⊢
  unfold dictAddRaw
  rw [hcreate, hlookup]
  dsimp only
  by_cases hmem : key ∈ d
  · rw [AList.lookup_isSome.mpr hmem, if_pos hmem, if_pos rfl]
    exact ⟨kvs₁, rfl, h₁, rfl⟩
  · have hlen := length_keys_insert_of_notMem hmem (default : V)
    obtain ⟨kvs', hok, h', hcontents⟩ := setDict_cumulative_contents hbits h₁ hd
      ((congrArg Nat.cast hlen).trans (Nat.cast_succ _)) (AList.lookup_insert d)
      fun k hk ↦ AList.lookup_insert_ne hk
    rw [AList.lookup_eq_none.mpr hmem, if_neg hmem, hok]
    exact ⟨kvs', rfl, h', hcontents⟩

/-- **An operation.**  If the map has an answer, the code gives it, and shows the map's state. -/
theorem apply_contents (hbits : bits ≤ 16) (h : kvs.Accurate) {m : Shelf bits V} {r : Returned V}
    {op : Op bits V} (hop : Shelf.apply kvs.contents op = some (m, r)) :
    ∃ kvs', kvs.apply op = .ok (kvs', r) ∧ kvs'.Accurate ∧ kvs'.contents = m := by
  cases op with
  | dictFind didx key =>
      cases hop
      exact ⟨kvs, rfl, h, rfl⟩
  | dictAddRaw didx key =>
      obtain ⟨kvs', hok, h', hcontents⟩ := dictAddRaw_contents hbits h didx key
      unfold apply
      dsimp only
      rw [hok]
      unfold Shelf.apply at hop
      dsimp only at hop
      split at hop
      · next hsome =>
          cases hop
          rw [if_pos hsome] at hcontents
          rw [hsome]
          exact ⟨kvs', rfl, h', hcontents⟩
      · next hnone =>
          cases hop
          rw [if_neg hnone] at hcontents
          rw [Bool.eq_false_of_not_eq_true hnone]
          exact ⟨kvs', rfl, h', hcontents⟩
  | dictSetVal didx key val =>
      unfold Shelf.apply at hop
      dsimp only at hop
      split at hop
      · next hsome =>
          cases hop
          obtain ⟨h', hcontents⟩ := dictSetVal_contents h hsome val
          exact ⟨_, rfl, h', hcontents⟩
      · cases hop
  | dictDeleteKey didx key =>
      obtain ⟨kvs', hok, h', hcontents⟩ := dictDeleteKey_contents hbits h didx key
      cases hop
      unfold apply
      dsimp only
      rw [hok]
      exact ⟨kvs', rfl, h', hcontents⟩

/-- **A run of operations.** -/
theorem runOp_contents (hbits : bits ≤ 16) {ops : List (Op bits V)} {rs rs' : List (Returned V)}
    {m : Shelf bits V} (h : kvs.Accurate) (hops : ops.foldlM Shelf.run (kvs.contents, rs) = some (m, rs')) :
    ∃ kvs', ops.foldlM runOp (kvs, rs) = .ok (kvs', rs') ∧ kvs'.Accurate ∧ kvs'.contents = m := by
  induction ops generalizing kvs rs with
  | nil =>
      cases hops
      exact ⟨kvs, rfl, h, rfl⟩
  | cons op ops ih =>
      rw [List.foldlM_cons] at hops
      obtain ⟨⟨m₁, rs₁⟩, hstep, hrest⟩ := Option.bind_eq_some_iff.mp hops
      obtain ⟨⟨m₂, r⟩, hop, hpure⟩ := Option.bind_eq_some_iff.mp hstep
      cases hpure
      obtain ⟨kvs₁, hok₁, h₁, rfl⟩ := apply_contents hbits h hop
      obtain ⟨kvs', hok, h', hcontents⟩ := ih h₁ hrest
      refine ⟨kvs', ?_, h', hcontents⟩
      rw [List.foldlM_cons, runOp, hok₁]
      exact hok

end Ops

/-! ## The totals -/

/-- The keys under an index. -/
theorem exists_keys (kvs : KvStore bits V) (didx : Fin (2 ^ bits)) :
    ∃ S : Finset Bytes, (∀ k, k ∈ S ↔ (kvs.contents (didx, k)).isSome) ∧ S.card = kvs.dictSize didx := by
  cases hd : kvs.dicts didx with
  | none =>
      refine ⟨∅, ?_, ?_⟩
      · intro k
        rw [contents_of_none hd]
        simp
      · rw [dictSize_of_lt, hd]
        rfl
  | some d =>
      refine ⟨d.keys.toFinset, ?_, ?_⟩
      · intro k
        rw [contents_of_some hd, AList.lookup_isSome, List.mem_toFinset, AList.mem_keys]
      · rw [dictSize_of_some hd, length_keys]

/-- The entries below an index are those of the dictionaries below it. -/
theorem sizeBelow_contents (kvs : KvStore bits V) {p : Nat} (hp : p ≤ 2 ^ bits) :
    {a : Fin (2 ^ bits) × Bytes | a.1 < p ∧ (kvs.contents a).isSome}.Finite ∧
      kvs.contents.sizeBelow p = ∑ i ∈ Finset.range p, kvs.dictSize i := by
  unfold Shelf.sizeBelow
  induction p with
  | zero => simp
  | succ p ih =>
      obtain ⟨hfinite, hcard⟩ := ih (by omega)
      obtain ⟨S, hS, hsize⟩ := kvs.exists_keys ⟨p, hp⟩
      have hinj : Function.Injective fun k : Bytes ↦ ((⟨p, hp⟩ : Fin (2 ^ bits)), k) :=
        fun k k' h ↦ (Prod.mk.inj h).2
      have hsplit : {a : Fin (2 ^ bits) × Bytes | a.1 < p + 1 ∧ (kvs.contents a).isSome} =
          {a | a.1 < p ∧ (kvs.contents a).isSome} ∪ (fun k ↦ (⟨p, hp⟩, k)) '' (S : Set Bytes) := by
        ext ⟨i, k⟩
        constructor
        · rintro ⟨hlt, hsome⟩
          rcases Nat.lt_succ_iff_lt_or_eq.mp hlt with hlt | heq
          · exact .inl ⟨hlt, hsome⟩
          · obtain rfl : i = ⟨p, hp⟩ := Fin.ext heq
            exact .inr ⟨k, Finset.mem_coe.mpr ((hS k).mpr hsome), rfl⟩
        · rintro (⟨hlt, hsome⟩ | ⟨k', hk', heq⟩)
          · exact ⟨Nat.lt_succ_of_lt hlt, hsome⟩
          · cases heq
            exact ⟨Nat.lt_succ_self p, (hS k).mp (Finset.mem_coe.mp hk')⟩
      have hdisjoint : Disjoint {a : Fin (2 ^ bits) × Bytes | a.1 < p ∧ (kvs.contents a).isSome}
          ((fun k ↦ (⟨p, hp⟩, k)) '' (S : Set Bytes)) := by
        rw [Set.disjoint_left]
        rintro ⟨i, k⟩ ⟨hlt, -⟩ ⟨k', -, heq⟩
        cases heq
        exact Nat.lt_irrefl p hlt
      rw [hsplit]
      refine ⟨hfinite.union (S.finite_toSet.image _), ?_⟩
      rw [Set.ncard_union_eq hdisjoint hfinite (S.finite_toSet.image _),
        Set.ncard_image_of_injective _ hinj, Set.ncard_coe_finset, hcard, hsize,
        Finset.sum_range_succ]

variable [Inhabited V]

/-- **The store is a map.**  Whatever the number of dictionaries and whether they are made at
once or on demand: a run of operations never fails and returns what the map returns, the
store then shows the map, `key_count` is the number of its entries, and the query of the
index at `p` the number of those under an index below `p`. -/
theorem run_shelf (hbits : bits ≤ 16) (onDemand : Bool) (ops : List (Op bits V)) (m : Shelf bits V)
    (rs : List (Returned V)) (hops : ops.foldlM Shelf.run ((fun _ ↦ none), []) = some (m, rs)) :
    ∃ kvs, ops.foldlM runOp (create bits V onDemand, []) = .ok (kvs, rs) ∧ kvs.contents = m ∧
      kvs.keyCount = m.sizeBelow kvs.numDicts ∧ ∀ p ≤ kvs.numDicts, 1 < kvs.numDicts →
        sizeIndexQuery kvs.dictSizeIndex p p = m.sizeBelow p := by
  have hpow : 2 ^ bits ≤ 2 ^ 16 := Nat.pow_le_pow_right (by omega) hbits
  rw [← create_contents bits V onDemand] at hops
  obtain ⟨kvs, hok, h, rfl⟩ := runOp_contents hbits (create_accurate bits V onDemand).1 hops
  refine ⟨kvs, hok, rfl, ?_, ?_⟩
  · unfold numDicts
    rw [(kvs.sizeBelow_contents le_rfl).2]
    exact_mod_cast h.indexes.keyCount
  · intro p hp hmany
    have hquery := (h.indexes.tree hmany).query_eq hp
    rw [← sizeIndexQuery_eq le_rfl (by unfold numDicts at hp; omega)] at hquery
    rw [(kvs.sizeBelow_contents hp).2]
    exact_mod_cast hquery

/-- A key is added twice, set, found, and deleted beside a key of another index. -/
theorem run_shelf_two_dicts : ∃ kvs m, List.foldlM runOp (create 1 Nat true, [])
    [.dictAddRaw 0 [97], .dictSetVal 0 [97] 7, .dictAddRaw 0 [97], .dictAddRaw 1 [97],
      .dictDeleteKey 1 [97], .dictFind 0 [97], .dictFind 1 [97]] =
    .ok (kvs, [.code true, .code true, .code false, .code true, .code true, .entry (some 7),
      .entry none]) ∧ kvs.contents = m ∧ kvs.keyCount = m.sizeBelow 2 := by
  obtain ⟨kvs, hok, hcontents, hcount, -⟩ := run_shelf (V := Nat) (show 1 ≤ 16 by decide) true
    [.dictAddRaw 0 [97], .dictSetVal 0 [97] 7, .dictAddRaw 0 [97], .dictAddRaw 1 [97],
      .dictDeleteKey 1 [97], .dictFind 0 [97], .dictFind 1 [97]] _ _ rfl
  exact ⟨kvs, _, hok, hcontents, hcount⟩

end KvStore

end LatteRedis
