import Mathlib.Algebra.BigOperators.Group.Finset.Basic
import Mathlib.Algebra.Order.Group.Multiset
import Mathlib.Data.List.AList
import LatteRedis.Foundation.Run
import LatteRedis.Library

/-!
# Key-value stores (second part of `db.c`)

A `kv_store_t` is an array of `2 ^ num_dicts_bits` dictionaries, created on demand,
together with running totals: the number of keys, of dictionaries that were created, of
dictionaries that are not empty, and, when there is more than one dictionary, a Fenwick
tree of their sizes.

The library's `dict_t` is a finite map from `sds` keys.  An entry is addressed by its
key; the value of an entry `dict_add_raw` has just made is `default`, and every caller
sets it before it is read.

The lemmas are about the stores the databases are made of, which have one dictionary:
what the operations do to `find` and to `keyCount`.
-/

namespace LatteRedis

open ByteString

/-- `dict_t`, with `sds` keys. -/
abbrev Dict (V : Type) := AList fun _ : Bytes ↦ V

/-- `kv_store_t`.  An index is below `num_dicts` by its type. -/
structure KvStore (numDictsBits : Nat) (V : Type) where
  dicts : Fin (2 ^ numDictsBits) → Option (Dict V)
  allocatedDicts : Int := 0
  nonEmptyDicts : Int := 0
  keyCount : Nat := 0
  /-- `dict_size_index[0], …, dict_size_index[num_dicts]`; `NULL` when there is one dictionary. -/
  dictSizeIndex : List Nat

namespace KvStore

variable {bits : Nat} {V : Type}

/-- `kvs->num_dicts`. -/
def numDicts (_ : KvStore bits V) : Nat := 2 ^ bits

def setDict (kvs : KvStore bits V) (didx : Fin (2 ^ bits)) (d : Dict V) : KvStore bits V :=
  { kvs with dicts := Function.update kvs.dicts didx (some d) }

/-- `kv_store_create_dict_if_needed`, with the dictionary it returns. -/
def createDictIfNeeded (kvs : KvStore bits V) (didx : Fin (2 ^ bits)) : KvStore bits V × Dict V :=
  match kvs.dicts didx with
  | some d => (kvs, d)
  | none => ({ kvs.setDict didx ∅ with allocatedDicts := kvs.allocatedDicts + 1 }, ∅)

/-- `kv_store_create`; `onDemand` is the flag `KVSTORE_ALLOCATE_DICTS_ON_DEMAND`. -/
def create (bits : Nat) (V : Type) (onDemand : Bool) : KvStore bits V :=
  let kvs : KvStore bits V :=
    { dicts := fun _ ↦ none
      dictSizeIndex := if 2 ^ bits > 1 then List.replicate (2 ^ bits + 1) 0 else [] }
  if onDemand then kvs
  else (List.finRange (2 ^ bits)).foldl (fun kvs i ↦ (createDictIfNeeded kvs i).1) kvs

/-- `idx & -idx`, on `int`. -/
def lowBit (idx : Nat) : Nat := (BitVec.ofNat 32 idx &&& -BitVec.ofNat 32 idx).toNat

/-- The loop of `cumulative_key_count_add`: from `idx` up through the parents. -/
def sizeIndexLoop (numDicts : Nat) (delta : Int) : Nat → Nat → List Nat → Except Fault (List Nat)
  | 0, _, index => .ok index
  | fuel + 1, idx, index =>
      if idx ≤ numDicts then
        if delta < 0 ∧ (index.getD idx 0 : Int) < delta.natAbs then
          .error (.assertion "kvs->dict_size_index[idx] is less than labs(delta)")
        else
          sizeIndexLoop numDicts delta fuel (idx + lowBit idx)
            (index.set idx ((index.getD idx 0 : Int) + delta).toNat)
      else .ok index

/-- `cumulative_key_count_add`, after the dictionary has changed. -/
def cumulativeKeyCountAdd (kvs : KvStore bits V) (didx : Fin (2 ^ bits)) (delta : Int) :
    Except Fault (KvStore bits V) :=
  let dsize := ((kvs.dicts didx).map fun d ↦ d.keys.length).getD 0
  let kvs := { kvs with
    keyCount := (kvs.keyCount + delta).toNat
    nonEmptyDicts := kvs.nonEmptyDicts + (if dsize = 1 then 1 else if dsize = 0 then -1 else 0) }
  if kvs.numDicts = 1 then .ok kvs
  else do
    let index ← sizeIndexLoop kvs.numDicts delta kvs.numDicts (didx + 1) kvs.dictSizeIndex
    return { kvs with dictSizeIndex := index }

/-- `kv_store_dict_find`. -/
def dictFind (kvs : KvStore bits V) (didx : Fin (2 ^ bits)) (key : Bytes) : Option V :=
  (kvs.dicts didx).bind fun d ↦ d.lookup key

/-- `kv_store_dict_add_raw`: `true` for a new entry, `false` when the key is `existing`. -/
def dictAddRaw [Inhabited V] (kvs : KvStore bits V) (didx : Fin (2 ^ bits)) (key : Bytes) :
    Except Fault (Bool × KvStore bits V) :=
  let (kvs, d) := createDictIfNeeded kvs didx
  if key ∈ d then .ok (false, kvs)
  else do
    let kvs ← (kvs.setDict didx (d.insert key default)).cumulativeKeyCountAdd didx 1
    return (true, kvs)

/-- `kv_store_dict_set_val`, on the entry of `key`. -/
def dictSetVal (kvs : KvStore bits V) (didx : Fin (2 ^ bits)) (key : Bytes) (val : V) :
    KvStore bits V :=
  match kvs.dicts didx with
  | some d => kvs.setDict didx (d.insert key val)
  | none => kvs

/-- `kv_store_dict_delete_key`: whether there was such a key. -/
def dictDeleteKey (kvs : KvStore bits V) (didx : Fin (2 ^ bits)) (key : Bytes) :
    Except Fault (Bool × KvStore bits V) :=
  match kvs.dicts didx with
  | none => .ok (false, kvs)
  | some d =>
      if key ∈ d then do
        let kvs ← (kvs.setDict didx (d.erase key)).cumulativeKeyCountAdd didx (-1)
        return (true, kvs)
      else .ok (false, kvs)

end KvStore

/-! ## Stores with one dictionary

`slot_count_bits` is zero for the stores of a database, so every key has index `0`. -/

/-- `get_kv_store_index_for_key`. -/
def getKvStoreIndexForKey (_key : Bytes) : Fin (2 ^ 0) := 0

namespace KvStore

variable {V : Type}

/-- The value of a key. -/
def find (kvs : KvStore 0 V) (key : Bytes) : Option V := kvs.dictFind (getKvStoreIndexForKey key) key

/-- The keys of a store. -/
def keys (kvs : KvStore 0 V) : List Bytes := ((kvs.dicts 0).map AList.keys).getD []

/-- The number of keys is the one that is kept. -/
def Counted (kvs : KvStore 0 V) : Prop := kvs.keyCount = kvs.keys.length

theorem find_of_some {kvs : KvStore 0 V} {d : Dict V} (h : kvs.dicts 0 = some d) :
    kvs.find = fun k ↦ d.lookup k := by
  funext k
  unfold find dictFind getKvStoreIndexForKey
  rw [h]
  rfl

theorem find_of_none {kvs : KvStore 0 V} (h : kvs.dicts 0 = none) : kvs.find = fun _ ↦ none := by
  funext k
  unfold find dictFind getKvStoreIndexForKey
  rw [h]
  rfl

theorem keys_of_some {kvs : KvStore 0 V} {d : Dict V} (h : kvs.dicts 0 = some d) :
    kvs.keys = d.keys := by
  unfold keys
  rw [h]
  rfl

theorem keys_nodup (kvs : KvStore 0 V) : kvs.keys.Nodup := by
  unfold keys
  cases kvs.dicts 0 with
  | none => exact List.nodup_nil
  | some d => exact d.keys_nodup

theorem mem_keys {kvs : KvStore 0 V} {key : Bytes} : key ∈ kvs.keys ↔ (kvs.find key).isSome := by
  cases h : kvs.dicts 0 with
  | none => simp [keys, h, find_of_none h]
  | some d => rw [keys_of_some h, find_of_some h, AList.lookup_isSome, AList.mem_keys]

@[simp] theorem setDict_dicts (kvs : KvStore 0 V) (d : Dict V) :
    (kvs.setDict 0 d).dicts 0 = some d := by
  simp [setDict]

theorem lookup_insert_eq_update (d : Dict V) (key : Bytes) (v : V) :
    (fun k ↦ (d.insert key v).lookup k) = Function.update (fun k ↦ d.lookup k) key (some v) := by
  funext k
  by_cases hk : k = key
  · subst hk
    rw [Function.update_self, AList.lookup_insert]
  · rw [Function.update_of_ne hk, AList.lookup_insert_ne hk]

theorem lookup_erase_eq_update (d : Dict V) (key : Bytes) :
    (fun k ↦ (d.erase key).lookup k) = Function.update (fun k ↦ d.lookup k) key none := by
  funext k
  by_cases hk : k = key
  · subst hk
    rw [Function.update_self, AList.lookup_erase]
  · rw [Function.update_of_ne hk, AList.lookup_erase_ne hk]

/-- The keys of a dictionary as a finite set; its size does not depend on the order. -/
theorem length_keys (d : Dict V) : d.keys.length = d.keys.toFinset.card :=
  (List.toFinset_card_of_nodup d.keys_nodup).symm

theorem toFinset_keys_insert (d : Dict V) (key : Bytes) (v : V) :
    (d.insert key v).keys.toFinset = insert key d.keys.toFinset := by
  ext k
  rw [List.mem_toFinset, ← AList.mem_keys, AList.mem_insert, Finset.mem_insert, List.mem_toFinset,
    AList.mem_keys]

theorem toFinset_keys_erase (d : Dict V) (key : Bytes) :
    (d.erase key).keys.toFinset = d.keys.toFinset.erase key := by
  ext k
  rw [List.mem_toFinset, ← AList.mem_keys, AList.mem_erase, Finset.mem_erase, List.mem_toFinset,
    AList.mem_keys]

theorem length_keys_insert_of_mem {d : Dict V} {key : Bytes} (h : key ∈ d) (v : V) :
    (d.insert key v).keys.length = d.keys.length := by
  rw [length_keys, length_keys, toFinset_keys_insert,
    Finset.insert_eq_of_mem (List.mem_toFinset.mpr (AList.mem_keys.mp h))]

theorem length_keys_insert_of_notMem {d : Dict V} {key : Bytes} (h : key ∉ d) (v : V) :
    (d.insert key v).keys.length = d.keys.length + 1 := by
  rw [length_keys, length_keys, toFinset_keys_insert, Finset.card_insert_of_notMem]
  exact fun hk ↦ h (AList.mem_keys.mpr (List.mem_toFinset.mp hk))

theorem length_keys_erase_of_mem {d : Dict V} {key : Bytes} (h : key ∈ d) :
    (d.erase key).keys.length + 1 = d.keys.length := by
  rw [length_keys, length_keys, toFinset_keys_erase]
  exact Finset.card_erase_add_one (List.mem_toFinset.mpr (AList.mem_keys.mp h))

theorem find_eq_none_iff {kvs : KvStore 0 V} {d : Dict V} (hd : kvs.dicts 0 = some d)
    {key : Bytes} : kvs.find key = none ↔ key ∉ d := by
  rw [find_of_some hd, AList.lookup_eq_none]

/-- What putting a dictionary back and counting does. -/
theorem setDict_cumulative (kvs : KvStore 0 V) (d : Dict V) (delta : Int) :
    ∃ kvs', (kvs.setDict 0 d).cumulativeKeyCountAdd 0 delta = .ok kvs' ∧
      kvs'.dicts 0 = some d ∧ kvs'.keyCount = (kvs.keyCount + delta).toNat :=
  ⟨_, rfl, kvs.setDict_dicts d, rfl⟩

/-- The value of an entry is replaced. -/
theorem dictSetVal_find (kvs : KvStore 0 V) {key : Bytes} (h : (kvs.find key).isSome) (v : V) :
    (kvs.dictSetVal 0 key v).find = Function.update kvs.find key (some v) ∧
      (kvs.Counted → (kvs.dictSetVal 0 key v).Counted) := by
  cases hd : kvs.dicts 0 with
  | none => rw [find_of_none hd] at h; cases h
  | some d =>
      have hmem : key ∈ d := by
        rw [find_of_some hd] at h
        exact AList.lookup_isSome.mp h
      have hset : kvs.dictSetVal 0 key v = kvs.setDict 0 (d.insert key v) := by
        unfold dictSetVal
        rw [hd]
      rw [hset]
      constructor
      · rw [find_of_some (kvs.setDict_dicts _), find_of_some hd, lookup_insert_eq_update]
      · intro hc
        rw [Counted, keys_of_some hd] at hc
        rw [Counted, keys_of_some (kvs.setDict_dicts _), length_keys_insert_of_mem hmem]
        exact hc

theorem dictSetVal_keyCount (kvs : KvStore 0 V) (key : Bytes) (v : V) :
    (kvs.dictSetVal 0 key v).keyCount = kvs.keyCount := by
  unfold dictSetVal
  split <;> rfl

/-- A deleted key is gone, and nothing else is. -/
theorem dictDeleteKey_find (kvs : KvStore 0 V) (key : Bytes) :
    ∃ kvs', kvs.dictDeleteKey 0 key = .ok ((kvs.find key).isSome, kvs') ∧
      kvs'.find = Function.update kvs.find key none ∧ (kvs.Counted → kvs'.Counted) := by
  cases hd : kvs.dicts 0 with
  | none =>
      refine ⟨kvs, ?_, ?_, id⟩
      · unfold dictDeleteKey
        rw [hd, find_of_none hd]
        rfl
      · rw [find_of_none hd]
        exact (Function.update_eq_self key fun _ ↦ none).symm
  | some d =>
      by_cases hmem : key ∈ d
      · obtain ⟨kvs', hok, hdicts, hcount⟩ := setDict_cumulative kvs (d.erase key) (-1)
        refine ⟨kvs', ?_, ?_, ?_⟩
        · unfold dictDeleteKey
          rw [hd, find_of_some hd, AList.lookup_isSome.mpr hmem]
          simp only [if_pos hmem, hok]
          rfl
        · rw [find_of_some hdicts, find_of_some hd, lookup_erase_eq_update]
        · intro hc
          have hlen := length_keys_erase_of_mem hmem
          rw [Counted, keys_of_some hd] at hc
          rw [Counted, keys_of_some hdicts, hcount]
          omega
      · refine ⟨kvs, ?_, ?_, id⟩
        · unfold dictDeleteKey
          rw [hd, (find_eq_none_iff hd).mpr hmem]
          simp only [if_neg hmem]
          rfl
        · refine (Function.update_eq_self_iff.mpr ?_).symm
          exact ((find_eq_none_iff hd).mpr hmem).symm

/-! ## The values of a store -/

/-- The values of the entries. -/
def values (kvs : KvStore 0 V) : Multiset V := (kvs.keys : Multiset Bytes).filterMap kvs.find

theorem mem_values {kvs : KvStore 0 V} {v : V} : v ∈ kvs.values ↔ ∃ key, kvs.find key = some v := by
  unfold values
  rw [Multiset.mem_filterMap]
  refine ⟨fun ⟨key, _, hkey⟩ ↦ ⟨key, hkey⟩, fun ⟨key, hkey⟩ ↦ ⟨key, ?_, hkey⟩⟩
  rw [Multiset.mem_coe, mem_keys, hkey]
  rfl

/-- The values can be collected over any set of keys that has those of the store. -/
theorem values_eq_sum {kvs : KvStore 0 V} {S : Finset Bytes}
    (h : ∀ key, (kvs.find key).isSome → key ∈ S) :
    kvs.values = ∑ key ∈ S, ((kvs.find key).toList : Multiset V) := by
  have hsub : kvs.keys.toFinset ⊆ S := by
    intro key hkey
    exact h key (mem_keys.mp (List.mem_toFinset.mp hkey))
  rw [← Finset.sum_subset hsub]
  · rw [List.sum_toFinset _ kvs.keys_nodup, values]
    induction kvs.keys with
    | nil => rfl
    | cons key keys ih =>
        rw [List.map_cons, List.sum_cons, ← ih, ← Multiset.cons_coe, Multiset.filterMap_cons]
        cases kvs.find key <;> rfl
  · intro key _ hkey
    rw [List.mem_toFinset, mem_keys] at hkey
    rw [Option.not_isSome_iff_eq_none.mp hkey]
    rfl

/-- One entry is changed: its old value is no longer there, its new one is. -/
theorem values_update {kvs kvs' : KvStore 0 V} {key : Bytes} {o : Option V}
    (h : kvs'.find = Function.update kvs.find key o) :
    ((kvs.find key).toList : Multiset V) + kvs'.values = (o.toList : Multiset V) + kvs.values := by
  have hS : ∀ k, (kvs.find k).isSome → k ∈ insert key kvs.keys.toFinset :=
    fun k hk ↦ Finset.mem_insert_of_mem (List.mem_toFinset.mpr (mem_keys.mpr hk))
  have hS' : ∀ k, (kvs'.find k).isSome → k ∈ insert key kvs.keys.toFinset := by
    intro k hk
    by_cases hkey : k = key
    · rw [hkey]
      exact Finset.mem_insert_self _ _
    · rw [h, Function.update_of_ne hkey] at hk
      exact hS k hk
  -- the other keys have the values they had
  have hrest : ∑ k ∈ (insert key kvs.keys.toFinset).erase key, ((kvs'.find k).toList : Multiset V) =
      ∑ k ∈ (insert key kvs.keys.toFinset).erase key, ((kvs.find k).toList : Multiset V) := by
    apply Finset.sum_congr rfl
    intro k hk
    rw [h, Function.update_of_ne (Finset.ne_of_mem_erase hk)]
  have hself : kvs'.find key = o := by rw [h, Function.update_self]
  rw [values_eq_sum hS, values_eq_sum hS', ← Finset.add_sum_erase _ _ (Finset.mem_insert_self _ _),
    ← Finset.add_sum_erase _ _ (Finset.mem_insert_self _ _), hrest, hself, add_left_comm]

/-! ## Entering keys -/

variable [Inhabited V]

/-- A new key is entered and counted; its value is set next. -/
theorem dictAddRaw_new (kvs : KvStore 0 V) {key : Bytes} (h : kvs.find key = none) :
    ∃ kvs', kvs.dictAddRaw 0 key = .ok (true, kvs') ∧
      kvs'.find = Function.update kvs.find key (some default) ∧ (kvs.Counted → kvs'.Counted) := by
  -- the dictionary the key is entered into, and the store that holds it
  obtain ⟨kvs₁, d, hcreate, hd, hfind, hcount, hkeys⟩ : ∃ kvs₁ d,
      kvs.createDictIfNeeded 0 = (kvs₁, d) ∧ kvs₁.dicts 0 = some d ∧ kvs₁.find = kvs.find ∧
      kvs₁.keyCount = kvs.keyCount ∧ kvs.keys = d.keys := by
    cases hd : kvs.dicts 0 with
    | some d => exact ⟨kvs, d, by simp only [createDictIfNeeded, hd], hd, rfl, rfl, keys_of_some hd⟩
    | none =>
        refine ⟨{ kvs.setDict 0 ∅ with allocatedDicts := kvs.allocatedDicts + 1 }, ∅,
          by simp only [createDictIfNeeded, hd], kvs.setDict_dicts ∅, ?_, rfl, ?_⟩
        · rw [find_of_none hd]
          exact find_of_some (d := ∅) (kvs.setDict_dicts ∅)
        · rw [keys, hd]
          rfl
  have hmem : key ∉ d := (find_eq_none_iff hd).mp (by rw [hfind, h])
  obtain ⟨kvs', hok, hdicts, hcount'⟩ := setDict_cumulative kvs₁ (d.insert key default) 1
  refine ⟨kvs', ?_, ?_, ?_⟩
  · simp only [dictAddRaw, hcreate, if_neg hmem, hok]
    rfl
  · rw [find_of_some hdicts, lookup_insert_eq_update, ← find_of_some hd, hfind]
  · intro hc
    have hlen := length_keys_insert_of_notMem hmem (default : V)
    rw [Counted, hkeys] at hc
    rw [Counted, keys_of_some hdicts, hcount', hcount]
    omega

/-- Whatever the count was, a new key adds one. -/
theorem dictAddRaw_keyCount {kvs kvs' : KvStore 0 V} {key : Bytes}
    (h : kvs.dictAddRaw 0 key = .ok (true, kvs')) : kvs'.keyCount = kvs.keyCount + 1 := by
  have hcreate : (kvs.createDictIfNeeded 0).1.keyCount = kvs.keyCount := by
    unfold createDictIfNeeded
    split <;> rfl
  unfold dictAddRaw at h
  dsimp only at h
  split at h
  · cases h
  · obtain ⟨kvs₁, hadd, h⟩ := Run.bind_eq_ok.mp h
    cases h
    obtain ⟨kvs₂, hadd', -, hcount⟩ := setDict_cumulative (kvs.createDictIfNeeded 0).1
      ((kvs.createDictIfNeeded 0).2.insert key default) 1
    rw [hadd'] at hadd
    cases hadd
    rw [hcount, hcreate]
    rfl

/-- A new key is entered, and then its value is set. -/
theorem dictAddRaw_dictSetVal (kvs : KvStore 0 V) {key : Bytes} (h : kvs.find key = none) :
    ∃ kvs', kvs.dictAddRaw 0 key = .ok (true, kvs') ∧
      ∀ v, (kvs'.dictSetVal 0 key v).find = Function.update kvs.find key (some v) := by
  obtain ⟨kvs', hadd, hfind, -⟩ := kvs.dictAddRaw_new h
  refine ⟨kvs', hadd, ?_⟩
  intro v
  rw [(kvs'.dictSetVal_find (by rw [hfind, Function.update_self]; rfl) v).1, hfind,
    Function.update_idem]

/-- A key that is there is not entered again. -/
theorem dictAddRaw_existing {kvs : KvStore 0 V} {key : Bytes} (h : (kvs.find key).isSome) :
    kvs.dictAddRaw 0 key = .ok (false, kvs) := by
  cases hd : kvs.dicts 0 with
  | none => rw [find_of_none hd] at h; cases h
  | some d =>
      rw [find_of_some hd] at h
      simp only [dictAddRaw, createDictIfNeeded, hd, if_pos (AList.lookup_isSome.mp h)]

end KvStore

end LatteRedis
