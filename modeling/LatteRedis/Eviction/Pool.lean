import LatteRedis.Foundation.Best
import LatteRedis.Foundation.Memory
import LatteRedis.Foundation.Run
import LatteRedis.Library

/-!
# The eviction pool (`evict.c`)

The pool is an array of candidates for eviction, in the order of how long they have been
idle.  Keys are sampled from a database, and each is entered in its place if it is better than
the worst there is; the entries on one side of the place are moved by one slot.

Every slot has a buffer of its own, so that short keys can be copied without an allocation.
Slots are moved as a whole, key, buffer and all.  What is moved over is a slot whose key is
gone, but whose buffer is still needed, and the new entry gets it.

`Shows` says what a pool stands for: the list of its candidates, with every pointer in the
slots owned by one of them.  `offerSample_ok` says that a sample does to that list what
`Best.offer` does, and `populates_iff` for which samples the keys in the list are
the ones that were sampled: a key's length is taken as an `int`.
-/

namespace LatteRedis

open ByteString Best Memory

/-- An sds with room for `alloc` bytes; its length is that of `buf`. -/
structure SdsBlock where
  alloc : Nat
  buf : Bytes
deriving DecidableEq, Repr

/-- `eviction_pool_entry_t`; `key` and `cached` are addresses, and `NULL` is `none`. -/
structure EvictionPoolEntry where
  idle : Nat
  key : Option Nat
  cached : Nat
  dbid : Int
deriving DecidableEq, Repr

/-- The array, and the strings its slots point to. -/
structure EvictionPool where
  slots : List EvictionPoolEntry
  heap : Heap SdsBlock

def evpoolSize : Nat := 16
def evpoolCachedSdsSize : Nat := 255

/-- One turn of the loop of `eviction_pool_alloc`. -/
def evictionPoolAllocSlot (pool : EvictionPool) : EvictionPool :=
  let (heap, cached) := pool.heap.alloc ⟨evpoolCachedSdsSize, List.replicate evpoolCachedSdsSize 0⟩
  { slots := pool.slots ++ [⟨0, none, cached, 0⟩], heap := heap }

def evictionPoolAlloc (heap : Heap SdsBlock) : EvictionPool :=
  (List.range evpoolSize).foldl (fun pool _ ↦ evictionPoolAllocSlot pool) ⟨[], heap⟩

/-- A sampled key and its score. -/
structure Sample where
  key : Bytes
  idle : Nat
deriving DecidableEq, Repr

/-! ## The function -/

/-- `memmove(l + dst, l + src, n)`, in elements. -/
def memmove {α : Type} (l : List α) (dst src n : Nat) : List α :=
  l.take dst ++ (l.drop src).take n ++ l.drop (dst + n)

/-- `memcpy(cached, key, klen + 1)` and `sds_set_len(cached, klen)`.  A negative length is one
of almost 2⁶⁴ bytes. -/
def copyKey (heap : Heap SdsBlock) (cached : Nat) (key : Bytes) (klen : Int) :
    Except Fault (Heap SdsBlock) :=
  match heap.read cached with
  | none => .error .badPointer
  | some block =>
      if klen < 0 ∨ block.alloc < klen then .error .badPointer
      else match heap.write cached { block with buf := key.take klen.toNat } with
      | none => .error .badPointer
      | some heap => .ok heap

/-- The end of an iteration: the sample is written to the slot `k`. -/
def fillSlot (dbid : Int) (pool : EvictionPool) (k : Nat) (sample : Sample) :
    Except Fault EvictionPool :=
  match pool.slots[k]? with
  | none => .error .badPointer
  | some slot =>
      let klen := wrap32 sample.key.length
      if klen > evpoolCachedSdsSize then
        let (heap, key) := pool.heap.alloc ⟨sample.key.length, sample.key⟩
        .ok { slots := pool.slots.set k ⟨sample.idle, some key, slot.cached, dbid⟩, heap := heap }
      else do
        let heap ← copyKey pool.heap slot.cached sample.key klen
        return { slots := pool.slots.set k ⟨sample.idle, some slot.cached, slot.cached, dbid⟩
                 heap := heap }

/-- The statement `pool[k].cached = cached`. -/
def setCached (slots : List EvictionPoolEntry) (k cached : Nat) : List EvictionPoolEntry :=
  slots.modify k fun slot ↦ { slot with cached := cached }

/-- `sds_delete(pool[0].key)`, unless that is the buffer of the slot. -/
def deleteKey (heap : Heap SdsBlock) (slot : EvictionPoolEntry) : Except Fault (Heap SdsBlock) :=
  match slot.key with
  | none => .ok heap
  | some key =>
      if key = slot.cached then .ok heap
      else match heap.free key with
      | none => .error .badPointer
      | some heap => .ok heap

/-- The loop that looks for the place of a score. -/
def findSlot (slots : List EvictionPoolEntry) (idle : Nat) : Nat :=
  (slots.takeWhile fun slot ↦ slot.key.isSome ∧ slot.idle < idle).length

/-- One iteration of `eviction_pool_populate`. -/
def offerSample (dbid : Int) (pool : EvictionPool) (sample : Sample) : Except Fault EvictionPool :=
  let k := findSlot pool.slots sample.idle
  match pool.slots[0]?, pool.slots[evpoolSize - 1]? with
  | some first, some last =>
      if k = 0 ∧ last.key ≠ none then .ok pool
      else if k < evpoolSize ∧ pool.slots[k]?.map EvictionPoolEntry.key = some none then
        fillSlot dbid pool k sample
      else if last.key = none then
        -- there is room at the right
        let slots := memmove pool.slots (k + 1) k (evpoolSize - k - 1)
        fillSlot dbid { pool with slots := setCached slots k last.cached } k sample
      else do
        -- the worst one goes
        let k := k - 1
        let heap ← deleteKey pool.heap first
        let slots := memmove pool.slots 0 1 k
        fillSlot dbid { slots := setCached slots k first.cached, heap := heap } k sample
  | _, _ => .error .badPointer

/-- `eviction_pool_populate`, for the keys that were sampled and their scores. -/
def evictionPoolPopulate (dbid : Int) (pool : EvictionPool) (samples : List Sample) :
    Except Fault EvictionPool :=
  samples.foldlM (offerSample dbid) pool

/-! ## What a pool stands for -/

/-- A key that may be evicted. -/
structure Candidate where
  key : Bytes
  idle : Nat
  dbid : Int
deriving DecidableEq, Repr

namespace EvictionPoolEntry

/-- The strings that belong to a slot: its buffer, and its key if that is another one. -/
def pointers (slot : EvictionPoolEntry) : List Nat :=
  slot.cached :: (slot.key.filter fun key ↦ key ≠ slot.cached).toList

theorem mem_pointers {slot : EvictionPoolEntry} {p : Nat} :
    p ∈ slot.pointers ↔ p = slot.cached ∨ slot.key = some p := by
  unfold pointers
  rw [List.mem_cons, Option.mem_toList, Option.filter_eq_some_iff, decide_eq_true_iff]
  constructor
  · rintro (h | ⟨h, -⟩)
    · exact .inl h
    · exact .inr h
  · rintro (h | h)
    · exact .inl h
    · by_cases hp : p = slot.cached
      · exact .inl hp
      · exact .inr ⟨h, hp⟩

theorem nodup_pointers (slot : EvictionPoolEntry) : slot.pointers.Nodup := by
  unfold pointers
  refine List.nodup_cons.mpr ⟨?_, Option.toList_nodup _⟩
  simp

/-- The slot holds the candidate. -/
def Holds (heap : Heap SdsBlock) (slot : EvictionPoolEntry) (c : Candidate) : Prop :=
  slot.idle = c.idle ∧ slot.dbid = c.dbid ∧
    ∃ key block, slot.key = some key ∧ heap.read key = some block ∧ block.buf = c.key

/-- The buffer of the slot is there, and long enough for a short key. -/
def HasRoom (heap : Heap SdsBlock) (slot : EvictionPoolEntry) : Prop :=
  ∃ block, heap.read slot.cached = some block ∧ evpoolCachedSdsSize ≤ block.alloc

end EvictionPoolEntry

open EvictionPoolEntry

/-- The first slots of the pool hold the candidates in `l`, and the keys of the others are
`NULL`. -/
structure EvictionPool.Splits (pool : EvictionPool) (l : List Candidate)
    (used free : List EvictionPoolEntry) : Prop where
  slots_eq : pool.slots = used ++ free
  holds : List.Forall₂ (Holds pool.heap) used l
  free_none : ∀ slot ∈ free, slot.key = none

/-- The pool stands for the candidates in `l`, and no string belongs to two of its slots. -/
structure EvictionPool.Shows (pool : EvictionPool) (l : List Candidate) : Prop where
  length_eq : pool.slots.length = evpoolSize
  splits : ∃ used free, pool.Splits l used free
  distinct : (pool.slots.flatMap pointers).Nodup
  room : ∀ slot ∈ pool.slots, slot.HasRoom pool.heap

variable {dbid : Int} {pool : EvictionPool} {sample : Sample} {slot d : EvictionPoolEntry}
  {slots used free front back : List EvictionPoolEntry} {l l₁ l₂ : List Candidate} {c : Candidate}
  {heap heap₁ heap' : Heap SdsBlock} {k : Nat}

/-- A slot that holds a candidate or none has its strings. -/
theorem EvictionPoolEntry.pointers_live (hroom : slot.HasRoom heap)
    (hkey : slot.key = none ∨ ∃ c, slot.Holds heap c) {p : Nat} (hp : p ∈ slot.pointers) :
    ∃ block, heap.read p = some block := by
  rcases mem_pointers.mp hp with rfl | hp
  · obtain ⟨block, hread, -⟩ := hroom
    exact ⟨block, hread⟩
  · rcases hkey with hnone | ⟨c, -, -, key, block, hkey, hread, -⟩
    · rw [hnone] at hp
      cases hp
    · rw [hkey] at hp
      cases hp
      exact ⟨block, hread⟩

/-- What a slot holds and its room depend on its strings only. -/
theorem EvictionPoolEntry.Holds.of_read (h : slot.Holds heap c)
    (hkept : ∀ p ∈ slot.pointers, ∀ block, heap.read p = some block → heap'.read p = some block) :
    slot.Holds heap' c := by
  obtain ⟨hidle, hdbid, key, block, hkey, hread, hbuf⟩ := h
  exact ⟨hidle, hdbid, key, block, hkey, hkept key (mem_pointers.mpr (.inr hkey)) block hread, hbuf⟩

theorem EvictionPoolEntry.HasRoom.of_read (h : slot.HasRoom heap)
    (hkept : ∀ p ∈ slot.pointers, ∀ block, heap.read p = some block → heap'.read p = some block) :
    slot.HasRoom heap' := by
  obtain ⟨block, hread, halloc⟩ := h
  exact ⟨block, hkept slot.cached (mem_pointers.mpr (.inl rfl)) block hread, halloc⟩

/-- Slots in a row, likewise. -/
theorem holds_of_read (h : List.Forall₂ (Holds heap) slots l)
    (hkept : ∀ slot ∈ slots, ∀ p ∈ slot.pointers, ∀ block,
      heap.read p = some block → heap'.read p = some block) :
    List.Forall₂ (Holds heap') slots l := by
  induction h with
  | nil => exact .nil
  | cons hslot _ ih =>
      exact .cons (hslot.of_read (hkept _ List.mem_cons_self))
        (ih fun slot hslot ↦ hkept slot (List.mem_cons_of_mem _ hslot))

theorem exists_holds (h : List.Forall₂ (Holds heap) slots l) :
    ∀ slot ∈ slots, ∃ c, slot.Holds heap c := by
  induction h with
  | nil => simp
  | cons hslot _ ih => exact List.forall_mem_cons.mpr ⟨⟨_, hslot⟩, ih⟩

/-! ## A new pool -/

/-- The loop of `eviction_pool_alloc` after `n` turns: each slot has a buffer, and no key. -/
structure EvictionPool.Allocated (pool : EvictionPool) (n : Nat) : Prop where
  length_eq : pool.slots.length = n
  key_none : ∀ slot ∈ pool.slots, slot.key = none
  distinct : (pool.slots.flatMap pointers).Nodup
  room : ∀ slot ∈ pool.slots, slot.HasRoom pool.heap

theorem EvictionPool.Allocated.turn {n : Nat} (h : pool.Allocated n) :
    (evictionPoolAllocSlot pool).Allocated (n + 1) := by
  obtain ⟨hlen, hnone, hdistinct, hroom⟩ := h
  unfold evictionPoolAllocSlot
  constructor
  · rw [List.length_append, hlen, List.length_singleton]
  · intro slot hslot
    rcases List.mem_append.mp hslot with hslot | hslot
    · exact hnone slot hslot
    · rw [List.mem_singleton.mp hslot]
  · rw [List.flatMap_append, List.flatMap_singleton]
    refine List.nodup_append.mpr ⟨hdistinct, nodup_pointers _, ?_⟩
    rintro p hp q hq rfl
    -- the buffers that were there are allocated, and the new one was not
    obtain ⟨slot, hslot, hp⟩ := List.mem_flatMap.mp hp
    obtain ⟨block, hread⟩ := pointers_live (hroom slot hslot) (.inl (hnone slot hslot)) hp
    rw [List.mem_singleton.mp hq, Heap.read_alloc_fresh] at hread
    cases hread
  · intro slot hslot
    rcases List.mem_append.mp hslot with hslot | hslot
    · exact (hroom slot hslot).of_read fun p _ block hread ↦ Heap.read_alloc hread _
    · rw [List.mem_singleton.mp hslot]
      exact ⟨_, Heap.read_alloc_self _ _, Nat.le_refl _⟩

theorem EvictionPool.Allocated.turns {n : Nat} (h : pool.Allocated n) (turns : List Nat) :
    (turns.foldl (fun pool _ ↦ evictionPoolAllocSlot pool) pool).Allocated (n + turns.length) := by
  induction turns generalizing pool n with
  | nil => exact h
  | cons turn turns ih =>
      have hrest := ih h.turn
      rwa [Nat.add_assoc, Nat.add_comm 1, ← List.length_cons (a := turn)] at hrest

theorem evictionPoolAlloc_allocated (heap : Heap SdsBlock) :
    (evictionPoolAlloc heap).Allocated evpoolSize := by
  have hempty : (⟨[], heap⟩ : EvictionPool).Allocated 0 := ⟨rfl, by simp, List.nodup_nil, by simp⟩
  have hturns := hempty.turns (List.range evpoolSize)
  rwa [List.length_range, Nat.zero_add] at hturns

/-- A new pool stands for no candidates. -/
theorem evictionPoolAlloc_shows (heap : Heap SdsBlock) : (evictionPoolAlloc heap).Shows [] := by
  obtain ⟨hlen, hnone, hdistinct, hroom⟩ := evictionPoolAlloc_allocated heap
  exact ⟨hlen, ⟨[], _, (List.nil_append _).symm, .nil, hnone⟩, hdistinct, hroom⟩

/-! ## A new entry -/

/-- A pool has all strings its slots point to. -/
theorem EvictionPool.Shows.pointers_live (h : pool.Shows l) (hslot : slot ∈ pool.slots) {p : Nat}
    (hp : p ∈ slot.pointers) : ∃ block, pool.heap.read p = some block := by
  obtain ⟨used, free, hslots, hholds, hnone⟩ := h.splits
  refine EvictionPoolEntry.pointers_live (h.room slot hslot) ?_ hp
  rw [hslots] at hslot
  rcases List.mem_append.mp hslot with hused | hfree
  · exact .inr (exists_holds hholds slot hused)
  · exact .inl (hnone slot hfree)

/-- The slots other than `d`: they have their strings, and none of these belongs to another
slot. -/
structure Others (heap : Heap SdsBlock) (d : EvictionPoolEntry) (others : List EvictionPoolEntry) :
    Prop where
  room : ∀ slot ∈ others, slot.HasRoom heap
  live : ∀ slot ∈ others, ∀ p ∈ slot.pointers, ∃ block, heap.read p = some block
  foreign : ∀ slot ∈ others, ∀ p ∈ slot.pointers, p ∉ d.pointers
  distinct : (others.flatMap pointers).Nodup

theorem EvictionPool.Shows.others {others : List EvictionPoolEntry} (h : pool.Shows l)
    (hperm : pool.slots.Perm (d :: others)) : Others pool.heap d others := by
  have hmem : ∀ slot ∈ others, slot ∈ pool.slots := fun slot hslot ↦
    hperm.symm.subset (List.mem_cons_of_mem d hslot)
  have hnodup : (d.pointers ++ others.flatMap pointers).Nodup := by
    rw [← List.flatMap_cons]
    exact (hperm.flatMap_right pointers).nodup_iff.mp h.distinct
  obtain ⟨-, hothers, hdisjoint⟩ := List.nodup_append.mp hnodup
  constructor
  · exact fun slot hslot ↦ h.room slot (hmem slot hslot)
  · exact fun slot hslot p hp ↦ h.pointers_live (hmem slot hslot) hp
  · intro slot hslot p hp hd
    exact hdisjoint p hd p (List.mem_flatMap.mpr ⟨slot, hslot, hp⟩) rfl
  · exact hothers

/-- Between `heap` and `heap₁` the strings of `d` may change, and from there to `heap'` its
buffer. -/
structure Rewrites (d : EvictionPoolEntry) (heap heap₁ heap' : Heap SdsBlock) : Prop where
  first : ∀ p, p ∉ d.pointers → ∀ block, heap.read p = some block → heap₁.read p = some block
  second : ∀ p, p ≠ d.cached → ∀ block, heap₁.read p = some block → heap'.read p = some block

theorem Others.kept {others : List EvictionPoolEntry} (h : Others heap d others)
    (hheap : Rewrites d heap heap₁ heap') :
    ∀ slot ∈ others, ∀ p ∈ slot.pointers, ∀ block,
      heap.read p = some block → heap'.read p = some block := by
  intro slot hslot p hp block hread
  have hforeign := h.foreign slot hslot p hp
  refine hheap.second p ?_ block (hheap.first p hforeign block hread)
  rintro rfl
  exact hforeign (mem_pointers.mpr (.inl rfl))

/-- A slot with the buffer of `d`, and with a key that is in that buffer or was not there. -/
theorem Others.distinct_cons {others : List EvictionPoolEntry} {new : EvictionPoolEntry}
    (h : Others heap d others) (hheap : Rewrites d heap heap₁ heap')
    (hcached : new.cached = d.cached)
    (hkey : ∀ key, new.key = some key → key = new.cached ∨ heap₁.read key = none) :
    ((new :: others).flatMap pointers).Nodup := by
  rw [List.flatMap_cons, List.nodup_append]
  refine ⟨new.nodup_pointers, h.distinct, ?_⟩
  rintro p hp q hq rfl
  obtain ⟨slot, hslot, hq⟩ := List.mem_flatMap.mp hq
  have hforeign := h.foreign slot hslot p hq
  have hcase : p = d.cached ∨ heap₁.read p = none := by
    rcases mem_pointers.mp hp with rfl | hp
    · exact .inl hcached
    · rw [← hcached]
      exact hkey p hp
  rcases hcase with rfl | hnone
  · exact hforeign (mem_pointers.mpr (.inl rfl))
  · -- the strings of the other slots are there
    obtain ⟨block, hread⟩ := h.live slot hslot p hq
    rw [hheap.first p hforeign block hread] at hnone
    cases hnone

/-- **A new entry.**  The slot `d` is given up, and its buffer goes to a new slot somewhere among
the others. -/
theorem EvictionPool.Shows.replace {new : EvictionPoolEntry}
    (h : (⟨slots, heap⟩ : EvictionPool).Shows l)
    (hperm : slots.Perm (d :: (front ++ (back ++ free))))
    (hfront : List.Forall₂ (Holds heap) front l₁) (hback : List.Forall₂ (Holds heap) back l₂)
    (hfree : ∀ slot ∈ free, slot.key = none) (hheap : Rewrites d heap heap₁ heap')
    (hnew : new.Holds heap' c) (hcached : new.cached = d.cached) (hroom : new.HasRoom heap')
    (hkey : ∀ key, new.key = some key → key = new.cached ∨ heap₁.read key = none) :
    (⟨front ++ new :: (back ++ free), heap'⟩ : EvictionPool).Shows (l₁ ++ c :: l₂) := by
  have hothers : Others heap d (front ++ (back ++ free)) := h.others hperm
  have hkept := hothers.kept hheap
  have hmoved : (front ++ new :: (back ++ free)).Perm (new :: (front ++ (back ++ free))) :=
    List.perm_middle
  constructor
  · rw [← h.length_eq, hmoved.length_eq]
    exact hperm.length_eq.symm
  · refine ⟨front ++ new :: back, free, by simp, ?_, hfree⟩
    refine List.rel_append ?_ (.cons hnew ?_)
    · exact holds_of_read hfront fun slot hslot ↦ hkept slot (by simp [hslot])
    · exact holds_of_read hback fun slot hslot ↦ hkept slot (by simp [hslot])
  · rw [(hmoved.flatMap_right pointers).nodup_iff]
    exact hothers.distinct_cons hheap hcached hkey
  · intro slot hslot
    rcases List.mem_cons.mp (hmoved.subset hslot) with rfl | hslot
    · exact hroom
    · exact (hothers.room slot hslot).of_read (hkept slot hslot)

/-! ## Filling a slot -/

/-- The bytes that are kept of a key: its length is taken as an `int`. -/
def storedKey (key : Bytes) : Bytes :=
  if wrap32 key.length > evpoolCachedSdsSize then key else key.take (wrap32 key.length).toNat

/-- `copyKey`, for a length a buffer has room for. -/
theorem copyKey_ok {cached : Nat} {block : SdsBlock} (hread : heap.read cached = some block)
    (hroom : evpoolCachedSdsSize ≤ block.alloc) (key : Bytes) {klen : Int} (h₀ : 0 ≤ klen)
    (hklen : klen ≤ evpoolCachedSdsSize) :
    ∃ heap', copyKey heap cached key klen = .ok heap' ∧
      heap'.read cached = some { block with buf := key.take klen.toNat } ∧
      ∀ p, p ≠ cached → heap'.read p = heap.read p := by
  obtain ⟨heap', hwrite, hself, hothers⟩ :=
    Heap.write_ok hread { block with buf := key.take klen.toNat }
  refine ⟨heap', ?_, hself, hothers⟩
  unfold copyKey
  rw [hread]
  dsimp only
  rw [if_neg (by omega), hwrite]

/-- The slot is filled, and but for its buffer everything is where it was. -/
theorem fillSlot_ok (dbid : Int) (hslot : pool.slots[k]? = some slot) (hroom : slot.HasRoom pool.heap)
    (hklen : 0 ≤ wrap32 sample.key.length) :
    ∃ key heap', fillSlot dbid pool k sample =
        .ok ⟨pool.slots.set k ⟨sample.idle, some key, slot.cached, dbid⟩, heap'⟩ ∧
      Holds heap' ⟨sample.idle, some key, slot.cached, dbid⟩
        ⟨storedKey sample.key, sample.idle, dbid⟩ ∧
      HasRoom heap' ⟨sample.idle, some key, slot.cached, dbid⟩ ∧
      (key = slot.cached ∨ pool.heap.read key = none) ∧
      ∀ p, p ≠ slot.cached → ∀ block, pool.heap.read p = some block → heap'.read p = some block := by
  obtain ⟨block, hread, halloc⟩ := hroom
  unfold fillSlot storedKey
  rw [hslot]
  dsimp only
  split
  · -- a string of its own
    refine ⟨_, _, rfl, ⟨rfl, rfl, _, _, rfl, Heap.read_alloc_self _ _, rfl⟩, ?_, ?_, ?_⟩
    · exact ⟨block, Heap.read_alloc hread _, halloc⟩
    · exact .inr (Heap.read_alloc_fresh _ _)
    · intro p _ block' hp
      exact Heap.read_alloc hp _
  · next hshort =>
      obtain ⟨heap', hcopy, hself, hothers⟩ :=
        copyKey_ok hread halloc sample.key hklen (Int.not_lt.mp hshort)
      refine ⟨slot.cached, heap', by rw [hcopy]; rfl, ⟨rfl, rfl, _, _, rfl, hself, rfl⟩, ?_, .inl rfl, ?_⟩
      · exact ⟨_, hself, halloc⟩
      · intro p hp block' hp'
        rw [hothers p hp, hp']

/-- A negative length cannot be copied. -/
theorem fillSlot_error (hklen : wrap32 sample.key.length < 0) :
    ∃ f, fillSlot dbid pool k sample = .error f := by
  unfold fillSlot
  cases hslot : pool.slots[k]? with
  | none => exact ⟨_, rfl⟩
  | some slot =>
      dsimp only
      have hshort : ¬ wrap32 sample.key.length > evpoolCachedSdsSize := by omega
      rw [if_neg hshort]
      unfold copyKey
      cases pool.heap.read slot.cached with
      | none => exact ⟨_, rfl⟩
      | some block =>
          dsimp only
          rw [if_pos (.inl hklen)]
          exact ⟨_, rfl⟩

/-! ## Making room -/

theorem memmove_right {α : Type} (front rest : List α) (x last : α) :
    memmove (front ++ (x :: rest ++ [last])) (front.length + 1) front.length (rest.length + 1) =
      front ++ x :: (x :: rest) := by
  have hbefore : (front ++ (x :: rest ++ [last])).take (front.length + 1) = front ++ [x] := by
    rw [List.take_append]
    simp
  have hmoved : ((front ++ (x :: rest ++ [last])).drop front.length).take (rest.length + 1) =
      x :: rest := by
    rw [List.drop_left]
    exact List.take_left' rfl
  have hbehind : (front ++ (x :: rest ++ [last])).drop (front.length + 1 + (rest.length + 1)) = [] :=
    List.drop_eq_nil_of_le (by simp; omega)
  unfold memmove
  rw [hbefore, hmoved, hbehind]
  simp

theorem memmove_left {α : Type} (first : α) (front rest : List α) :
    ∃ x, memmove (first :: (front ++ rest)) 0 1 front.length = front ++ x :: rest := by
  have hlen : (first :: (front ++ rest)).drop front.length =
      ((first :: front).drop front.length) ++ rest := by
    rw [← List.cons_append, List.drop_append_of_le_length (by simp)]
  obtain ⟨x, hx⟩ : ∃ x, (first :: front).drop front.length = [x] :=
    List.length_eq_one_iff.mp (by simp)
  refine ⟨x, ?_⟩
  unfold memmove
  rw [List.drop_one, List.tail_cons, List.take_left, Nat.zero_add, hlen, hx]
  simp

theorem setCached_append (front rest : List EvictionPoolEntry) (x : EvictionPoolEntry) (cached : Nat) :
    setCached (front ++ x :: rest) front.length cached =
      front ++ { x with cached := cached } :: rest := by
  unfold setCached
  induction front with
  | nil => rfl
  | cons slot front ih => rw [List.cons_append, List.length_cons, List.modify_succ_cons, ih]; rfl

/-- The place of a score in the slots is its place in the list. -/
theorem findSlot_eq (hused : List.Forall₂ (Holds heap) used l) (hfree : ∀ slot ∈ free, slot.key = none)
    (idle : Nat) : findSlot (used ++ free) idle = (l.takeWhile fun c ↦ c.idle < idle).length := by
  induction hused with
  | nil =>
      cases free with
      | nil => rfl
      | cons slot free =>
          unfold findSlot
          rw [List.nil_append, List.takeWhile_cons_of_neg (by simp [hfree slot])]
          rfl
  | @cons slot c used l hslot _ ih =>
      obtain ⟨hidle, -, key, block, hkey, -⟩ := hslot
      unfold findSlot at ih ⊢
      rw [List.cons_append, List.takeWhile_cons, List.takeWhile_cons, hidle, hkey]
      by_cases hlt : c.idle < idle
      · simp only [hlt, Option.isSome_some, and_self, decide_true, if_true, List.length_cons]
        rw [ih]
      · simp [hlt]

/-- Room was made: the slot `d` is given up, and one with its buffer stands behind `front`. -/
structure Opened (pool pool₁ : EvictionPool) (d slot : EvictionPoolEntry)
    (front back free : List EvictionPoolEntry) : Prop where
  perm : pool.slots.Perm (d :: (front ++ (back ++ free)))
  slots_eq : pool₁.slots = front ++ slot :: (back ++ free)
  cached_eq : slot.cached = d.cached
  free_none : ∀ slot ∈ free, slot.key = none
  kept : ∀ p, p ∉ d.pointers → ∀ block,
    pool.heap.read p = some block → pool₁.heap.read p = some block
  room : slot.HasRoom pool₁.heap

/-- Every candidate with this score ends up between `l₁` and `l₂`. -/
def Between (l l₁ l₂ : List Candidate) (idle : Nat) : Prop :=
  ∀ c : Candidate, c.idle = idle → offer Candidate.idle evpoolSize l c = l₁ ++ c :: l₂

theorem between_of_room (h : l.length < evpoolSize) (idle : Nat) :
    Between l (l.takeWhile fun c ↦ c.idle < idle) (l.dropWhile fun c ↦ c.idle < idle) idle := by
  rintro c rfl
  exact offer_of_room h c

theorem offerSample_eq {first last : EvictionPoolEntry} (hfirst : pool.slots[0]? = some first)
    (hlast : pool.slots[evpoolSize - 1]? = some last) (hk : findSlot pool.slots sample.idle = k) :
    offerSample dbid pool sample =
      if k = 0 ∧ last.key ≠ none then .ok pool
      else if k < evpoolSize ∧ pool.slots[k]?.map EvictionPoolEntry.key = some none then
        fillSlot dbid pool k sample
      else if last.key = none then
        fillSlot dbid ⟨setCached (memmove pool.slots (k + 1) k (evpoolSize - k - 1)) k last.cached,
          pool.heap⟩ k sample
      else deleteKey pool.heap first >>= fun heap ↦
        fillSlot dbid ⟨setCached (memmove pool.slots 0 1 (k - 1)) (k - 1) first.cached, heap⟩
          (k - 1) sample := by
  unfold offerSample
  rw [hfirst, hlast, hk]

/-- The keys of the used slots are not `NULL`. -/
theorem EvictionPool.Splits.key (h : pool.Splits l used free) (hk : k < used.length) :
    ∃ slot, pool.slots[k]? = some slot ∧ slot.key ≠ none := by
  have hslot : pool.slots[k]? = some used[k] := by
    rw [h.slots_eq, List.getElem?_append_left hk, List.getElem?_eq_getElem hk]
  refine ⟨used[k], hslot, ?_⟩
  obtain ⟨c, -, -, key, block, hkey, -⟩ := exists_holds h.holds _ (List.getElem_mem hk)
  rw [hkey]
  exact Option.some_ne_none key

theorem EvictionPool.Splits.findSlot_eq (h : pool.Splits l used free) (idle : Nat) :
    findSlot pool.slots idle = (l.takeWhile fun c ↦ c.idle < idle).length := by
  rw [h.slots_eq]
  exact LatteRedis.findSlot_eq h.holds h.free_none idle

/-- The place is behind some of the used slots. -/
theorem EvictionPool.Splits.findSlot_le (h : pool.Splits l used free) (idle : Nat) :
    findSlot pool.slots idle ≤ used.length := by
  rw [h.findSlot_eq, h.holds.length_eq]
  exact (List.takeWhile_sublist _).length_le

/-- The candidates on both sides of the place. -/
theorem EvictionPool.Splits.sides (h : pool.Splits l used free) (idle : Nat) :
    List.Forall₂ (Holds pool.heap) (used.take (findSlot pool.slots idle))
        (l.takeWhile fun c ↦ c.idle < idle) ∧
      List.Forall₂ (Holds pool.heap) (used.drop (findSlot pool.slots idle))
        (l.dropWhile fun c ↦ c.idle < idle) := by
  have hholds := h.holds
  rw [← List.takeWhile_append_dropWhile (p := fun c : Candidate ↦ c.idle < idle) (l := l)] at hholds
  rw [h.findSlot_eq]
  exact ⟨List.forall₂_take_append _ _ _ hholds, List.forall₂_drop_append _ _ _ hholds⟩

/-- The pool has a first and a last slot. -/
theorem EvictionPool.Shows.ends (h : pool.Shows l) :
    ∃ first last, pool.slots[0]? = some first ∧ pool.slots[evpoolSize - 1]? = some last := by
  have hpos : 0 < pool.slots.length := by
    rw [h.length_eq]
    decide
  have hlast : evpoolSize - 1 < pool.slots.length := by
    rw [h.length_eq]
    decide
  exact ⟨_, _, List.getElem?_eq_getElem hpos, List.getElem?_eq_getElem hlast⟩

/-- The last slot, if it is free. -/
theorem EvictionPool.Shows.last (h : pool.Shows l) (hsplit : pool.Splits l used (free ++ [d])) :
    pool.slots[evpoolSize - 1]? = some d ∧ d.key = none := by
  have hlen : evpoolSize - 1 = (used ++ free).length := by
    rw [← h.length_eq, hsplit.slots_eq]
    simp
  refine ⟨?_, hsplit.free_none d (by simp)⟩
  rw [hlen, hsplit.slots_eq, ← List.append_assoc]
  exact List.getElem?_concat_length

/-- There is a free slot at the place. -/
theorem offerSample_free (dbid : Int) (h : pool.Shows l) (hsplit : pool.Splits l used (slot :: free))
    (hk : findSlot pool.slots sample.idle = used.length) (hlast : pool.slots[evpoolSize - 1]? = some d)
    (hnone : d.key = none) :
    offerSample dbid pool sample = fillSlot dbid pool used.length sample ∧
      Opened pool pool slot slot used [] free := by
  obtain ⟨first, -, hfirst, -⟩ := h.ends
  have hlt : used.length < evpoolSize := by
    rw [← h.length_eq, hsplit.slots_eq, List.length_append, List.length_cons]
    omega
  have hat : pool.slots[used.length]? = some slot := by
    rw [hsplit.slots_eq, List.getElem?_append_right (Nat.le_refl _), Nat.sub_self]
    rfl
  have hkey : slot.key = none := hsplit.free_none slot List.mem_cons_self
  constructor
  · rw [offerSample_eq hfirst hlast hk, if_neg (by simp [hnone]), if_pos]
    exact ⟨hlt, by rw [hat, Option.map_some, hkey]⟩
  · constructor
    · rw [hsplit.slots_eq]
      exact List.perm_middle
    · exact hsplit.slots_eq
    · rfl
    · exact fun s hs ↦ hsplit.free_none s (List.mem_cons_of_mem _ hs)
    · exact fun _ _ _ ↦ id
    · exact h.room slot (List.mem_of_getElem? hat)

/-- A slot at the place is moved to the right with all behind it, over the last one. -/
theorem offerSample_right (dbid : Int) (h : pool.Shows l) (hsplit : pool.Splits l used (free ++ [d]))
    (hk : findSlot pool.slots sample.idle = k) (hlt : k < used.length) :
    ∃ pool₁ slot, offerSample dbid pool sample = fillSlot dbid pool₁ (used.take k).length sample ∧
      Opened pool pool₁ d slot (used.take k) (used.drop k) free := by
  obtain ⟨first, -, hfirst, -⟩ := h.ends
  obtain ⟨x, hx, hxkey⟩ := hsplit.key hlt
  have hlen : used.length + free.length + 1 = evpoolSize := by
    rw [← h.length_eq, hsplit.slots_eq]
    simp
    omega
  obtain ⟨hlast, hnone⟩ := h.last hsplit
  have hfront : (used.take k).length = k := List.length_take_of_le hlt.le
  obtain ⟨y, rest, hdrop⟩ : ∃ y rest, used.drop k = y :: rest :=
    List.exists_cons_of_length_pos (by rw [List.length_drop]; omega)
  have hslots : pool.slots = used.take k ++ (y :: (rest ++ free) ++ [d]) := by
    rw [hsplit.slots_eq]
    conv_lhs => rw [← List.take_append_drop k used, hdrop]
    simp
  have hcount : evpoolSize - k - 1 = (rest ++ free).length + 1 := by
    have := congrArg List.length hdrop
    rw [List.length_drop, List.length_cons] at this
    rw [List.length_append]
    omega
  refine ⟨⟨setCached (memmove pool.slots (k + 1) k (evpoolSize - k - 1)) k d.cached, pool.heap⟩,
    { y with cached := d.cached }, ?_, ?_⟩
  · rw [offerSample_eq hfirst hlast hk, if_neg (by simp [hnone]), if_neg, if_pos hnone, hfront]
    rintro ⟨-, hkey⟩
    rw [hx, Option.map_some, Option.some.injEq] at hkey
    exact hxkey hkey
  · have hmoved := memmove_right (used.take k) (rest ++ free) y d
    have hset := setCached_append (used.take k) (y :: (rest ++ free)) y d.cached
    rw [hfront] at hmoved hset
    constructor
    · rw [hsplit.slots_eq, ← List.append_assoc, ← List.append_assoc (used.take k),
        List.take_append_drop]
      exact List.perm_append_singleton d _
    · rw [hcount, hslots, hmoved, hset, hdrop]
      rfl
    · rfl
    · exact fun s hs ↦ hsplit.free_none s (List.mem_append_left _ hs)
    · exact fun _ _ _ ↦ id
    · exact h.room d (List.mem_of_getElem? hlast)

/-- The key of a slot goes, and its buffer stays. -/
theorem deleteKey_ok (hroom : slot.HasRoom heap) (hslot : slot.Holds heap c) :
    ∃ heap₁, deleteKey heap slot = .ok heap₁ ∧ slot.HasRoom heap₁ ∧
      ∀ p, p ∉ slot.pointers → heap₁.read p = heap.read p := by
  obtain ⟨-, -, key, block, hkey, hread, -⟩ := hslot
  unfold deleteKey
  rw [hkey]
  dsimp only
  by_cases heq : key = slot.cached
  · rw [if_pos heq]
    exact ⟨heap, rfl, hroom, fun _ _ ↦ rfl⟩
  · obtain ⟨heap₁, hfree, hothers⟩ := Heap.free_ok hread
    obtain ⟨buffer, hbuffer, halloc⟩ := hroom
    rw [if_neg heq, hfree]
    refine ⟨heap₁, rfl, ⟨buffer, ?_, halloc⟩, ?_⟩
    · rw [hothers slot.cached (Ne.symm heq), hbuffer]
    · intro p hp
      apply hothers
      rintro rfl
      exact hp (mem_pointers.mpr (.inr hkey))

/-- There is no room: the worst one goes, and those behind it are moved to the left. -/
theorem offerSample_left (dbid : Int) {first : EvictionPoolEntry} (h : pool.Shows l)
    (hsplit : pool.Splits l (first :: used) []) (hk : findSlot pool.slots sample.idle = k + 1) :
    ∃ pool₁ slot, offerSample dbid pool sample = fillSlot dbid pool₁ (used.take k).length sample ∧
      Opened pool pool₁ first slot (used.take k) (used.drop k) [] := by
  have hslots : pool.slots = first :: used := by rw [hsplit.slots_eq, List.append_nil]
  have hlen : used.length + 1 = evpoolSize := by rw [← h.length_eq, hslots, List.length_cons]
  have hfirst : pool.slots[0]? = some first := by rw [hslots]; rfl
  obtain ⟨last, hlast, hlastkey⟩ := hsplit.key (show evpoolSize - 1 < _ by rw [List.length_cons]; omega)
  have hle : k + 1 ≤ used.length + 1 := by
    rw [← hk]
    exact hsplit.findSlot_le sample.idle
  have hfront : (used.take k).length = k := List.length_take_of_le (by omega)
  have hmem : first ∈ pool.slots := List.mem_of_getElem? hfirst
  obtain ⟨c, hc⟩ := exists_holds hsplit.holds first List.mem_cons_self
  obtain ⟨heap₁, hdelete, hroom, hothers⟩ := deleteKey_ok (h.room first hmem) hc
  obtain ⟨x, hmoved⟩ := memmove_left first (used.take k) (used.drop k)
  rw [hfront, List.take_append_drop, ← hslots] at hmoved
  refine ⟨⟨setCached (memmove pool.slots 0 1 k) k first.cached, heap₁⟩,
    { x with cached := first.cached }, ?_, ?_⟩
  · rw [offerSample_eq hfirst hlast hk, if_neg (by omega), if_neg, if_neg hlastkey, hdelete,
      Run.ok_bind, hfront, Nat.add_sub_cancel]
    rintro ⟨hin, hkey⟩
    obtain ⟨slot, hslot, hslotkey⟩ := hsplit.key (show k + 1 < _ by rw [List.length_cons]; omega)
    rw [hslot, Option.map_some, Option.some.injEq] at hkey
    exact hslotkey hkey
  · have hset := setCached_append (used.take k) (used.drop k) x first.cached
    rw [hfront] at hset
    constructor
    · rw [hslots, List.append_nil, List.take_append_drop]
    · rw [hmoved, hset, List.append_nil]
    · rfl
    · simp
    · intro p hp block hread
      rw [hothers p hp, hread]
    · exact hroom

/-! ## One sample -/

theorem EvictionPool.Shows.length_add (h : pool.Shows l) (hsplit : pool.Splits l used free) :
    l.length + free.length = evpoolSize := by
  rw [← h.length_eq, hsplit.slots_eq, List.length_append, hsplit.holds.length_eq]

theorem EvictionPool.Shows.length_le (h : pool.Shows l) : l.length ≤ evpoolSize := by
  obtain ⟨used, free, hsplit⟩ := h.splits
  have := h.length_add hsplit
  omega

/-- The sample is written to a slot that is opened for it, at the place of its score. -/
def Opens (dbid : Int) (pool : EvictionPool) (sample : Sample) (l : List Candidate) : Prop :=
  ∃ pool₁ d slot front back free l₁ l₂,
    offerSample dbid pool sample = fillSlot dbid pool₁ front.length sample ∧
    Opened pool pool₁ d slot front back free ∧ List.Forall₂ (Holds pool.heap) front l₁ ∧
    List.Forall₂ (Holds pool.heap) back l₂ ∧ Between l l₁ l₂ sample.idle

/-- The pool is full, and its first candidate is worse. -/
theorem opens_of_full (dbid : Int) (h : pool.Shows (c :: l)) (hsplit : pool.Splits (c :: l) used [])
    (hlt : c.idle < sample.idle) : Opens dbid pool sample (c :: l) := by
  have hsum : (c :: l).length = evpoolSize := h.length_add hsplit
  obtain ⟨hfront, hback⟩ := hsplit.sides sample.idle
  obtain ⟨first, used, hfirst, hrest, rfl⟩ := List.forall₂_cons_right_iff.mp hsplit.holds
  have htake : (c :: l).takeWhile (fun c ↦ c.idle < sample.idle) =
      c :: l.takeWhile fun c ↦ c.idle < sample.idle :=
    List.takeWhile_cons_of_pos (by simpa using hlt)
  have hdrop : (c :: l).dropWhile (fun c ↦ c.idle < sample.idle) =
      l.dropWhile fun c ↦ c.idle < sample.idle :=
    List.dropWhile_cons_of_pos (by simpa using hlt)
  have hk : findSlot pool.slots sample.idle =
      (l.takeWhile fun c ↦ c.idle < sample.idle).length + 1 := by
    rw [hsplit.findSlot_eq, htake, List.length_cons]
  obtain ⟨pool₁, slot, heq, hopened⟩ := offerSample_left dbid h hsplit hk
  rw [hk, List.take_succ_cons, htake, List.forall₂_cons] at hfront
  rw [hk, List.drop_succ_cons, hdrop] at hback
  refine ⟨pool₁, first, slot, _, _, [], _, _, heq, hopened, hfront.2, hback, ?_⟩
  intro c' hc'
  rw [offer_of_full hsum, hc', htake, hdrop]
  rfl

/-- The last slot is free. -/
theorem opens_of_room (dbid : Int) (sample : Sample) (h : pool.Shows l)
    (hsplit : pool.Splits l used (free ++ [d])) : Opens dbid pool sample l := by
  obtain ⟨hfront, hback⟩ := hsplit.sides sample.idle
  have hroom : l.length < evpoolSize := by
    have hsum := h.length_add hsplit
    rw [List.length_append, List.length_singleton] at hsum
    omega
  have hbetween := between_of_room hroom sample.idle
  rcases Nat.lt_or_ge (findSlot pool.slots sample.idle) used.length with hlt | hge
  · obtain ⟨pool₁, slot, heq, hopened⟩ := offerSample_right dbid h hsplit rfl hlt
    exact ⟨pool₁, d, slot, _, _, free, _, _, heq, hopened, hfront, hback, hbetween⟩
  · -- all there are are better
    have hk := Nat.le_antisymm (hsplit.findSlot_le sample.idle) hge
    obtain ⟨slot, free', hfree⟩ : ∃ slot free', free ++ [d] = slot :: free' :=
      List.exists_cons_of_length_pos (by simp)
    obtain ⟨hlast, hnone⟩ := h.last hsplit
    rw [hfree] at hsplit
    obtain ⟨heq, hopened⟩ := offerSample_free dbid h hsplit hk hlast hnone
    rw [hk, List.take_length] at hfront
    rw [hk, List.drop_length] at hback
    exact ⟨pool, slot, slot, used, [], free', _, _, heq, hopened, hfront, hback, hbetween⟩

/-- Whichever way room is made for a sample, it is made at the place of its score. -/
theorem offerSample_opens (dbid : Int) (h : pool.Shows l) (hc : c.idle = sample.idle)
    (henters : Enters Candidate.idle evpoolSize l c) : Opens dbid pool sample l := by
  obtain ⟨used, free, hsplit⟩ := h.splits
  rcases List.eq_nil_or_concat' free with rfl | ⟨free, last, rfl⟩
  · -- so there is something worse
    have hsum : l.length = evpoolSize := h.length_add hsplit
    obtain ⟨b, hhead, hlt⟩ := henters.resolve_left (by omega)
    obtain ⟨l, rfl⟩ := List.head?_eq_some_iff.mp hhead
    rw [hc] at hlt
    exact opens_of_full dbid h hsplit hlt
  · exact opens_of_room dbid sample h hsplit

/-- A sample that is no better than the worst of a full pool changes nothing. -/
theorem offerSample_skips (h : pool.Shows l) (hc : c.idle = sample.idle)
    (hskips : ¬ Enters Candidate.idle evpoolSize l c) : offerSample dbid pool sample = .ok pool := by
  obtain ⟨hfull, hworst⟩ := not_or.mp hskips
  obtain ⟨used, free, hsplit⟩ := h.splits
  have hsum := h.length_add hsplit
  obtain ⟨first, -, hfirst, -⟩ := h.ends
  have hused : used.length = evpoolSize := by
    rw [hsplit.holds.length_eq]
    omega
  obtain ⟨last, hlast, hlastkey⟩ := hsplit.key (show evpoolSize - 1 < _ by rw [hused]; decide)
  have hk : findSlot pool.slots sample.idle = 0 := by
    rw [hsplit.findSlot_eq]
    cases l with
    | nil => rfl
    | cons b l =>
        have hb : ¬ b.idle < sample.idle := fun hlt ↦ hworst ⟨b, rfl, hc ▸ hlt⟩
        rw [List.takeWhile_cons_of_neg (by simpa using hb)]
        rfl
  rw [offerSample_eq hfirst hlast hk, if_pos ⟨rfl, hlastkey⟩]

/-- **One sample.**  What is stored of the key takes its place among the candidates. -/
theorem offerSample_ok (h : pool.Shows l) (hc : c = ⟨storedKey sample.key, sample.idle, dbid⟩)
    (hklen : Enters Candidate.idle evpoolSize l c → 0 ≤ wrap32 sample.key.length) :
    ∃ pool', offerSample dbid pool sample = .ok pool' ∧
      pool'.Shows (offer Candidate.idle evpoolSize l c) := by
  have hidle : c.idle = sample.idle := by rw [hc]
  by_cases henters : Enters Candidate.idle evpoolSize l c
  · obtain ⟨pool₁, d, slot, front, back, free, l₁, l₂, heq, hopened, hfront, hback, hbetween⟩ :=
      offerSample_opens dbid h hidle henters
    have hslot : pool₁.slots[front.length]? = some slot := by
      rw [hopened.slots_eq, List.getElem?_append_right (Nat.le_refl _), Nat.sub_self]
      rfl
    obtain ⟨key, heap', hfill, hholds, hroom, hkey, hkept⟩ :=
      fillSlot_ok dbid hslot hopened.room (hklen henters)
    refine ⟨_, by rw [heq, hfill], ?_⟩
    rw [hbetween c hidle, hopened.slots_eq, List.set_append_right _ _ (Nat.le_refl _), Nat.sub_self,
      List.set_cons_zero]
    rw [hopened.cached_eq] at hkept
    refine h.replace hopened.perm hfront hback hopened.free_none ⟨hopened.kept, hkept⟩ (hc ▸ hholds)
      hopened.cached_eq hroom ?_
    intro p hp
    cases hp
    exact hkey
  · refine ⟨pool, offerSample_skips h hidle henters, ?_⟩
    rw [offer_of_not_enters h.length_le henters]
    exact h

theorem offerSample_error (dbid : Int) (h : pool.Shows l) (hc : c.idle = sample.idle)
    (henters : Enters Candidate.idle evpoolSize l c) (hklen : wrap32 sample.key.length < 0) :
    ∃ f, offerSample dbid pool sample = .error f := by
  obtain ⟨pool₁, d, slot, front, back, free, l₁, l₂, heq, -⟩ :=
    offerSample_opens dbid h hc henters
  rw [heq]
  exact fillSlot_error hklen

/-! ## All samples -/

/-- The candidate in a slot. -/
def EvictionPoolEntry.candidate (heap : Heap SdsBlock) (slot : EvictionPoolEntry) :
    Option Candidate := do
  let block ← heap.read (← slot.key)
  return ⟨block.buf, slot.idle, slot.dbid⟩

theorem EvictionPoolEntry.Holds.candidate_eq (h : slot.Holds heap c) :
    slot.candidate heap = some c := by
  obtain ⟨hidle, hdbid, key, block, hkey, hread, hbuf⟩ := h
  unfold EvictionPoolEntry.candidate
  rw [hkey, hidle, hdbid]
  show (heap.read key >>= fun block ↦ some (⟨block.buf, c.idle, c.dbid⟩ : Candidate)) = some c
  rw [hread]
  show some (⟨block.buf, c.idle, c.dbid⟩ : Candidate) = some c
  rw [hbuf]

theorem filterMap_candidate (h : List.Forall₂ (Holds heap) slots l) :
    slots.filterMap (EvictionPoolEntry.candidate heap) = l := by
  induction h with
  | nil => rfl
  | cons hslot _ ih => rw [List.filterMap_cons_some hslot.candidate_eq, ih]

/-- The candidates a pool stands for. -/
def EvictionPool.candidates (pool : EvictionPool) : List Candidate :=
  pool.slots.filterMap (EvictionPoolEntry.candidate pool.heap)

theorem EvictionPool.Shows.candidates_eq (h : pool.Shows l) : pool.candidates = l := by
  obtain ⟨used, free, hslots, hholds, hnone⟩ := h.splits
  have hfree : free.filterMap (EvictionPoolEntry.candidate pool.heap) = [] := by
    rw [List.filterMap_eq_nil_iff]
    intro slot hslot
    unfold EvictionPoolEntry.candidate
    rw [hnone slot hslot]
    rfl
  unfold EvictionPool.candidates
  rw [hslots, List.filterMap_append, filterMap_candidate hholds, hfree, List.append_nil]

theorem EvictionPool.Shows.cached_nodup (h : pool.Shows l) :
    (pool.slots.map EvictionPoolEntry.cached).Nodup := by
  refine List.Nodup.sublist ?_ h.distinct
  generalize pool.slots = slots
  induction slots with
  | nil => exact .slnil
  | cons slot slots ih => exact (ih.trans (List.sublist_append_right _ _)).cons_cons slot.cached

/-- The candidate a sample stands for. -/
def Sample.candidate (dbid : Int) (sample : Sample) : Candidate := ⟨sample.key, sample.idle, dbid⟩

/-- What is kept when the samples are offered one after another. -/
def kept (dbid : Int) (l : List Candidate) (samples : List Sample) : List Candidate :=
  (samples.map (Sample.candidate dbid)).foldl (offer Candidate.idle evpoolSize) l

/-- A candidate, and what is stored of its key. -/
def stored (e : Candidate × Bytes) : Candidate := { e.1 with key := e.2 }

/-- The score of a candidate with something. -/
def pairIdle {β : Type} (e : Candidate × β) : Nat := e.1.idle

theorem idle_stored (e : Candidate × Bytes) : (stored e).idle = pairIdle e := rfl

theorem idle_fst (e : Candidate × Bytes) : (Prod.fst e).idle = pairIdle e := rfl

/-- The same, with the bytes that are stored of each key. -/
def keptBytes (dbid : Int) (L : List (Candidate × Bytes)) (samples : List Sample) :
    List (Candidate × Bytes) :=
  (samples.map fun sample ↦ (sample.candidate dbid, storedKey sample.key)).foldl
    (offer pairIdle evpoolSize) L

theorem keptBytes_fst (L : List (Candidate × Bytes)) (samples : List Sample) :
    (keptBytes dbid L samples).map Prod.fst = kept dbid (L.map Prod.fst) samples := by
  unfold keptBytes kept
  rw [map_offers (f := Prod.fst) idle_fst, List.map_map]
  rfl

/-- The lengths of the keys that enter the pool are not negative as an `int`. -/
def EnteringFit (dbid : Int) (l : List Candidate) (samples : List Sample) : Prop :=
  ∀ before sample after, samples = before ++ sample :: after →
    Enters Candidate.idle evpoolSize (kept dbid l before) (sample.candidate dbid) →
    0 ≤ wrap32 sample.key.length

theorem enteringFit_cons {samples : List Sample} :
    EnteringFit dbid l (sample :: samples) ↔
      (Enters Candidate.idle evpoolSize l (sample.candidate dbid) → 0 ≤ wrap32 sample.key.length) ∧
      EnteringFit dbid (offer Candidate.idle evpoolSize l (sample.candidate dbid)) samples := by
  constructor
  · intro h
    refine ⟨h [] sample samples rfl, fun before sample' after heq ↦ ?_⟩
    exact h (sample :: before) sample' after (by rw [heq]; rfl)
  · rintro ⟨hfirst, hrest⟩ before sample' after heq
    cases before with
    | nil =>
        cases heq
        exact hfirst
    | cons b before =>
        cases heq
        exact hrest before sample' after rfl

section Run

variable {L : List (Candidate × Bytes)}

theorem stored_candidate (sample : Sample) (bytes : Bytes) :
    stored (sample.candidate dbid, bytes) = ⟨bytes, sample.idle, dbid⟩ := rfl

/-- Whether a sample enters does not depend on what is stored of keys. -/
theorem enters_stored (L : List (Candidate × Bytes)) (dbid : Int) (sample : Sample) :
    Enters Candidate.idle evpoolSize (L.map stored)
        (stored (sample.candidate dbid, storedKey sample.key)) ↔
      Enters Candidate.idle evpoolSize (L.map Prod.fst) (sample.candidate dbid) := by
  rw [enters_map (f := stored) idle_stored]
  exact (enters_map (f := Prod.fst) idle_fst L (sample.candidate dbid, storedKey sample.key)).symm

theorem offer_fst (L : List (Candidate × Bytes)) (dbid : Int) (sample : Sample) :
    offer Candidate.idle evpoolSize (L.map Prod.fst) (sample.candidate dbid) =
      (offer pairIdle evpoolSize L (sample.candidate dbid, storedKey sample.key)).map
        Prod.fst :=
  (map_offer (f := Prod.fst) idle_fst L (sample.candidate dbid, storedKey sample.key)).symm

theorem offerSample_stored (h : pool.Shows (L.map stored))
    (hfit : Enters Candidate.idle evpoolSize (L.map Prod.fst) (sample.candidate dbid) →
      0 ≤ wrap32 sample.key.length) :
    ∃ pool', offerSample dbid pool sample = .ok pool' ∧
      pool'.Shows ((offer pairIdle evpoolSize L
        (sample.candidate dbid, storedKey sample.key)).map stored) := by
  rw [map_offer (f := stored) idle_stored]
  exact offerSample_ok h (stored_candidate sample _) fun henters ↦
    hfit ((enters_stored L dbid sample).mp henters)

/-- The pool keeps what it should, with what was stored of the keys. -/
theorem evictionPoolPopulate_ok (h : pool.Shows (L.map stored)) {samples : List Sample}
    (hfit : EnteringFit dbid (L.map Prod.fst) samples) :
    ∃ pool', evictionPoolPopulate dbid pool samples = .ok pool' ∧
      pool'.Shows ((keptBytes dbid L samples).map stored) := by
  induction samples generalizing pool L with
  | nil => exact ⟨pool, rfl, h⟩
  | cons sample samples ih =>
      obtain ⟨hfirst, hrest⟩ := enteringFit_cons.mp hfit
      obtain ⟨pool₁, hoffer, hshows⟩ := offerSample_stored h hfirst
      rw [offer_fst] at hrest
      obtain ⟨pool', hrun, hshows'⟩ := ih hshows hrest
      refine ⟨pool', ?_, hshows'⟩
      unfold evictionPoolPopulate
      rw [List.foldlM_cons, hoffer]
      exact hrun

/-- It faults on no key that enters it. -/
theorem evictionPoolPopulate_fit (h : pool.Shows (L.map stored)) {samples : List Sample}
    {pool' : EvictionPool} (hok : evictionPoolPopulate dbid pool samples = .ok pool') :
    EnteringFit dbid (L.map Prod.fst) samples := by
  induction samples generalizing pool L with
  | nil =>
      intro before sample after heq
      simp at heq
  | cons sample samples ih =>
      obtain ⟨pool₁, hoffer, hrun⟩ := Run.foldlM_cons_eq_ok.mp hok
      have hfirst : Enters Candidate.idle evpoolSize (L.map Prod.fst) (sample.candidate dbid) →
          0 ≤ wrap32 sample.key.length := by
        intro henters
        by_contra hneg
        obtain ⟨f, hf⟩ := offerSample_error dbid h rfl ((enters_stored _ _ _).mpr henters)
          (Int.not_le.mp hneg)
        rw [hoffer] at hf
        cases hf
      obtain ⟨pool₂, hoffer', hshows⟩ := offerSample_stored h hfirst
      rw [hoffer] at hoffer'
      cases hoffer'
      refine enteringFit_cons.mpr ⟨hfirst, ?_⟩
      rw [offer_fst]
      exact ih hshows hrun

end Run

/-! ## The keys that are kept -/

/-- The length of the key is on the same side of the limit as the `int` it is cut down to. -/
def LengthFits (key : Bytes) : Prop :=
  key.length ≤ evpoolCachedSdsSize ∨ wrap32 key.length > evpoolCachedSdsSize

instance (key : Bytes) : Decidable (LengthFits key) := inferInstanceAs (Decidable (_ ∨ _))

theorem storedKey_eq_self_iff (key : Bytes) : storedKey key = key ↔ LengthFits key := by
  have hrange := wrap32_range key.length
  unfold storedKey LengthFits evpoolCachedSdsSize
  split
  · next hlong => exact iff_of_true rfl (.inr hlong)
  · next hshort =>
      rw [List.take_eq_self_iff, or_iff_left hshort]
      constructor
      · intro h
        omega
      · intro h
        rw [wrap32_eq_self_iff.mpr (by omega)]
        omega

/-- What is kept when the samples are offered one after another, and of what is from the samples
whether the length fits. -/
def keptFits (dbid : Int) (l : List Candidate) (samples : List Sample) : List (Candidate × Bool) :=
  (samples.map fun sample ↦ (sample.candidate dbid, decide (LengthFits sample.key))).foldl
    (offer pairIdle evpoolSize) (l.map fun c ↦ (c, true))

/-- The lengths of the sampled keys fit as far as it matters: those of the keys that enter are not
negative, and those of the keys that stay are on the right side of the limit. -/
structure KeysFit (dbid : Int) (l : List Candidate) (samples : List Sample) : Prop where
  entering : EnteringFit dbid l samples
  staying : ∀ e ∈ keptFits dbid l samples, e.2 = true

/-- The call returns.  The pool then stands for the candidates that are kept, in order, and
these are the best of what was there and was sampled. -/
structure Populates (dbid : Int) (pool : EvictionPool) (l : List Candidate) (samples : List Sample) :
    Prop where
  returns : ∃ pool', evictionPoolPopulate dbid pool samples = .ok pool' ∧
    pool'.Shows (kept dbid l samples) ∧ (pool'.slots.map EvictionPoolEntry.cached).Nodup
  sorted : Sorted Candidate.idle (kept dbid l samples)
  best : IsBest Candidate.idle evpoolSize
    ((l : Multiset Candidate) + (samples.map (Sample.candidate dbid) : List Candidate))
    (kept dbid l samples)

/-- The bytes of the candidates that were there are their keys. -/
def withKeys (l : List Candidate) : List (Candidate × Bytes) := l.map fun c ↦ (c, c.key)

theorem withKeys_stored (l : List Candidate) : (withKeys l).map stored = l := by
  unfold withKeys
  rw [List.map_map]
  exact List.map_id l

theorem withKeys_fst (l : List Candidate) : (withKeys l).map Prod.fst = l := by
  unfold withKeys
  rw [List.map_map]
  exact List.map_id l

theorem keptFits_eq (dbid : Int) (l : List Candidate) (samples : List Sample) :
    keptFits dbid l samples =
      (keptBytes dbid (withKeys l) samples).map fun e ↦ (e.1, decide (e.2 = e.1.key)) := by
  have hidle : ∀ e : Candidate × Bytes, pairIdle (e.1, decide (e.2 = e.1.key)) = pairIdle e :=
    fun _ ↦ rfl
  unfold keptBytes keptFits withKeys
  rw [map_offers (f := fun e : Candidate × Bytes ↦ (e.1, decide (e.2 = e.1.key))) hidle,
    List.map_map, List.map_map]
  simp only [Function.comp_def, Sample.candidate, storedKey_eq_self_iff, decide_true]

/-- What is stored is what was sampled exactly if the lengths of the keys that stay fit. -/
theorem keptBytes_stored_iff (dbid : Int) (l : List Candidate) (samples : List Sample) :
    (keptBytes dbid (withKeys l) samples).map stored = kept dbid l samples ↔
      ∀ e ∈ keptFits dbid l samples, e.2 = true := by
  have hkept : kept dbid l samples = (keptBytes dbid (withKeys l) samples).map Prod.fst := by
    rw [keptBytes_fst, withKeys_fst]
  rw [hkept, keptFits_eq, List.map_inj_left, List.forall_mem_map]
  refine forall₂_congr fun e _ ↦ ?_
  rw [decide_eq_true_iff]
  constructor
  · intro h
    exact congrArg Candidate.key h
  · intro h
    unfold stored
    rw [h]

/-- No key of less than 2³¹ bytes does harm. -/
theorem keysFit_of_length_lt (dbid : Int) (l : List Candidate) {samples : List Sample}
    (h : ∀ sample ∈ samples, sample.key.length < 2 ^ 31) : KeysFit dbid l samples := by
  have hwrap : ∀ sample ∈ samples, wrap32 sample.key.length = sample.key.length := by
    intro sample hsample
    have := h sample hsample
    exact wrap32_eq_self_iff.mpr (by omega)
  constructor
  · rintro before sample after rfl -
    rw [hwrap sample (by simp)]
    exact Int.natCast_nonneg _
  · intro e he
    rcases mem_of_mem_offers he with he | he
    · obtain ⟨c, -, rfl⟩ := List.mem_map.mp he
      rfl
    · obtain ⟨sample, hsample, rfl⟩ := List.mem_map.mp he
      refine decide_eq_true ?_
      unfold LengthFits
      rw [hwrap sample hsample]
      omega

end LatteRedis
