import LatteRedis.Command.Refinement
import LatteRedis.Command.Returns

/-!
# Entering a value (`db_add_key_value`)

The module API looks a key up by its length and enters it as a C string.  As long as a key
has no NUL in it the two are the same key.  Otherwise the value ends up under the part in
front of the NUL, which is another key; and if that key is there, the process stops
(`storesUnder_iff`).

To enter a key that is there is meant to replace its value.  `db_set_value` is called for it,
in a way that it does not support: `db_add_key_value` inserts, and never updates
(`Counted.upserts_iff`).
-/

namespace LatteRedis

open ByteString RefCount

/-! ## Keys as byte strings -/

/-- The value is stored under the bytes of the key: a lookup finds it, and the values of the
other keys are what they were. -/
structure StoresUnder (server server' : Server) (rc : RedisClient) (key val : LatteObject) :
    Prop where
  found : ∃ server'' v, lookupKey server' rc key = .ok (server'', some (key.content, v)) ∧
    v = { val with lru := v.lru }
  others : ∀ {db db' : RedisDb}, server.dbs[rc.dbid]? = some db →
    server'.dbs[rc.dbid]? = some db' → ∀ k, k ≠ key.content → db'.value k = db.value k

/-- What a lookup that finds nothing says about the database. -/
theorem lookupKey_none {server server₁ : Server} {rc : RedisClient} {key : LatteObject}
    (htext : key.IsText) {db : RedisDb} (hdb : server.dbs[rc.dbid]? = some db)
    (h : lookupKey server rc key = .ok (server₁, none)) :
    ∃ db₁, server₁ = server.setDb rc.dbid db₁ ∧ server₁.dbs[rc.dbid]? = some db₁ ∧
      db₁.value key.content = none ∧ ¬ db₁.Stale server.clock.mstime key.content := by
  obtain ⟨db₁, hreaps, hlookup⟩ := lookupKey_ok htext hdb
  rw [hlookup, Except.ok.injEq, Prod.mk.injEq, Option.map_eq_none_iff] at h
  obtain ⟨rfl, hnone⟩ := h
  exact ⟨db₁, rfl, Server.getElem?_setDb hdb db₁, hnone, hreaps.not_stale⟩

/-- A lookup finds a value that is not stale. -/
theorem lookupKey_some {server : Server} {rc : RedisClient} {key v : LatteObject}
    (htext : key.IsText) {db : RedisDb} (hdb : server.dbs[rc.dbid]? = some db)
    (hfresh : ¬ db.Stale server.clock.mstime key.content) (hv : db.value key.content = some v) :
    ∃ server', lookupKey server rc key = .ok (server', some (key.content, v)) := by
  obtain ⟨db₁, hreaps, hlookup⟩ := lookupKey_ok htext hdb
  refine ⟨server.setDb rc.dbid db₁, ?_⟩
  rw [hlookup, (hreaps.of_fresh hfresh).1, hv]
  rfl

theorem moduleDbAdd_eq_ok {server server' : Server} {rc : RedisClient} {key val : LatteObject}
    {db : RedisDb} (hdb : server.dbs[rc.dbid]? = some db) :
    moduleDbAdd server rc key val = .ok server' ↔
      ∃ db', dbAddKeyValue server db key val = .ok db' ∧ server' = server.setDb rc.dbid db' := by
  unfold moduleDbAdd
  rw [Server.dbAt_eq hdb, Run.ok_bind, Run.bind_eq_ok]
  refine exists_congr fun db' ↦ and_congr_right fun _ ↦ ?_
  rw [Run.pure_eq, Except.ok.injEq, eq_comm]

/-- When `db_add_key_value` returns, the C string of the key was not there and now it is. -/
theorem dbAddKeyValue_returns {server : Server} {db db' : RedisDb} {key val : LatteObject}
    (htext : key.IsText) (h : dbAddKeyValue server db key val = .ok db') :
    server.Stamps val ∧ db.value (cString key.content) = none ∧
      (db'.value (cString key.content)).isSome := by
  have hfree : db.value (cString key.content) = none := by
    refine Option.not_isSome_iff_eq_none.mp fun hsome ↦ ?_
    rw [dbAddKeyValue_existing htext hsome] at h
    cases h
  cases hinit : initObjectLruOrLfu server val with
  | error f =>
      rw [dbAddKeyValue_error htext hfree hinit] at h
      cases h
  | ok val' =>
      obtain ⟨db₁, hadd, -, hvalue, -⟩ := dbAddKeyValue_new htext hfree hinit
      obtain rfl : db' = db₁ := Except.ok.inj (h.symm.trans hadd)
      refine ⟨initObjectLruOrLfu_ok_iff.mp ⟨val', hinit⟩, hfree, ?_⟩
      rw [hvalue, Function.update_self]
      rfl

/-- **Keys are byte strings.**  After a lookup that found nothing, the value is stored under
its key exactly if there is no NUL in it, and the server can stamp the value. -/
theorem storesUnder_iff {server server₁ : Server} {rc : RedisClient} {key : LatteObject}
    (htext : key.IsText) {db : RedisDb} (hdb : server.dbs[rc.dbid]? = some db)
    (hnone : lookupKey server rc key = .ok (server₁, none)) (val : LatteObject) :
    (∃ server', moduleDbAdd server₁ rc key val = .ok server' ∧
        StoresUnder server₁ server' rc key val) ↔
      (0 : UInt8) ∉ key.content ∧ server.Stamps val := by
  obtain ⟨db₁, rfl, hdb₁, hvalue, hfresh⟩ := lookupKey_none htext hdb hnone
  constructor
  · rintro ⟨server', hmodule, hstores⟩
    obtain ⟨db', hadd, rfl⟩ := (moduleDbAdd_eq_ok hdb₁).mp hmodule
    obtain ⟨hstamps, hfree, hsome⟩ := dbAddKeyValue_returns htext hadd
    refine ⟨fun hnul ↦ ?_, hstamps⟩
    -- the key in front of the NUL was not there, and now it is
    have hother := hstores.others hdb₁ (Server.getElem?_setDb hdb₁ db') _ (cString_ne hnul)
    rw [hother, hfree] at hsome
    cases hsome
  · rintro ⟨hnul, hstamps⟩
    have hkey : cString key.content = key.content := cString_of_notMem hnul
    have hstamps₁ : (server.setDb rc.dbid db₁).Stamps val := hstamps
    obtain ⟨val', hinit⟩ := initObjectLruOrLfu_ok_iff.mpr hstamps₁
    obtain ⟨db', hadd, hexp, hvalue', -⟩ := dbAddKeyValue_new htext (hkey ▸ hvalue) hinit
    rw [hkey] at hvalue'
    have hdb' := Server.getElem?_setDb hdb₁ db'
    refine ⟨(server.setDb rc.dbid db₁).setDb rc.dbid db',
      (moduleDbAdd_eq_ok hdb₁).mpr ⟨db', hadd, rfl⟩, ?_, ?_⟩
    · have hfresh' : ¬ db'.Stale server.clock.mstime key.content := by
        unfold RedisDb.Stale RedisDb.deadline
        rw [hexp]
        exact hfresh
      have hfound : db'.value key.content = some val' := by rw [hvalue', Function.update_self]
      obtain ⟨server'', hlookup⟩ := lookupKey_some htext hdb' hfresh' hfound
      exact ⟨server'', val', hlookup, initObjectLruOrLfu_ok hinit⟩
    · intro db db'' hdb hdb'' k hk
      obtain rfl : db₁ = db := Option.some.inj (hdb₁.symm.trans hdb)
      obtain rfl : db' = db'' := Option.some.inj (hdb'.symm.trans hdb'')
      rw [hvalue', Function.update_of_ne hk]

/-- A server with one empty database. -/
def sampleKeyspace : Server := startRedisServer 1 10 ⟨1000, 1, 0⟩

theorem storesUnder_iff_text :
    ∃ server₁ server', lookupKey sampleKeyspace .idle (latteObjectNew (ascii "a")) =
        .ok (server₁, none) ∧
      moduleDbAdd server₁ .idle (latteObjectNew (ascii "a")) (latteObjectNew (ascii "v")) =
        .ok server' ∧
      StoresUnder server₁ server' .idle (latteObjectNew (ascii "a")) (latteObjectNew (ascii "v")) := by
  have hnone : lookupKey sampleKeyspace .idle (latteObjectNew (ascii "a")) =
      .ok (sampleKeyspace, none) := rfl
  obtain ⟨server', hstores⟩ := (storesUnder_iff (isText_latteObjectNew _) rfl hnone
    (latteObjectNew (ascii "v"))).mpr ⟨by decide, .inr (.inr (by decide))⟩
  exact ⟨sampleKeyspace, server', hnone, hstores⟩

/-- The value of `a\0b` ends up under `a`. -/
theorem not_storesUnder_nul :
    ∃ server₁, lookupKey sampleKeyspace .idle (latteObjectNew [97, 0, 98]) = .ok (server₁, none) ∧
      ¬ ∃ server', moduleDbAdd server₁ .idle (latteObjectNew [97, 0, 98])
          (latteObjectNew (ascii "v")) = .ok server' ∧
        StoresUnder server₁ server' .idle (latteObjectNew [97, 0, 98])
          (latteObjectNew (ascii "v")) := by
  refine ⟨sampleKeyspace, rfl, ?_⟩
  rintro ⟨server', hadd, hstores⟩
  have hlookup : (moduleDbAdd sampleKeyspace .idle (latteObjectNew [97, 0, 98])
      (latteObjectNew (ascii "v")) >>= fun server ↦
        lookupKey server .idle (latteObjectNew [97, 0, 98])).map Prod.snd = .ok none := rfl
  obtain ⟨server'', v, hfound, -⟩ := hstores.found
  rw [hadd, Run.ok_bind, hfound] at hlookup
  cases hlookup

/-! ## Keys that are there -/

namespace Counted

/-- `key` has the value `val`, in place of the value it had. -/
structure Upserts (heap : Heap LatteObject) (db : Db) (key : Bytes) (val : ObjId)
    (heap' : Heap LatteObject) (db' : Db) : Prop where
  value : db'.keys.find = Function.update db.keys.find key (some val)
  inherits : ∀ old, db.keys.find key = some old →
    (heap'.read val).map LatteObject.lru = (heap.read old).map LatteObject.lru
  releases : ∀ old, db.keys.find key = some old → heap'.count old + 1 = heap.count old
  keyCount : db'.keys.keyCount = db.keys.keyCount + if db.keys.find key = none then 1 else 0

/-- What `db_set_value` is asked for here it never does. -/
theorem dbSetValue_overwrite (heap : Heap LatteObject) (db : Db) (key val : ObjId)
    (de : Option Bytes) (p : Heap LatteObject × Db) : dbSetValue heap db key val true de ≠ .ok p := by
  intro h
  obtain ⟨keyObj, -, h⟩ := Run.bind_eq_ok.mp h
  split at h
  · cases h
  · obtain ⟨keyPtr, -, h⟩ := Run.bind_eq_ok.mp h
    dsimp only at h
    split at h
    · cases h
    · obtain ⟨oldObj, -, h⟩ := Run.bind_eq_ok.mp h
      obtain ⟨heap₁, -, h⟩ := Run.bind_eq_ok.mp h
      cases h

section

variable {s : Server} {key val : ObjId} {keyObj valObj : LatteObject}

theorem dbAddKeyValue_present (hkey : s.heap.read key = some keyObj) (htext : keyObj.IsText)
    {db : Db} (h : (db.keys.find (cString keyObj.content)).isSome) :
    dbAddKeyValue s db key val =
      dbSetValue s.heap db key val true (some (cString keyObj.content)) := by
  unfold dbAddKeyValue dbAddKeyValueInternal getKvStoreIndexForKey
  rw [object, deref_eq_ok.mpr hkey, Run.ok_bind, if_neg (not_not.mpr htext.1), htext.2, Run.ok_bind]
  simp only [KvStore.dictAddRaw_existing h, Run.ok_bind, Bool.false_eq_true, if_false]

theorem dbAddKeyValue_absent (hkey : s.heap.read key = some keyObj) (htext : keyObj.IsText)
    {db : Db} (h : db.keys.find (cString keyObj.content) = none) (val : ObjId) :
    ∃ db', db'.keys.find = Function.update db.keys.find (cString keyObj.content) (some val) ∧
      db'.keys.keyCount = db.keys.keyCount + 1 ∧
      dbAddKeyValue s db key val = (initObjectLruOrLfu s val).map fun heap ↦ (heap, db') := by
  obtain ⟨keys, hadd, hset⟩ := db.keys.dictAddRaw_dictSetVal h
  refine ⟨{ db with keys := keys.dictSetVal 0 (cString keyObj.content) val }, hset val, ?_, ?_⟩
  · rw [KvStore.dictSetVal_keyCount, KvStore.dictAddRaw_keyCount hadd]
  · unfold dbAddKeyValue dbAddKeyValueInternal getKvStoreIndexForKey
    rw [object, deref_eq_ok.mpr hkey, Run.ok_bind, if_neg (not_not.mpr htext.1), htext.2,
      Run.ok_bind]
    simp only [hadd, Run.ok_bind, if_true]
    cases initObjectLruOrLfu s val <;> rfl

theorem initObjectLruOrLfu_returns (hval : s.heap.read val = some valObj) :
    (∃ heap', initObjectLruOrLfu s val = .ok heap') ↔ s.settings.Stamps valObj := by
  rw [← LatteRedis.initObjectLruOrLfu_ok_iff]
  unfold initObjectLruOrLfu
  rw [object, deref_eq_ok.mpr hval, Run.ok_bind]
  obtain ⟨cell, hcell, rfl⟩ := Option.map_eq_some_iff.mp hval
  constructor
  · rintro ⟨heap', h⟩
    obtain ⟨stamped, hstamped, -⟩ := Run.bind_eq_ok.mp h
    exact ⟨stamped, hstamped⟩
  · rintro ⟨stamped, hstamped⟩
    refine ⟨s.heap.set val { cell with val := stamped }, ?_⟩
    rw [hstamped, Run.ok_bind, deref_eq_ok, Heap.modify, hcell]
    rfl

/-- **Insertion is all there is.**  `db_add_key_value` with a key that has no NUL in it does
what an upsert does exactly if there is nothing to update, and the server can stamp the
value. -/
theorem upserts_iff (hkey : s.heap.read key = some keyObj) (htext : keyObj.IsText)
    (hnul : (0 : UInt8) ∉ keyObj.content) (hval : s.heap.read val = some valObj) (db : Db) :
    (∃ heap' db', dbAddKeyValue s db key val = .ok (heap', db') ∧
        Upserts s.heap db keyObj.content val heap' db') ↔
      db.keys.find keyObj.content = none ∧ s.settings.Stamps valObj := by
  have hcString : cString keyObj.content = keyObj.content := cString_of_notMem hnul
  cases hfind : db.keys.find keyObj.content with
  | some old =>
      rw [dbAddKeyValue_present hkey htext (by rw [hcString, hfind]; rfl)]
      constructor
      · rintro ⟨heap', db', hadd, -⟩
        exact absurd hadd (dbSetValue_overwrite _ _ _ _ _ _)
      · rintro ⟨hnone, -⟩
        cases hnone
  | none =>
      obtain ⟨db', hvalue, hcount, hadd⟩ :=
        dbAddKeyValue_absent hkey htext (hcString ▸ hfind) val
      rw [hadd, ← initObjectLruOrLfu_returns hval]
      cases initObjectLruOrLfu s val with
      | error f => simp [Except.map]
      | ok heap' =>
          have hnotThere : ∀ old, db.keys.find keyObj.content ≠ some old := by simp [hfind]
          refine ⟨fun _ ↦ ⟨rfl, heap', rfl⟩, fun _ ↦ ⟨heap', db', rfl, ?_⟩⟩
          refine ⟨hcString ▸ hvalue, fun old hold ↦ absurd hold (hnotThere old),
            fun old hold ↦ absurd hold (hnotThere old), ?_⟩
          rw [hcount, if_pos hfind]

end

/-- A server with the objects given, each held once, and one database. -/
def sampleObjects (objects : List LatteObject) : Server where
  heap := (({} : Heap LatteObject).newAll objects).1
  dbs := [⟨.create 0 _ true, .create 0 _ true⟩]
  commands := []
  hz := 10
  maxmemoryPolicy := 0
  clock := ⟨1000, 1, 0⟩

theorem upserts_iff_absent :
    ∃ heap' db', dbAddKeyValue (sampleObjects ([ascii "a", ascii "v"].map latteObjectNew))
        ⟨.create 0 _ true, .create 0 _ true⟩ 0 1 = .ok (heap', db') ∧
      Upserts (sampleObjects ([ascii "a", ascii "v"].map latteObjectNew)).heap
        ⟨.create 0 _ true, .create 0 _ true⟩ (ascii "a") 1 heap' db' := by
  have hkey : (sampleObjects ([ascii "a", ascii "v"].map latteObjectNew)).heap.read 0 =
      some (latteObjectNew (ascii "a")) := rfl
  have hval : (sampleObjects ([ascii "a", ascii "v"].map latteObjectNew)).heap.read 1 =
      some (latteObjectNew (ascii "v")) := rfl
  exact (upserts_iff hkey (isText_latteObjectNew _) (by decide) hval _).mpr
    ⟨rfl, .inr (.inr (by decide))⟩

/-- To enter the same key again stops the process. -/
theorem not_upserts_present :
    ∃ heap db, dbAddKeyValue (sampleObjects ([ascii "a", ascii "v", ascii "w"].map latteObjectNew))
        ⟨.create 0 _ true, .create 0 _ true⟩ 0 1 = .ok (heap, db) ∧
      ¬ ∃ heap' db', dbAddKeyValue { sampleObjects [] with heap := heap } db 0 2 = .ok (heap', db') ∧
        Upserts heap db (ascii "a") 2 heap' db' := by
  refine ⟨_, _, rfl, ?_⟩
  rintro ⟨heap', db', hadd, -⟩
  cases hadd

end Counted

end LatteRedis
