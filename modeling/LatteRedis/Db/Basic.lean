import LatteRedis.Client.Basic
import LatteRedis.Db.KvStore

/-!
# Databases (`db.c`, and the parts of `server.h` it uses)

A database has two stores: the values of the keys, and the deadlines of those keys that
have one.  The functions below are those of `db.c`, with the database they return in
place of the one they change.  Time is read from the server's `Clock`, which whoever
runs the server sets.

An object is a value here; reference counts are added in `Command.Counted`.
-/

namespace LatteRedis

open ByteString

/-- `redis_db_t`, as far as commands use it. -/
structure RedisDb where
  keys : KvStore 0 LatteObject
  /-- Deadlines, in Unix milliseconds. -/
  expires : KvStore 0 Int

/-- What the clock says: `mstime()`, and the two values the cron caches. -/
structure Clock where
  mstime : Int
  unixtime : Int
  lruclock : Nat
deriving DecidableEq, Repr

/-- `redis_server_t`, as far as commands use it. -/
structure Server where
  dbs : List RedisDb
  /-- `command_manager->commands`, in the order of registration. -/
  commands : List RedisCommand
  hz : Int
  maxmemoryPolicy : BitVec 32
  clock : Clock

/-- `init_redis_server_dbs`. -/
def initRedisServerDbs (dbNum : Nat) : List RedisDb :=
  List.replicate dbNum ⟨.create 0 _ true, .create 0 _ true⟩

/-- A value for the entries that have none yet. -/
instance : Inhabited LatteObject := ⟨latteObjectNew []⟩

/-! ## Stamping values -/

def maxmemoryFlagLfu : BitVec 32 := 1 <<< 1
def lruClockResolution : Int := 1000
def lfuInitVal : Nat := 5

/-- `LRU_CLOCK_MAX + 1`; the `lru` field has 24 bits. -/
def lruRange : Nat := 2 ^ 24

def lfuGetTimeInMinutes (server : Server) : Nat := ((server.clock.unixtime.tdiv 60) % 65536).toNat

def getLruClock (server : Server) : Nat :=
  ((server.clock.mstime.tdiv lruClockResolution) % lruRange).toNat

def lruClock (server : Server) : Except Fault Nat :=
  if server.hz = 0 then .error .divisionByZero
  else if Int.tdiv 1000 server.hz ≤ lruClockResolution then .ok server.clock.lruclock
  else .ok (getLruClock server)

def initObjectLruOrLfu (server : Server) (o : LatteObject) : Except Fault LatteObject :=
  if o.shared then .ok o
  else if server.maxmemoryPolicy &&& maxmemoryFlagLfu ≠ 0 then
    .ok { o with lru := (lfuGetTimeInMinutes server <<< 8 ||| lfuInitVal) % lruRange }
  else do
    let clock ← lruClock server
    return { o with lru := clock % lruRange }

/-! ## Values -/

/-- `db_set_value`; `de` is the key of the entry, if the caller has one. -/
def dbSetValue (db : RedisDb) (key val : LatteObject) (overwrite : Bool) (de : Option Bytes) :
    Except Fault RedisDb :=
  if key.type ≠ .string then .error (.assertion "key is not a string")
  else do
    let keyPtr ← key.ptr
    let entry := de.getD keyPtr
    match db.keys.find entry with
    | none => .error (.assertion "[db_set_value] kv_store dict unfind key")
    | some old =>
        let val := { val with lru := old.lru }
        if overwrite then .error (.assertion "overwrite is not supported")
        else .ok { db with keys := db.keys.dictSetVal (getKvStoreIndexForKey keyPtr) entry val }

/-- `db_add_key_value_internal`.  The key is copied as a C string. -/
def dbAddKeyValueInternal (server : Server) (db : RedisDb) (key val : LatteObject) :
    Except Fault RedisDb :=
  if key.type ≠ .string then .error (.assertion "key is not a string")
  else do
    let keyPtr ← key.ptr
    let dictIndex := getKvStoreIndexForKey keyPtr
    let newKey := cString keyPtr
    let (added, keys) ← db.keys.dictAddRaw dictIndex newKey
    if added then
      let val ← initObjectLruOrLfu server val
      return { db with keys := keys.dictSetVal dictIndex newKey val }
    else dbSetValue { db with keys := keys } key val true (some newKey)

def dbAddKeyValue (server : Server) (db : RedisDb) (key value : LatteObject) :
    Except Fault RedisDb :=
  dbAddKeyValueInternal server db key value

/-! ## Deadlines -/

def dbGetExpire (db : RedisDb) (key : Bytes) : Int := (db.expires.find key).getD 0

/-- `db_set_expire`: whether it succeeded. -/
def dbSetExpire (db : RedisDb) (key : Bytes) (whenMs : Int) : Except Fault (Bool × RedisDb) := do
  let didx := getKvStoreIndexForKey key
  let (added, expires) ← db.expires.dictAddRaw didx key
  if added then return (true, { db with expires := expires.dictSetVal didx key whenMs })
  else return (false, { db with expires := expires })

def dbRemoveExpire (db : RedisDb) (key : Bytes) : Except Fault RedisDb := do
  let (_, expires) ← db.expires.dictDeleteKey (getKvStoreIndexForKey key) key
  return { db with expires := expires }

def dbDeleteKey (db : RedisDb) (key : Bytes) : Except Fault RedisDb := do
  let didx := getKvStoreIndexForKey key
  let (_, expires) ← db.expires.dictDeleteKey didx key
  let (_, keys) ← db.keys.dictDeleteKey didx key
  return { keys := keys, expires := expires }

/-- `expire_if_needed`: whether the key was deleted. -/
def expireIfNeeded (server : Server) (db : RedisDb) (key : Bytes) : Except Fault (Bool × RedisDb) :=
  match db.expires.find key with
  | none => .ok (false, db)
  | some whenMs =>
      if server.clock.mstime < whenMs then .ok (false, db)
      else do
        let db ← dbDeleteKey db key
        return (true, db)

/-- `server->dbs + dbid`, dereferenced. -/
def Server.dbAt (server : Server) (dbid : Nat) : Except Fault RedisDb :=
  match server.dbs[dbid]? with
  | some db => .ok db
  | none => .error .badPointer

def Server.setDb (server : Server) (dbid : Nat) (db : RedisDb) : Server :=
  { server with dbs := server.dbs.set dbid db }

/-! ## What the functions do to the two maps -/

namespace RedisDb

/-- The value of a key, whatever its deadline. -/
def value (db : RedisDb) : Bytes → Option LatteObject := db.keys.find

/-- The deadline of a key. -/
def deadline (db : RedisDb) : Bytes → Option Int := db.expires.find

/-- The deadline of `key` has passed at time `t`. -/
def Stale (db : RedisDb) (t : Int) (key : Bytes) : Prop := ∃ w, db.deadline key = some w ∧ w ≤ t

instance (db : RedisDb) (t : Int) (key : Bytes) : Decidable (db.Stale t key) :=
  decidable_of_iff (((db.deadline key).map fun w ↦ decide (w ≤ t)).getD false = true) (by
    unfold Stale
    cases db.deadline key with
    | none => simp
    | some w => simp)

/-- A database without entries. -/
def IsEmpty (db : RedisDb) : Prop := (∀ k, db.value k = none) ∧ ∀ k, db.deadline k = none

end RedisDb

theorem dbDeleteKey_ok (db : RedisDb) (key : Bytes) :
    ∃ db', dbDeleteKey db key = .ok db' ∧ db'.value = Function.update db.value key none ∧
      db'.deadline = Function.update db.deadline key none ∧
      (db.keys.Counted → db'.keys.Counted) := by
  obtain ⟨expires, hexp, hfind, -⟩ := db.expires.dictDeleteKey_find key
  obtain ⟨keys, hkeys, hfind', hcount⟩ := db.keys.dictDeleteKey_find key
  refine ⟨⟨keys, expires⟩, ?_, hfind', hfind, hcount⟩
  unfold dbDeleteKey getKvStoreIndexForKey
  simp only [hexp, hkeys, Run.ok_bind]
  rfl

theorem expireIfNeeded_stale {server : Server} {db : RedisDb} {key : Bytes}
    (h : db.Stale server.clock.mstime key) :
    ∃ db', expireIfNeeded server db key = .ok (true, db') ∧
      db'.value = Function.update db.value key none ∧
      db'.deadline = Function.update db.deadline key none ∧
      (db.keys.Counted → db'.keys.Counted) := by
  obtain ⟨w, hw, hle⟩ := h
  obtain ⟨db', hdel, hspec⟩ := dbDeleteKey_ok db key
  refine ⟨db', ?_, hspec⟩
  have hw' : db.expires.find key = some w := hw
  unfold expireIfNeeded
  rw [hw']
  simp only [if_neg (Int.not_lt.mpr hle), hdel]
  rfl

theorem expireIfNeeded_fresh {server : Server} {db : RedisDb} {key : Bytes}
    (h : ¬ db.Stale server.clock.mstime key) : expireIfNeeded server db key = .ok (false, db) := by
  unfold expireIfNeeded
  cases hw : db.expires.find key with
  | none => rfl
  | some w =>
      have hlt : server.clock.mstime < w := Int.not_le.mp fun hle ↦ h ⟨w, hw, hle⟩
      simp only [if_pos hlt]

theorem dbSetExpire_new {db : RedisDb} {key : Bytes} (h : db.deadline key = none) (w : Int) :
    ∃ db', dbSetExpire db key w = .ok (true, db') ∧ db'.keys = db.keys ∧
      db'.deadline = Function.update db.deadline key (some w) := by
  obtain ⟨expires, hadd, hfind, -⟩ := db.expires.dictAddRaw_new h
  refine ⟨⟨db.keys, expires.dictSetVal 0 key w⟩, ?_, rfl, ?_⟩
  · unfold dbSetExpire getKvStoreIndexForKey
    simp only [hadd, Run.ok_bind, if_true]
    rfl
  · show (expires.dictSetVal 0 key w).find = _
    rw [(expires.dictSetVal_find (by rw [hfind, Function.update_self]; rfl) w).1, hfind,
      Function.update_idem]
    rfl

/-- A deadline is never replaced. -/
theorem dbSetExpire_existing {db : RedisDb} {key : Bytes} (h : (db.deadline key).isSome) (w : Int) :
    dbSetExpire db key w = .ok (false, db) := by
  unfold dbSetExpire getKvStoreIndexForKey
  simp only [KvStore.dictAddRaw_existing h, Run.ok_bind]
  rfl

/-- A value is entered under the C string of its key, with the stamp of the clock. -/
theorem dbAddKeyValue_new {server : Server} {db : RedisDb} {key val val' : LatteObject}
    (htext : key.IsText) (h : db.value (cString key.content) = none)
    (hval : initObjectLruOrLfu server val = .ok val') :
    ∃ db', dbAddKeyValue server db key val = .ok db' ∧ db'.expires = db.expires ∧
      db'.value = Function.update db.value (cString key.content) (some val') ∧
      (db.keys.Counted → db'.keys.Counted) := by
  obtain ⟨keys, hadd, hfind, hcount⟩ := db.keys.dictAddRaw_new h
  have hentered : (keys.find (cString key.content)).isSome := by
    rw [hfind, Function.update_self]
    rfl
  have hset := keys.dictSetVal_find hentered val'
  refine ⟨⟨keys.dictSetVal 0 (cString key.content) val', db.expires⟩, ?_, rfl, ?_,
    fun hc ↦ hset.2 (hcount hc)⟩
  · unfold dbAddKeyValue dbAddKeyValueInternal getKvStoreIndexForKey
    rw [if_neg (not_not.mpr htext.1), htext.2, Run.ok_bind]
    simp only [hadd, Run.ok_bind, if_true, hval]
    rfl
  · show (keys.dictSetVal 0 (cString key.content) val').find = _
    rw [hset.1, hfind, Function.update_idem]
    rfl

/-- Without a stamp there is no value to enter. -/
theorem dbAddKeyValue_error {server : Server} {db : RedisDb} {key val : LatteObject} {f : Fault}
    (htext : key.IsText) (h : db.value (cString key.content) = none)
    (hval : initObjectLruOrLfu server val = .error f) :
    dbAddKeyValue server db key val = .error f := by
  obtain ⟨keys, hadd, -, -⟩ := db.keys.dictAddRaw_new h
  unfold dbAddKeyValue dbAddKeyValueInternal getKvStoreIndexForKey
  rw [if_neg (not_not.mpr htext.1), htext.2, Run.ok_bind]
  simp only [hadd, Run.ok_bind, if_true, hval]
  rfl

/-- Entering a key whose C string is already there reaches the assertion that
overwriting is not supported. -/
theorem dbAddKeyValue_existing {server : Server} {db : RedisDb} {key val : LatteObject}
    (htext : key.IsText) (h : (db.value (cString key.content)).isSome) :
    dbAddKeyValue server db key val = .error (.assertion "overwrite is not supported") := by
  obtain ⟨old, hold⟩ := Option.isSome_iff_exists.mp h
  have hold' : db.keys.find (cString key.content) = some old := hold
  unfold dbAddKeyValue dbAddKeyValueInternal getKvStoreIndexForKey
  rw [if_neg (not_not.mpr htext.1), htext.2, Run.ok_bind]
  simp only [KvStore.dictAddRaw_existing h, Run.ok_bind, dbSetValue, htext.1, htext.2, hold',
    Option.getD_some, ne_eq, not_true, if_false, Bool.false_eq_true, if_true]

end LatteRedis
