import LatteRedis.Command.Handlers
import LatteRedis.Foundation.RefCount

/-!
# Handlers with reference counts

In `Handlers` an object is a value.  Here it is an address in a heap of counted cells, as
in the source: the argument vector and the values of a database are addresses, and every
`latte_object_incr_ref_count` and `latte_object_decr_ref_count` is where the source has it.

* The parser makes an object with one reference for every slot it fills.
* `reset_redis_client` gives up the references of all slots below `argc`.
* `set_command` takes a second reference before the value goes into a database.
* The value that is overwritten, and the value of a key that has expired, give up the
  reference of their entry.

Reading an object that is gone, or changing its count, stops the run.  Requests are those
of the multibulk protocol, for every command whose code is in the repository, except
`module`.
-/

namespace LatteRedis.Counted

open ByteString RefCount

/-- `latte_object_t*`. -/
abbrev ObjId := Nat

/-- `redis_db_t`; the values of the keys are pointers. -/
structure Db where
  keys : KvStore 0 ObjId
  /-- Deadlines, in Unix milliseconds. -/
  expires : KvStore 0 Int

/-- `redis_server_t`, and the objects that were created since it was started. -/
structure Server where
  heap : Heap LatteObject := {}
  dbs : List Db
  commands : List RedisCommand
  hz : Int
  maxmemoryPolicy : BitVec 32
  clock : Clock

/-- A client, and the pointers in the slots of its vector that were filled. -/
structure Client where
  rc : RedisClient
  argv : List ObjId := []

/-- The fields of the server that have to do with no object. -/
def Server.settings (s : Server) : LatteRedis.Server where
  dbs := []
  commands := s.commands
  hz := s.hz
  maxmemoryPolicy := s.maxmemoryPolicy
  clock := s.clock

/-! ## Objects -/

/-- Something is done with an object, which must be there. -/
def deref {α : Type} : Option α → Except Fault α
  | some a => .ok a
  | none => .error .badPointer

/-- `*o`. -/
def object (heap : Heap LatteObject) (o : ObjId) : Except Fault LatteObject := deref (heap.read o)

def latteObjectIncrRefCount (heap : Heap LatteObject) (o : ObjId) :
    Except Fault (Heap LatteObject) := deref (heap.incr o)

def latteObjectDecrRefCount (heap : Heap LatteObject) (o : ObjId) :
    Except Fault (Heap LatteObject) := deref (heap.decr o)

/-- The destructor of the values of a `keys` store. -/
def dictObjectDestructor (heap : Heap LatteObject) (val : ObjId) : Except Fault (Heap LatteObject) :=
  latteObjectDecrRefCount heap val

def initObjectLruOrLfu (s : Server) (o : ObjId) : Except Fault (Heap LatteObject) := do
  let stamped ← LatteRedis.initObjectLruOrLfu s.settings (← object s.heap o)
  deref (s.heap.modify o fun _ ↦ stamped)

/-- `argv[i]`. -/
def Client.argvAt (c : Client) (i : Nat) : Except Fault ObjId := deref c.argv[i]?

/-- The pointers in the slots below `argc`. -/
def Client.slots (c : Client) : List ObjId := c.argv.take c.rc.argc.toNat

def Client.replied (c : Client) (reply : ReplyBuf) : Client := { c with rc := c.rc.replied reply }

/-! ## Databases -/

def Server.dbAt (s : Server) (dbid : Nat) : Except Fault Db := deref s.dbs[dbid]?

/-- The database and the heap after something was done to them. -/
def Server.setDb (s : Server) (dbid : Nat) (heap : Heap LatteObject) (db : Db) : Server :=
  { s with heap := heap, dbs := s.dbs.set dbid db }

def dbSetValue (heap : Heap LatteObject) (db : Db) (key val : ObjId) (overwrite : Bool)
    (de : Option Bytes) : Except Fault (Heap LatteObject × Db) := do
  let keyObj ← object heap key
  if keyObj.type ≠ .string then throw (.assertion "key is not a string")
  else
    let keyPtr ← keyObj.ptr
    let entry := de.getD keyPtr
    match db.keys.find entry with
    | none => throw (.assertion "[db_set_value] kv_store dict unfind key")
    | some old =>
        let oldObj ← object heap old
        let heap ← deref (heap.modify val fun o ↦ { o with lru := oldObj.lru })
        if overwrite then throw (.assertion "overwrite is not supported")
        else
          let keys := db.keys.dictSetVal (getKvStoreIndexForKey keyPtr) entry val
          let heap ← latteObjectDecrRefCount heap old
          return (heap, { db with keys := keys })

def dbAddKeyValueInternal (s : Server) (db : Db) (key val : ObjId) :
    Except Fault (Heap LatteObject × Db) := do
  let keyObj ← object s.heap key
  if keyObj.type ≠ .string then throw (.assertion "key is not a string")
  else
    let keyPtr ← keyObj.ptr
    let dictIndex := getKvStoreIndexForKey keyPtr
    let newKey := cString keyPtr
    let (added, keys) ← db.keys.dictAddRaw dictIndex newKey
    if added then
      let heap ← initObjectLruOrLfu s val
      return (heap, { db with keys := keys.dictSetVal dictIndex newKey val })
    else dbSetValue s.heap { db with keys := keys } key val true (some newKey)

def dbAddKeyValue (s : Server) (db : Db) (key val : ObjId) : Except Fault (Heap LatteObject × Db) :=
  dbAddKeyValueInternal s db key val

def dbSetExpire (db : Db) (key : Bytes) (whenMs : Int) : Except Fault (Bool × Db) := do
  let didx := getKvStoreIndexForKey key
  let (added, expires) ← db.expires.dictAddRaw didx key
  if added then return (true, { db with expires := expires.dictSetVal didx key whenMs })
  else return (false, { db with expires := expires })

/-- Deleting an entry of `keys` hands its value to the destructor. -/
def dbDeleteKey (heap : Heap LatteObject) (db : Db) (key : Bytes) :
    Except Fault (Heap LatteObject × Db) := do
  let didx := getKvStoreIndexForKey key
  let (_, expires) ← db.expires.dictDeleteKey didx key
  let (_, keys) ← db.keys.dictDeleteKey didx key
  match db.keys.find key with
  | none => return (heap, { keys := keys, expires := expires })
  | some val =>
      let heap ← dictObjectDestructor heap val
      return (heap, { keys := keys, expires := expires })

def expireIfNeeded (s : Server) (db : Db) (key : Bytes) :
    Except Fault (Bool × Heap LatteObject × Db) :=
  match db.expires.find key with
  | none => .ok (false, s.heap, db)
  | some whenMs =>
      if s.clock.mstime < whenMs then .ok (false, s.heap, db)
      else do
        let (heap, db) ← dbDeleteKey s.heap db key
        return (true, heap, db)

/-! ## Handlers -/

variable (L : LatteC)

def replyWrongArity (s : Server) (c : Client) : Except Fault (Server × Client) := do
  let name ← c.rc.cmdName
  return (s, c.replied (addReplyErrorFormat L c.rc.reply (wrongArity name)))

def expireCommand (s : Server) (c : Client) : Except Fault (Server × Client) :=
  if c.rc.argc ≠ 3 then replyWrongArity L s c
  else do
    let outOfRange := (s, c.replied
      (addReplyError L c.rc.reply "ERR value is not an integer or out of range"))
    match L.string2ll (← (← object s.heap (← c.argvAt 2)).ptr) with
    | none => return outOfRange
    | some seconds =>
        if seconds < 0 then return outOfRange
        else
          let keySds ← (← object s.heap (← c.argvAt 1)).ptr
          let db ← s.dbAt c.rc.dbid
          if db.keys.find keySds = none then
            return (s, c.replied (addReplyLongLongWithPrefix L c.rc.reply 0 58))
          else
            let whenMs := wrap64 (s.clock.mstime + wrap64 (seconds * 1000))
            let (set, db) ← dbSetExpire db keySds whenMs
            let s := s.setDb c.rc.dbid s.heap db
            if set then return (s, c.replied (addReplyLongLongWithPrefix L c.rc.reply 1 58))
            else return (s, c.replied (addReplyError L c.rc.reply "ERR could not set expire"))

def pingCommand (s : Server) (c : Client) : Except Fault (Server × Client) :=
  if c.rc.argc > 2 then replyWrongArity L s c
  else if c.rc.argc = 1 then return (s, c.replied (addReply L c.rc.reply sharedPong))
  else do
    let o ← object s.heap (← c.argvAt 1)
    return (s, c.replied (addReplyBulk L c.rc.reply o))

/-- `redis_module_use_lookup_key`: the key of the entry and its value. -/
def lookupKey (s : Server) (c : Client) (key : ObjId) :
    Except Fault (Server × Option (Bytes × ObjId)) := do
  let keyObj ← object s.heap key
  if keyObj.type ≠ .string then return (s, none)
  else
    let keySds ← keyObj.ptr
    let db ← s.dbAt c.rc.dbid
    let (expired, heap, db) ← expireIfNeeded s db keySds
    let s := s.setDb c.rc.dbid heap db
    if expired then return (s, none)
    else return (s, (db.keys.find keySds).map fun v ↦ (keySds, v))

/-- `redis_module_use_object_incr_count`. -/
def moduleObjectIncrCount (s : Server) (o : ObjId) : Except Fault Server := do
  let heap ← latteObjectIncrRefCount s.heap o
  return { s with heap := heap }

/-- `redis_module_use_db_add`. -/
def moduleDbAdd (s : Server) (c : Client) (key val : ObjId) : Except Fault Server := do
  let db ← s.dbAt c.rc.dbid
  let (heap, db) ← dbAddKeyValue s db key val
  return s.setDb c.rc.dbid heap db

/-- `redis_module_use_db_entry_set_value`, on the entry of `entry`. -/
def moduleDbEntrySetValue (s : Server) (c : Client) (entry : Bytes) (value : ObjId) :
    Except Fault Server := do
  let db ← s.dbAt c.rc.dbid
  let old ← deref (db.keys.find entry)
  let heap ← latteObjectDecrRefCount s.heap old
  return s.setDb c.rc.dbid heap
    { db with keys := db.keys.dictSetVal (getKvStoreIndexForKey entry) entry value }

def setCommand (s : Server) (c : Client) : Except Fault (Server × Client) :=
  if c.rc.argc ≠ 3 then
    .ok (s, { c with
      rc := replyWithSimpleString L c.rc "ERR wrong number of arguments for 'set' command" })
  else do
    let key ← c.argvAt 1
    let (s, o) ← lookupKey s c key
    match o with
    | none =>
        let value ← c.argvAt 2
        let s ← moduleObjectIncrCount s value
        let s ← moduleDbAdd s c key value
        return (s, { c with rc := replyWithSimpleString L c.rc "OK" })
    | some (entry, old) =>
        if (← object s.heap old).type = .string then
          let value ← c.argvAt 2
          let s ← moduleObjectIncrCount s value
          let s ← moduleDbEntrySetValue s c entry value
          return (s, { c with rc := replyWithSimpleString L c.rc "OK" })
        else return (s, { c with rc := replyWithWrongTypeError L c.rc })

def getCommand (s : Server) (c : Client) : Except Fault (Server × Client) :=
  if c.rc.argc ≠ 2 then
    .ok (s, { c with
      rc := replyWithSimpleString L c.rc "ERR wrong number of arguments for 'get' command" })
  else do
    let (s, o) ← lookupKey s c (← c.argvAt 1)
    match o with
    | none => return (s, { c with rc := replyWithNull L c.rc })
    | some (_, value) =>
        let o ← object s.heap value
        if o.type = .string then return (s, c.replied (addReplyBulk L c.rc.reply o))
        else return (s, { c with rc := replyWithWrongTypeError L c.rc })

/-- A handler that has nothing to do with objects. -/
def unchanged (handler : LatteRedis.Server → RedisClient → Except Fault (LatteRedis.Server × RedisClient))
    (s : Server) (c : Client) : Except Fault (Server × Client) := do
  let (_, rc) ← handler s.settings c.rc
  return (s, { c with rc := rc })

/-- `cmd->proc(rc)`; there is none for `module` and for the commands of other modules, which
run code that is loaded. -/
def proc? : CommandProc → Option (Server → Client → Except Fault (Server × Client))
  | .quit => some (unchanged (quitCommand L))
  | .module => none
  | .ping => some (pingCommand L)
  | .info => some (unchanged (infoCommand L))
  | .expire => some (expireCommand L)
  | .dispatcher .set => some (setCommand L)
  | .dispatcher .get => some (getCommand L)
  | .dispatcher (.other _) => none

/-! ## Requests -/

/-- `free_client_argv` gives up one reference for each slot. -/
def resetRedisClient (s : Server) (c : Client) : Except Fault (Server × Client) := do
  let rc ← LatteRedis.resetRedisClient c.rc
  let heap ← deref (s.heap.decrAll c.slots)
  return ({ s with heap := heap }, { rc := rc, argv := [] })

/-- `process_multibulk_buffer`.  For every slot it fills it makes a new object. -/
def processMultibulkBuffer (s : Server) (c : Client) : Except Fault (Int × Server × Client) := do
  let (code, rc) ← LatteRedis.processMultibulkBuffer L c.rc
  let (heap, objs) := s.heap.newAll (rc.args.drop c.argv.length)
  return (code, { s with heap := heap }, { rc := rc, argv := c.argv ++ objs })

/-- `process_command_and_reset_client`.  The result is `none` for a command without a
handler here. -/
def processCommandAndResetClient (s : Server) (c : Client) :
    Except Fault (Option (Server × Client)) := do
  let name ← (← object s.heap (← c.argvAt 0)).ptr
  match commandManagerLookup s.settings name with
  | none => return some (s, { c with rc := { c.rc with cmd := .null, lastcmd := .null } })
  | some cmd =>
      match proc? L cmd.proc with
      | none => return none
      | some proc =>
          let c := { c with rc := { c.rc with cmd := .live cmd, lastcmd := .live cmd } }
          let (s, c) ← proc s c
          return some (← resetRedisClient s c)

/-- One iteration of the loop of `redis_process_input_buffer`.  The result is `none` for a
request in the inline protocol. -/
def loopBody (s : Server) (c : Client) : Except Fault (Option (Server × Client)) :=
  if ¬ c.rc.qbPos < c.rc.querybuf.length then .ok (some (s, c))
  else if c.rc.closeAfterReply ∨ c.rc.closeAsap then .ok (some (s, c))
  else if selectReqType c.rc ≠ protoReqMultibulk then .ok none
  else do
    let c := { c with rc := { c.rc with reqType := protoReqMultibulk } }
    let (code, s, c) ← processMultibulkBuffer L s c
    if code ≠ 0 then return some (s, c)
    else if c.rc.argc = 0 then return some (← resetRedisClient s c)
    else processCommandAndResetClient L s c

end LatteRedis.Counted
