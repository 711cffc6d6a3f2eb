import LatteRedis.Client.InputBuffer
import LatteRedis.Db.Basic

/-!
# Command handlers (`commands/`, `modules/string.c`, the module API of `module.c`)

Each handler takes the server and the client that calls it and returns both.  Handlers
read their arguments through `argvAt` and `ptr`, so a read behind the end of the vector
or through something that is not a pointer stops the run.

Loading a shared object runs code the repository does not contain, and so do the
commands of other modules than `latte`.  What they do is the parameter `Extension`.
-/

namespace LatteRedis

open ByteString

/-- Code that is loaded at run time. -/
structure Extension where
  /-- `module_load`: the path, the arguments behind it, and whether it returned `0`. -/
  moduleLoad : Server → Bytes → List LatteObject → Server × Bool
  /-- The functions other modules register.  They reach their client through the reply
  functions only. -/
  func : Nat → Server → RedisClient → Except Fault (Server × ReplyBuf)

variable (L : LatteC) (E : Extension)

/-- The client with a new output. -/
def RedisClient.replied (rc : RedisClient) (reply : ReplyBuf) : RedisClient :=
  { rc with reply := reply }

/-- `c->cmd->name`. -/
def RedisClient.cmdName (rc : RedisClient) : Except Fault Bytes :=
  match rc.cmd with
  | .live cmd => .ok cmd.name
  | _ => .error .badPointer

/-! ## Built-in commands -/

def quitCommand (server : Server) (rc : RedisClient) : Except Fault (Server × RedisClient) :=
  .ok (server, { rc with reply := addReply L rc.reply sharedOk, closeAfterReply := true })

/-- `"wrong number of arguments for '%s' command"`. -/
def wrongArity (name : Bytes) : Bytes :=
  ascii "wrong number of arguments for '" ++ cString name ++ ascii "' command"

def replyWrongArity (server : Server) (rc : RedisClient) : Except Fault (Server × RedisClient) := do
  let name ← rc.cmdName
  return (server, rc.replied (addReplyErrorFormat L rc.reply (wrongArity name)))

def expireCommand (server : Server) (rc : RedisClient) : Except Fault (Server × RedisClient) :=
  if rc.argc ≠ 3 then replyWrongArity L server rc
  else do
    let outOfRange := (server, rc.replied
      (addReplyError L rc.reply "ERR value is not an integer or out of range"))
    match L.string2ll (← (← rc.argvAt 2).ptr) with
    | none => return outOfRange
    | some seconds =>
        if seconds < 0 then return outOfRange
        else
          let keySds ← (← rc.argvAt 1).ptr
          let db ← server.dbAt rc.dbid
          if db.keys.find keySds = none then
            return (server, rc.replied (addReplyLongLongWithPrefix L rc.reply 0 58))
          else
            let whenMs := wrap64 (server.clock.mstime + wrap64 (seconds * 1000))
            let (set, db) ← dbSetExpire db keySds whenMs
            let server := server.setDb rc.dbid db
            if set then
              return (server, rc.replied (addReplyLongLongWithPrefix L rc.reply 1 58))
            else
              return (server, rc.replied (addReplyError L rc.reply "ERR could not set expire"))

def pingCommand (server : Server) (rc : RedisClient) : Except Fault (Server × RedisClient) :=
  if rc.argc > 2 then replyWrongArity L server rc
  else if rc.argc = 1 then return (server, rc.replied (addReply L rc.reply sharedPong))
  else do
    let o ← rc.argvAt 1
    return (server, rc.replied (addReplyBulk L rc.reply o))

/-- The length passed for the fifteen bytes of the text is sixteen. -/
def infoCommand (server : Server) (rc : RedisClient) : Except Fault (Server × RedisClient) :=
  .ok (server, rc.replied (addReplyProto L rc.reply (ascii "Not implemented" ++ [0])))

/-! ## The `module` command -/

def moduleHelp : List Bytes :=
  [ ascii "LIST"
  , ascii "  Return a list of loaded modules."
  , ascii "LOAD <path> [<arg> ...]"
  , ascii "  Load a module library from <path>, passing to it any optional arguments."
  , ascii "UNLOAD <name>"
  , ascii "  Unload a module." ]

theorem moduleHelp_length : moduleHelp.length + 3 < 2 ^ 31 := by decide

def moduleHelpCommand (server : Server) (rc : RedisClient) : Except Fault (Server × RedisClient) := do
  let cmd ← (← rc.argvAt 0).ptr
  let reply ← addReplyHelp L rc.reply cmd moduleHelp
  return (server, rc.replied reply)

def moduleLoadCommand (server : Server) (rc : RedisClient) : Except Fault (Server × RedisClient) := do
  let path ← (← rc.argvAt 2).ptr
  let (server, loaded) := E.moduleLoad server (cString path) (rc.args.drop 3)
  if loaded then return (server, rc.replied (addReply L rc.reply sharedOk))
  else
    return (server, rc.replied (addReplyError L rc.reply
      "Error loading the extension. Please check the server logs."))

def moduleUnloadCommand (server : Server) (rc : RedisClient) : Except Fault (Server × RedisClient) :=
  .ok (server, rc)

def moduleListCommand (server : Server) (rc : RedisClient) : Except Fault (Server × RedisClient) :=
  .ok (server, rc)

def moduleCommand (server : Server) (rc : RedisClient) : Except Fault (Server × RedisClient) := do
  let subcmd ← (← rc.argvAt 1).ptr
  if rc.argc = 2 ∧ strcaseeq subcmd (ascii "help") then moduleHelpCommand L server rc
  else if strcaseeq subcmd (ascii "load") ∧ rc.argc ≥ 3 then moduleLoadCommand L E server rc
  else if strcaseeq subcmd (ascii "unload") ∧ rc.argc ≥ 3 then moduleUnloadCommand server rc
  else if strcaseeq subcmd (ascii "list") ∧ rc.argc ≥ 3 then moduleListCommand server rc
  else return (server, rc)

/-! ## The module API and the `latte` module -/

/-- `redis_module_use_reply_with_simple_string`. -/
def replyWithSimpleString (rc : RedisClient) (msg : String) : RedisClient :=
  rc.replied (addReplyProto L (addReplyProto L (addReplyProto L rc.reply [43]) (ascii msg)) crlf)

/-- `redis_module_use_reply_with_null`. -/
def replyWithNull (rc : RedisClient) : RedisClient :=
  rc.replied (addReplyProto L rc.reply (ascii "*-1" ++ crlf))

/-- `redis_module_use_reply_with_wrong_type_error`. -/
def replyWithWrongTypeError (rc : RedisClient) : RedisClient :=
  rc.replied (addReply L rc.reply sharedWrongtypeerr)

/-- `redis_module_use_lookup_key`: the key of the entry and its value. -/
def lookupKey (server : Server) (rc : RedisClient) (key : LatteObject) :
    Except Fault (Server × Option (Bytes × LatteObject)) :=
  if key.type ≠ .string then .ok (server, none)
  else do
    let keySds ← key.ptr
    let db ← server.dbAt rc.dbid
    let (expired, db) ← expireIfNeeded server db keySds
    let server := server.setDb rc.dbid db
    if expired then return (server, none)
    else return (server, (db.keys.find keySds).map fun v ↦ (keySds, v))

/-- `redis_module_use_db_add`; nobody looks at what it returns. -/
def moduleDbAdd (server : Server) (rc : RedisClient) (key val : LatteObject) :
    Except Fault Server := do
  let db ← server.dbAt rc.dbid
  let db ← dbAddKeyValue server db key val
  return server.setDb rc.dbid db

/-- `redis_module_use_db_entry_set_value`, on the entry of `entry`. -/
def moduleDbEntrySetValue (server : Server) (rc : RedisClient) (entry : Bytes)
    (value : LatteObject) : Except Fault Server := do
  let db ← server.dbAt rc.dbid
  return server.setDb rc.dbid
    { db with keys := db.keys.dictSetVal (getKvStoreIndexForKey entry) entry value }

def setCommand (server : Server) (rc : RedisClient) : Except Fault (Server × RedisClient) :=
  if rc.argc ≠ 3 then
    .ok (server, replyWithSimpleString L rc "ERR wrong number of arguments for 'set' command")
  else do
    let key ← rc.argvAt 1
    let (server, o) ← lookupKey server rc key
    match o with
    | none =>
        let server ← moduleDbAdd server rc key (← rc.argvAt 2)
        return (server, replyWithSimpleString L rc "OK")
    | some (entry, value) =>
        if value.type = .string then
          let server ← moduleDbEntrySetValue server rc entry (← rc.argvAt 2)
          return (server, replyWithSimpleString L rc "OK")
        else return (server, replyWithWrongTypeError L rc)

def getCommand (server : Server) (rc : RedisClient) : Except Fault (Server × RedisClient) :=
  if rc.argc ≠ 2 then
    .ok (server, replyWithSimpleString L rc "ERR wrong number of arguments for 'get' command")
  else do
    let (server, o) ← lookupKey server rc (← rc.argvAt 1)
    match o with
    | none => return (server, replyWithNull L rc)
    | some (_, value) =>
        if value.type = .string then return (server, rc.replied (addReplyBulk L rc.reply value))
        else return (server, replyWithWrongTypeError L rc)

/-- `redis_module_command_dispatcher`. -/
def moduleCommandDispatcher (func : ModuleFunc) (server : Server) (rc : RedisClient) :
    Except Fault (Server × RedisClient) :=
  match func with
  | .set => setCommand L server rc
  | .get => getCommand L server rc
  | .other n => do
      let (server, reply) ← E.func n server rc
      return (server, rc.replied reply)

/-! ## The command table -/

/-- `redis_command_table`. -/
def redisCommandTable : List RedisCommand :=
  [ ⟨ascii "quit", .quit⟩
  , ⟨ascii "module", .module⟩
  , ⟨ascii "ping", .ping⟩
  , ⟨ascii "info", .info⟩
  , ⟨ascii "expire", .expire⟩ ]

/-- What `init_string_module` registers. -/
def latteModuleCommands : List RedisCommand :=
  [ ⟨ascii "set", .dispatcher .set⟩
  , ⟨ascii "get", .dispatcher .get⟩ ]

/-- `cmd->proc(rc)`. -/
def CommandProc.run (proc : CommandProc) (server : Server) (rc : RedisClient) :
    Except Fault (Server × RedisClient) :=
  match proc with
  | .quit => quitCommand L server rc
  | .module => moduleCommand L E server rc
  | .ping => pingCommand L server rc
  | .info => infoCommand L server rc
  | .expire => expireCommand L server rc
  | .dispatcher func => moduleCommandDispatcher L E func server rc

/-- `command_manager_lookup`; names are compared without regard to case. -/
def commandManagerLookup (server : Server) (name : Bytes) : Option RedisCommand :=
  server.commands.find? fun cmd ↦ cmd.name.map lower = name.map lower

/-! ## Handlers leave the parser alone -/

variable {L E}

/-- `rc'` is `rc` with another output. -/
def RedisClient.OnlyReplied (rc rc' : RedisClient) : Prop := rc' = rc.replied rc'.reply

theorem onlyReplied_of_ok {server server' : Server} {rc rc' : RedisClient} {r : ReplyBuf}
    (h : (Except.ok (server, rc.replied r) : Except Fault _) = .ok (server', rc')) :
    rc.OnlyReplied rc' := by
  cases h
  rfl

theorem replyWrongArity_onlyReplied {server server' : Server} {rc rc' : RedisClient}
    (h : replyWrongArity L server rc = .ok (server', rc')) : rc.OnlyReplied rc' := by
  obtain ⟨name, -, h⟩ := Run.bind_eq_ok.mp h
  exact onlyReplied_of_ok h

theorem expireCommand_onlyReplied {server server' : Server} {rc rc' : RedisClient}
    (h : expireCommand L server rc = .ok (server', rc')) : rc.OnlyReplied rc' := by
  unfold expireCommand at h
  split at h
  · exact replyWrongArity_onlyReplied h
  · obtain ⟨o, -, h⟩ := Run.bind_eq_ok.mp h
    obtain ⟨secs, -, h⟩ := Run.bind_eq_ok.mp h
    split at h
    · exact onlyReplied_of_ok h
    · split at h
      · exact onlyReplied_of_ok h
      · obtain ⟨o, -, h⟩ := Run.bind_eq_ok.mp h
        obtain ⟨key, -, h⟩ := Run.bind_eq_ok.mp h
        obtain ⟨db, -, h⟩ := Run.bind_eq_ok.mp h
        split at h
        · exact onlyReplied_of_ok h
        · obtain ⟨⟨set, db'⟩, -, h⟩ := Run.bind_eq_ok.mp h
          dsimp only at h
          split at h <;> exact onlyReplied_of_ok h

theorem pingCommand_onlyReplied {server server' : Server} {rc rc' : RedisClient}
    (h : pingCommand L server rc = .ok (server', rc')) : rc.OnlyReplied rc' := by
  unfold pingCommand at h
  split at h
  · exact replyWrongArity_onlyReplied h
  · split at h
    · exact onlyReplied_of_ok h
    · obtain ⟨o, -, h⟩ := Run.bind_eq_ok.mp h
      exact onlyReplied_of_ok h

theorem moduleCommand_onlyReplied {server server' : Server} {rc rc' : RedisClient}
    (h : moduleCommand L E server rc = .ok (server', rc')) : rc.OnlyReplied rc' := by
  obtain ⟨o, -, h⟩ := Run.bind_eq_ok.mp h
  obtain ⟨subcmd, -, h⟩ := Run.bind_eq_ok.mp h
  split at h
  · obtain ⟨o, -, h⟩ := Run.bind_eq_ok.mp h
    obtain ⟨cmd, -, h⟩ := Run.bind_eq_ok.mp h
    obtain ⟨reply, -, h⟩ := Run.bind_eq_ok.mp h
    exact onlyReplied_of_ok h
  · split at h
    · obtain ⟨o, -, h⟩ := Run.bind_eq_ok.mp h
      obtain ⟨path, -, h⟩ := Run.bind_eq_ok.mp h
      dsimp only at h
      split at h <;> exact onlyReplied_of_ok h
    · split at h
      · cases h; rfl
      · split at h <;> cases h <;> rfl

theorem setCommand_onlyReplied {server server' : Server} {rc rc' : RedisClient}
    (h : setCommand L server rc = .ok (server', rc')) : rc.OnlyReplied rc' := by
  unfold setCommand at h
  split at h
  · exact onlyReplied_of_ok h
  · obtain ⟨key, -, h⟩ := Run.bind_eq_ok.mp h
    obtain ⟨⟨server₁, o⟩, -, h⟩ := Run.bind_eq_ok.mp h
    cases o with
    | none =>
        obtain ⟨v, -, h⟩ := Run.bind_eq_ok.mp h
        obtain ⟨server₂, -, h⟩ := Run.bind_eq_ok.mp h
        exact onlyReplied_of_ok h
    | some e =>
        dsimp only at h
        split at h
        · obtain ⟨v, -, h⟩ := Run.bind_eq_ok.mp h
          obtain ⟨server₂, -, h⟩ := Run.bind_eq_ok.mp h
          exact onlyReplied_of_ok h
        · exact onlyReplied_of_ok h

theorem getCommand_onlyReplied {server server' : Server} {rc rc' : RedisClient}
    (h : getCommand L server rc = .ok (server', rc')) : rc.OnlyReplied rc' := by
  unfold getCommand at h
  split at h
  · exact onlyReplied_of_ok h
  · obtain ⟨key, -, h⟩ := Run.bind_eq_ok.mp h
    obtain ⟨⟨server₁, o⟩, -, h⟩ := Run.bind_eq_ok.mp h
    cases o with
    | none => exact onlyReplied_of_ok h
    | some e =>
        dsimp only at h
        split at h <;> exact onlyReplied_of_ok h

/-- Every handler but the one of `QUIT` replies to its client, and nothing else. -/
theorem CommandProc.run_onlyReplied {proc : CommandProc} (hquit : proc ≠ .quit)
    {server server' : Server} {rc rc' : RedisClient}
    (h : proc.run L E server rc = .ok (server', rc')) : rc.OnlyReplied rc' := by
  match proc with
  | .quit => exact absurd rfl hquit
  | .module => exact moduleCommand_onlyReplied h
  | .ping => exact pingCommand_onlyReplied h
  | .info => cases h; rfl
  | .expire => exact expireCommand_onlyReplied h
  | .dispatcher .set => exact setCommand_onlyReplied h
  | .dispatcher .get => exact getCommand_onlyReplied h
  | .dispatcher (.other n) =>
      obtain ⟨⟨server₁, reply⟩, -, h⟩ := Run.bind_eq_ok.mp h
      exact onlyReplied_of_ok h

/-- Handlers reply to their client and may ask for it to be closed. -/
theorem CommandProc.run_sameParser {proc : CommandProc} {server server' : Server}
    {rc rc' : RedisClient} (h : proc.run L E server rc = .ok (server', rc')) :
    rc.SameParser rc' := by
  by_cases hquit : proc = .quit
  · subst hquit
    cases h
    rfl
  · have honly := run_onlyReplied hquit h
    unfold RedisClient.OnlyReplied at honly
    rw [honly]
    rfl

variable (L E)

/-- The server behind the client.  No handler clears `current_client`. -/
def backend : Backend Server where
  lookup := commandManagerLookup
  proc cmd server rc := cmd.proc.run L E server rc
  clientGone _ := false
  unixtime server := server.clock.unixtime
  frame h := CommandProc.run_sameParser h

/-- The server, with the values `process_inline_buffer` finds on its stack. -/
def machine (stack : Nat → Int) : Machine Server where
  lib := L
  backend := backend L E
  stack := stack

/-- The server after `start_redis_server`, with the `latte` module loaded. -/
def startRedisServer (dbNum : Nat) (hz : Int) (clock : Clock) : Server where
  dbs := initRedisServerDbs dbNum
  commands := redisCommandTable ++ latteModuleCommands
  hz := hz
  maxmemoryPolicy := 0
  clock := clock

/-- Every attempt to load another module fails, and nothing else was loaded. -/
def Extension.absent : Extension where
  moduleLoad server _ _ := (server, false)
  func _ server rc := .ok (server, rc.reply)

/-- The server and a client that has just connected to it. -/
def freshConn : Conn Server := { rc := .idle, server := startRedisServer 16 10 ⟨0, 0, 0⟩ }

/-- The server of the example runs. -/
def sampleMachine : Machine Server := machine LatteC.sample .absent fun _ ↦ 0

end LatteRedis
