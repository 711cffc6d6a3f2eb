import LatteRedis.Foundation.Run
import LatteRedis.Reply.Blocks

/-!
# The client (`client.h`, `command.h`, first part of `client.c`)

`RedisClient` is `redis_client_t` together with the fields of the embedded
`latte_client_t` the server uses.  Fields that are written before they are read, and
read by nothing that is modelled (`pending_querybuf`, the three time fields), are
left out.

Command handlers are not fixed here.  A `Backend` is the server as the client code
sees it: a command lookup and a handler for each command, over some server state.
Its `frame` field says what a handler may do to the client that calls it, namely
reply to it and ask for it to be closed.
-/

namespace LatteRedis

open ByteString

/-! ## Commands -/

/-- The functions the `latte` module registers, and those of any other module. -/
inductive ModuleFunc where
  | set
  | get
  | other (n : Nat)
deriving DecidableEq, Repr

/-- `redis_command_proc_func`; the dispatcher carries the function of its proxy. -/
inductive CommandProc where
  | quit
  | module
  | ping
  | info
  | expire
  | dispatcher (func : ModuleFunc)
deriving DecidableEq, Repr

/-- `redis_command_t`, as far as dispatch looks at it. -/
structure RedisCommand where
  name : Bytes
  proc : CommandProc
deriving DecidableEq, Repr

/-! ## The client -/

/-- The block `argv` points to: its number of slots and the objects written so far. -/
structure Argv where
  slots : Nat
  vals : List LatteObject
deriving DecidableEq, Repr

/-- The objects `vals` stand for the strings `args`. -/
def Texts (vals : List LatteObject) (args : List Bytes) : Prop :=
  vals.map LatteObject.content = args ∧ ∀ o ∈ vals, o.IsText

/-- `redis_client_t`. -/
structure RedisClient where
  -- the embedded `latte_client_t`
  querybuf : Bytes
  qbPos : Nat
  reply : ReplyBuf
  /-- `CLIENT_CLOSE_AFTER_REPLY` in `client.flags`. -/
  closeAfterReply : Bool
  /-- `CLIENT_CLOSE_ASAP` in `client.flags`. -/
  closeAsap : Bool
  -- the fields of `redis_client_t` itself
  flag : BitVec 32
  reqType : Int
  readReploff : Int
  argc : Int
  argv : Ptr Argv
  cmd : Ptr RedisCommand
  lastcmd : Ptr RedisCommand
  argvLenSum : Nat
  bulkLen : Int
  multiBulkLen : Int
  replAckTime : Int
  dbid : Nat
  /-- The lines `set_protocol_error` has written to the log for this client. -/
  protocolErrors : List String
deriving DecidableEq, Repr

def protoReqInline : Int := 1
def protoReqMultibulk : Int := 2
def protoInlineMaxSize : Nat := 1024 * 64

/-- `server->proto_max_bulk_len`, set by `init_redis_server` and never written again. -/
def protoMaxBulkLen : Int := 1024 * 1024

def clientSlave : BitVec 32 := 1 <<< 0
def clientMaster : BitVec 32 := 1 <<< 1
def clientMonitor : BitVec 32 := 1 <<< 2
def clientPubsub : BitVec 32 := 1 <<< 18

/-- `CLIENT_TYPE_*`. -/
inductive ClientType where
  | normal
  | slave
  | pubsub
  | master
deriving DecidableEq, Repr

namespace RedisClient

/-- `c->flag & CLIENT_MASTER`. -/
def isMaster (rc : RedisClient) : Bool := rc.flag &&& clientMaster ≠ 0

def getClientType (rc : RedisClient) : ClientType :=
  if rc.isMaster then .master
  else if rc.flag &&& clientSlave ≠ 0 ∧ rc.flag &&& clientMonitor = 0 then .slave
  else if rc.flag &&& clientPubsub ≠ 0 then .pubsub
  else .normal

/-- The bytes received and not consumed yet. -/
def unread (rc : RedisClient) : Bytes := rc.querybuf.drop rc.qbPos

/-- `argv[0], …, argv[argc - 1]`. -/
def args (rc : RedisClient) : List LatteObject :=
  match rc.argv with
  | .live a => a.vals.take rc.argc.toNat
  | _ => []

/-- The read `argv[i]`. -/
def argvAt (rc : RedisClient) (i : Nat) : Except Fault LatteObject :=
  match rc.argv with
  | .live a =>
      match a.vals[i]? with
      | some o => .ok o
      | none => .error .badPointer
  | _ => .error .badPointer

/-- The write `argv[argc++] = o`. -/
def pushArg (rc : RedisClient) (o : LatteObject) : Except Fault RedisClient :=
  match rc.argv with
  | .live a =>
      if 0 ≤ rc.argc ∧ rc.argc < a.slots then
        .ok { rc with
          argv := .live { a with vals := a.vals.take rc.argc.toNat ++ [o] }
          argc := rc.argc + 1 }
      else .error .badPointer
  | _ => .error .badPointer

/-- `if (argv) zfree(argv); argv = zmalloc(sizeof(latte_object_t*) * slots);` -/
def newArgv (rc : RedisClient) (slots : Nat) : Except Fault RedisClient :=
  match rc.argv with
  | .wild => .error .badPointer
  | _ => .ok { rc with argv := .live { slots := slots, vals := [] }, argvLenSum := 0 }

/-- The vector of `rc` holds the strings `args`, in objects a parser makes. -/
def Holds (rc : RedisClient) (args : List Bytes) : Prop :=
  rc.argc = args.length ∧ ∃ slots vals, rc.argv = .live ⟨slots, vals⟩ ∧ Texts vals args

/-- The state a client is in between two requests. -/
def IsReset (rc : RedisClient) : Prop :=
  rc.reqType = 0 ∧ rc.argc = 0 ∧ rc.multiBulkLen = 0 ∧ rc.bulkLen = -1

instance (rc : RedisClient) : Decidable rc.IsReset :=
  inferInstanceAs (Decidable (_ ∧ _ ∧ _ ∧ _))

/-- A client that has received nothing. -/
def idle : RedisClient where
  querybuf := []
  qbPos := 0
  reply := {}
  closeAfterReply := false
  closeAsap := false
  flag := 0
  reqType := 0
  readReploff := 0
  argc := 0
  argv := .null
  cmd := .null
  lastcmd := .null
  argvLenSum := 0
  bulkLen := -1
  multiBulkLen := 0
  replAckTime := 0
  dbid := 0
  protocolErrors := []

end RedisClient

/-! ## Resetting -/

/-- Every object below `argc` is released, so every such slot is read. -/
def freeClientArgv (rc : RedisClient) : Except Fault RedisClient :=
  if rc.args.length = rc.argc.toNat then
    .ok { rc with argc := 0, cmd := .null, argvLenSum := 0 }
  else .error .badPointer

def resetRedisClient (rc : RedisClient) : Except Fault RedisClient :=
  -- `prev_cmd` is read from `rc->cmd` before anything else
  match rc.cmd with
  | .wild => .error .badPointer
  | _ => do
      let rc ← freeClientArgv rc
      return { rc with reqType := 0, multiBulkLen := 0, bulkLen := -1 }

/-- Writes a line to the log. -/
def setProtocolError (errstr : String) (rc : RedisClient) : RedisClient :=
  { rc with protocolErrors := rc.protocolErrors ++ [errstr] }

/-- A protocol error is replied and then logged. -/
def protocolError (L : LatteC) (reply errstr : String) (rc : RedisClient) : RedisClient :=
  setProtocolError errstr { rc with reply := addReplyError L rc.reply reply }

def authRequired (_rc : RedisClient) : Bool := false

/-! ## The server behind the client -/

/-- The part of a client a handler may change. -/
def RedisClient.SameParser (rc rc' : RedisClient) : Prop :=
  rc' = { rc with
    reply := rc'.reply, closeAfterReply := rc'.closeAfterReply, closeAsap := rc'.closeAsap }

/-- The server as `client.c` uses it, over a server state `σ`. -/
structure Backend (σ : Type) where
  /-- `command_manager_lookup`. -/
  lookup : σ → Bytes → Option RedisCommand
  /-- `cmd->proc`. -/
  proc : RedisCommand → σ → RedisClient → Except Fault (σ × RedisClient)
  /-- `server->current_client == NULL` after a handler has run. -/
  clientGone : σ → Bool
  /-- `server->unixtime`. -/
  unixtime : σ → Int
  /-- A handler replies to its client and may mark it for closing, no more. -/
  frame : ∀ {cmd s rc s' rc'}, proc cmd s rc = .ok (s', rc') → rc.SameParser rc'

/-! ## Lemmas -/

@[simp] theorem setProtocolError_reply (e : String) (rc : RedisClient) :
    (setProtocolError e rc).reply = rc.reply := rfl

theorem Texts.length_eq {vals : List LatteObject} {args : List Bytes} (h : Texts vals args) :
    vals.length = args.length := by rw [← h.1, List.length_map]

theorem Texts.concat {vals : List LatteObject} {args : List Bytes} (h : Texts vals args)
    {o : LatteObject} (ho : o.IsText) {s : Bytes} (hs : o.content = s) :
    Texts (vals ++ [o]) (args ++ [s]) := by
  refine ⟨by rw [List.map_append, h.1, List.map_singleton, hs], ?_⟩
  intro o' ho'
  rcases List.mem_append.mp ho' with h' | h'
  · exact h.2 o' h'
  · rw [List.mem_singleton.mp h']
    exact ho

/-- The arguments of a request are where its handler looks for them. -/
theorem RedisClient.Holds.argvAt {rc : RedisClient} {args : List Bytes} (h : rc.Holds args)
    {i : Nat} {s : Bytes} (hi : args[i]? = some s) :
    ∃ o, rc.argvAt i = .ok o ∧ o.IsText ∧ o.content = s := by
  obtain ⟨-, slots, vals, hargv, hvals, htext⟩ := h
  rw [← hvals, List.getElem?_map, Option.map_eq_some_iff] at hi
  obtain ⟨o, ho, hs⟩ := hi
  refine ⟨o, ?_, htext o (List.mem_of_getElem? ho), hs⟩
  unfold RedisClient.argvAt
  rw [hargv]
  simp only [ho]

theorem RedisClient.Holds.args_eq {rc : RedisClient} {args : List Bytes} (h : rc.Holds args) :
    rc.args.length = rc.argc.toNat ∧ rc.args.map LatteObject.content = args := by
  obtain ⟨hargc, slots, vals, hargv, htexts⟩ := h
  have hargs : rc.args = vals := by
    rw [RedisClient.args, hargv]
    simp only [hargc, Int.toNat_natCast]
    rw [← htexts.length_eq, List.take_length]
  rw [hargs, hargc, htexts.length_eq, Int.toNat_natCast]
  exact ⟨rfl, htexts.1⟩

theorem freeClientArgv_ok {rc : RedisClient} (h : rc.args.length = rc.argc.toNat) :
    freeClientArgv rc = .ok { rc with argc := 0, cmd := .null, argvLenSum := 0 } := if_pos h

/-- A client whose argument vector is readable can be reset. -/
theorem resetRedisClient_ok {rc : RedisClient} (hcmd : rc.cmd ≠ .wild)
    (h : rc.args.length = rc.argc.toNat) :
    resetRedisClient rc = .ok { rc with
      argc := 0, cmd := .null, argvLenSum := 0, reqType := 0, multiBulkLen := 0, bulkLen := -1 } := by
  unfold resetRedisClient
  cases hc : rc.cmd with
  | wild => exact absurd hc hcmd
  | null | live c => rw [freeClientArgv_ok h, Run.ok_bind]; rfl

/-- A reset gives up the request, and keeps the buffer and the output. -/
theorem resetRedisClient_ends {rc rc' : RedisClient} (h : resetRedisClient rc = .ok rc') :
    rc' = { rc with
      argc := 0, cmd := .null, argvLenSum := 0, reqType := 0, multiBulkLen := 0, bulkLen := -1 } := by
  unfold resetRedisClient at h
  cases hc : rc.cmd with
  | wild =>
      rw [hc] at h
      cases h
  | null | live cmd =>
      rw [hc] at h
      obtain ⟨rc₁, hfree, h⟩ := Run.bind_eq_ok.mp h
      unfold freeClientArgv at hfree
      split at hfree <;> cases hfree
      cases h
      rfl

theorem resetRedisClient_isReset {rc rc' : RedisClient} (h : resetRedisClient rc = .ok rc') :
    rc'.IsReset := by
  rw [resetRedisClient_ends h]
  exact ⟨rfl, rfl, rfl, rfl⟩

end LatteRedis
