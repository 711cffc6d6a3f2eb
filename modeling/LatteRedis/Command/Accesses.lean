import LatteRedis.Command.Frame
import LatteRedis.Foundation.Traced

/-!
# What handlers read

The handlers once more, as traced computations: every read of `argv`, every
`server->dbs + c->dbid` and the division in `lru_clock` is an event, noted before its
outcome is known.  `run_result` says that these are the handlers of
`LatteRedis.Command.Handlers`: with the trace forgotten nothing is left to tell them apart.

Nothing but the handlers themselves keeps a read of `argv` below `argc`; the arities in
the command table are not looked at.  `run_argv_iff` says which request gets past that:
`MODULE` without a subcommand.
-/

namespace LatteRedis

open ByteString

/-- The accesses that can go wrong. -/
inductive Access where
  | /-- A read of `argv[i]`. -/ argv (i : Nat)
  | /-- The address `server->dbs + dbid`. -/ db (dbid : Nat)
  | /-- The division `1000/server->hz`. -/ divide (hz : Int)
deriving DecidableEq, Repr

/-- A computation of the server with its accesses. -/
abbrev Accessing := Traced Access Fault

namespace Access

variable (L : LatteC) (E : Extension)

open Traced

/-- The read `c->argv[i]`. -/
def readArg (rc : RedisClient) (i : Nat) : Accessing LatteObject := do
  emit (.argv i)
  rc.argvAt i

/-! ## The functions of `db.c` -/

def lruClock (server : Server) : Accessing Nat := do
  emit (.divide server.hz)
  LatteRedis.lruClock server

def initObjectLruOrLfu (server : Server) (o : LatteObject) : Accessing LatteObject :=
  if o.shared then return o
  else if server.maxmemoryPolicy &&& maxmemoryFlagLfu ≠ 0 then
    return { o with lru := (lfuGetTimeInMinutes server <<< 8 ||| lfuInitVal) % lruRange }
  else do
    let clock ← lruClock server
    return { o with lru := clock % lruRange }

def dbAddKeyValueInternal (server : Server) (db : RedisDb) (key val : LatteObject) :
    Accessing RedisDb :=
  if key.type ≠ .string then liftM (Except.error (Fault.assertion "key is not a string"))
  else do
    let keyPtr ← key.ptr
    let dictIndex := getKvStoreIndexForKey keyPtr
    let newKey := cString keyPtr
    let (added, keys) ← db.keys.dictAddRaw dictIndex newKey
    if added then
      let val ← initObjectLruOrLfu server val
      return { db with keys := keys.dictSetVal dictIndex newKey val }
    else dbSetValue { db with keys := keys } key val true (some newKey)

/-! ## Built-in commands -/

/-- `db` is computed before the number of arguments is checked. -/
def expireCommand (server : Server) (rc : RedisClient) : Accessing (Server × RedisClient) := do
  emit (.db rc.dbid)
  if rc.argc ≠ 3 then replyWrongArity L server rc
  else
    let outOfRange := (server, rc.replied
      (addReplyError L rc.reply "ERR value is not an integer or out of range"))
    match L.string2ll (← (← readArg rc 2).ptr) with
    | none => return outOfRange
    | some seconds =>
        if seconds < 0 then return outOfRange
        else
          let keySds ← (← readArg rc 1).ptr
          let db ← server.dbAt rc.dbid
          if db.keys.find keySds = none then
            return (server, rc.replied (addReplyLongLongWithPrefix L rc.reply 0 58))
          else
            let whenMs := wrap64 (server.clock.mstime + wrap64 (seconds * 1000))
            let (set, db) ← dbSetExpire db keySds whenMs
            let server := server.setDb rc.dbid db
            if set then
              return (server, rc.replied (addReplyLongLongWithPrefix L rc.reply 1 58))
            else
              return (server, rc.replied (addReplyError L rc.reply "ERR could not set expire"))

def pingCommand (server : Server) (rc : RedisClient) : Accessing (Server × RedisClient) :=
  if rc.argc > 2 then replyWrongArity L server rc
  else if rc.argc = 1 then return (server, rc.replied (addReply L rc.reply sharedPong))
  else do
    let o ← readArg rc 1
    return (server, rc.replied (addReplyBulk L rc.reply o))

/-- `add_reply_help` reads the name of the command from `argv[0]`. -/
def moduleHelpCommand (server : Server) (rc : RedisClient) : Accessing (Server × RedisClient) := do
  let cmd ← (← readArg rc 0).ptr
  let reply ← addReplyHelp L rc.reply cmd moduleHelp
  return (server, rc.replied reply)

def moduleLoadCommand (server : Server) (rc : RedisClient) : Accessing (Server × RedisClient) := do
  let path ← (← readArg rc 2).ptr
  let (server, loaded) := E.moduleLoad server (cString path) (rc.args.drop 3)
  if loaded then return (server, rc.replied (addReply L rc.reply sharedOk))
  else
    return (server, rc.replied (addReplyError L rc.reply
      "Error loading the extension. Please check the server logs."))

/-- The subcommand is read before the number of arguments is looked at. -/
def moduleCommand (server : Server) (rc : RedisClient) : Accessing (Server × RedisClient) := do
  let subcmd ← (← readArg rc 1).ptr
  if rc.argc = 2 ∧ strcaseeq subcmd (ascii "help") then moduleHelpCommand L server rc
  else if strcaseeq subcmd (ascii "load") ∧ rc.argc ≥ 3 then moduleLoadCommand L E server rc
  else if strcaseeq subcmd (ascii "unload") ∧ rc.argc ≥ 3 then moduleUnloadCommand server rc
  else if strcaseeq subcmd (ascii "list") ∧ rc.argc ≥ 3 then moduleListCommand server rc
  else return (server, rc)

/-! ## The module API and the `latte` module -/

def lookupKey (server : Server) (rc : RedisClient) (key : LatteObject) :
    Accessing (Server × Option (Bytes × LatteObject)) :=
  if key.type ≠ .string then return (server, none)
  else do
    let keySds ← key.ptr
    emit (.db rc.dbid)
    let db ← server.dbAt rc.dbid
    let (expired, db) ← expireIfNeeded server db keySds
    let server := server.setDb rc.dbid db
    if expired then return (server, none)
    else return (server, (db.keys.find keySds).map fun v ↦ (keySds, v))

def moduleDbAdd (server : Server) (rc : RedisClient) (key val : LatteObject) :
    Accessing Server := do
  emit (.db rc.dbid)
  let db ← server.dbAt rc.dbid
  let db ← dbAddKeyValueInternal server db key val
  return server.setDb rc.dbid db

def setCommand (server : Server) (rc : RedisClient) : Accessing (Server × RedisClient) :=
  if rc.argc ≠ 3 then
    return (server, replyWithSimpleString L rc "ERR wrong number of arguments for 'set' command")
  else do
    let key ← readArg rc 1
    let (server, o) ← lookupKey server rc key
    match o with
    | none =>
        let server ← moduleDbAdd server rc key (← readArg rc 2)
        return (server, replyWithSimpleString L rc "OK")
    | some (entry, value) =>
        if value.type = .string then
          -- the entry is at hand, so no database is looked for
          let server ← moduleDbEntrySetValue server rc entry (← readArg rc 2)
          return (server, replyWithSimpleString L rc "OK")
        else return (server, replyWithWrongTypeError L rc)

def getCommand (server : Server) (rc : RedisClient) : Accessing (Server × RedisClient) :=
  if rc.argc ≠ 2 then
    return (server, replyWithSimpleString L rc "ERR wrong number of arguments for 'get' command")
  else do
    let (server, o) ← lookupKey server rc (← readArg rc 1)
    match o with
    | none => return (server, replyWithNull L rc)
    | some (_, value) =>
        if value.type = .string then return (server, rc.replied (addReplyBulk L rc.reply value))
        else return (server, replyWithWrongTypeError L rc)

/-- `cmd->proc(rc)`. -/
def run (proc : CommandProc) (server : Server) (rc : RedisClient) :
    Accessing (Server × RedisClient) :=
  match proc with
  | .quit => quitCommand L server rc
  | .module => moduleCommand L E server rc
  | .ping => pingCommand L server rc
  | .info => infoCommand L server rc
  | .expire => expireCommand L server rc
  | .dispatcher .set => setCommand L server rc
  | .dispatcher .get => getCommand L server rc
  | .dispatcher (.other n) => moduleCommandDispatcher L E (.other n) server rc

/-! ## Forgetting the accesses -/

variable {L E}

@[simp] theorem readArg_result (rc : RedisClient) (i : Nat) :
    (readArg rc i).result = rc.argvAt i := rfl

@[simp] theorem lruClock_result (server : Server) :
    (lruClock server).result = LatteRedis.lruClock server := rfl

@[simp] theorem initObjectLruOrLfu_result (server : Server) (o : LatteObject) :
    (initObjectLruOrLfu server o).result = LatteRedis.initObjectLruOrLfu server o := by
  unfold initObjectLruOrLfu LatteRedis.initObjectLruOrLfu
  simp only [result_ite, result_pure, result_bind, lruClock_result, Run.pure_eq]

@[simp] theorem dbAddKeyValueInternal_result (server : Server) (db : RedisDb)
    (key val : LatteObject) : (dbAddKeyValueInternal server db key val).result =
      LatteRedis.dbAddKeyValueInternal server db key val := by
  unfold dbAddKeyValueInternal LatteRedis.dbAddKeyValueInternal
  simp only [result_ite, result_bind, result_lift, result_pure, initObjectLruOrLfu_result,
    Run.pure_eq]

@[simp] theorem lookupKey_result (server : Server) (rc : RedisClient) (key : LatteObject) :
    (lookupKey server rc key).result = LatteRedis.lookupKey server rc key := by
  unfold lookupKey LatteRedis.lookupKey
  simp only [result_ite, result_bind, result_lift, result_emit, result_pure, Run.ok_bind,
    Run.pure_eq]

@[simp] theorem moduleDbAdd_result (server : Server) (rc : RedisClient) (key val : LatteObject) :
    (moduleDbAdd server rc key val).result = LatteRedis.moduleDbAdd server rc key val := by
  unfold moduleDbAdd LatteRedis.moduleDbAdd dbAddKeyValue
  simp only [result_bind, result_lift, result_emit, result_pure, Run.ok_bind, Run.pure_eq,
    dbAddKeyValueInternal_result]

theorem expireCommand_result (server : Server) (rc : RedisClient) :
    (expireCommand L server rc).result = LatteRedis.expireCommand L server rc := by
  unfold expireCommand LatteRedis.expireCommand
  simp only [result_bind, result_emit, Run.ok_bind, result_ite, result_lift, readArg_result]
  split
  · rfl
  · congr 1
    funext o
    congr 1
    funext secs
    cases L.string2ll secs with
    | none => rfl
    | some seconds =>
        simp only [result_bind, result_ite, result_lift, result_pure, readArg_result, Run.pure_eq]

theorem pingCommand_result (server : Server) (rc : RedisClient) :
    (pingCommand L server rc).result = LatteRedis.pingCommand L server rc := by
  unfold pingCommand LatteRedis.pingCommand
  simp only [result_bind, result_ite, result_lift, result_pure, readArg_result, Run.pure_eq]

theorem moduleCommand_result (server : Server) (rc : RedisClient) :
    (moduleCommand L E server rc).result = LatteRedis.moduleCommand L E server rc := by
  unfold moduleCommand LatteRedis.moduleCommand moduleHelpCommand LatteRedis.moduleHelpCommand
    moduleLoadCommand LatteRedis.moduleLoadCommand
  simp only [result_bind, result_ite, result_lift, result_pure, readArg_result, Run.pure_eq]

theorem setCommand_result (server : Server) (rc : RedisClient) :
    (setCommand L server rc).result = LatteRedis.setCommand L server rc := by
  unfold setCommand LatteRedis.setCommand
  simp only [result_bind, result_ite, result_pure, readArg_result, lookupKey_result]
  split
  · rfl
  · congr 1
    funext key
    congr 1
    funext r
    obtain ⟨server₁, o⟩ := r
    cases o with
    | none =>
        simp only [result_bind, result_pure, readArg_result, moduleDbAdd_result, Run.pure_eq]
    | some e =>
        simp only [result_bind, result_ite, result_lift, result_pure, readArg_result, Run.pure_eq]

theorem getCommand_result (server : Server) (rc : RedisClient) :
    (getCommand L server rc).result = LatteRedis.getCommand L server rc := by
  unfold getCommand LatteRedis.getCommand
  simp only [result_bind, result_ite, result_pure, readArg_result, lookupKey_result]
  split
  · rfl
  · congr 1
    funext key
    congr 1
    funext r
    obtain ⟨server₁, o⟩ := r
    cases o with
    | none => rfl
    | some e => simp only [result_ite, result_pure, Run.pure_eq]

/-- These are the handlers. -/
theorem run_result (proc : CommandProc) (server : Server) (rc : RedisClient) :
    (run L E proc server rc).result = proc.run L E server rc := by
  match proc with
  | .quit => rfl
  | .module => exact moduleCommand_result server rc
  | .ping => exact pingCommand_result server rc
  | .info => rfl
  | .expire => exact expireCommand_result server rc
  | .dispatcher .set => exact setCommand_result server rc
  | .dispatcher .get => exact getCommand_result server rc
  | .dispatcher (.other n) => rfl

/-! ## Which accesses there are

One lemma for each function: every access has a property if those it can make do. -/

variable {P : Access → Prop} {server : Server} {rc : RedisClient}

theorem readArg_all {i : Nat} (h : P (.argv i)) : All P (readArg rc i) :=
  .bind (all_emit.mpr h) fun _ _ ↦ .lift _

theorem lruClock_all (h : P (.divide server.hz)) : All P (lruClock server) :=
  .bind (all_emit.mpr h) fun _ _ ↦ .lift _

theorem initObjectLruOrLfu_all (h : P (.divide server.hz)) (o : LatteObject) :
    All P (initObjectLruOrLfu server o) := by
  unfold initObjectLruOrLfu
  split
  · exact .pure _
  · split
    · exact .pure _
    · exact .bind (lruClock_all h) fun _ _ ↦ .pure _

theorem dbAddKeyValueInternal_all (h : P (.divide server.hz)) (db : RedisDb)
    (key val : LatteObject) : All P (dbAddKeyValueInternal server db key val) := by
  unfold dbAddKeyValueInternal
  split
  · exact .lift _
  · refine .bind (.lift _) fun keyPtr _ ↦ .bind (.lift _) ?_
    rintro ⟨added, keys⟩ _
    dsimp only
    split
    · exact .bind (initObjectLruOrLfu_all h val) fun _ _ ↦ .pure _
    · exact .lift _

theorem lookupKey_all (hdb : P (.db rc.dbid)) (key : LatteObject) :
    All P (lookupKey server rc key) := by
  unfold lookupKey
  split
  · exact .pure _
  · refine .bind (.lift _) fun keySds _ ↦ .bind (all_emit.mpr hdb) fun _ _ ↦
      .bind (.lift _) fun db _ ↦ .bind (.lift _) fun ⟨expired, db'⟩ _ ↦ ?_
    dsimp only
    split <;> exact .pure _

theorem moduleDbAdd_all (hdb : P (.db rc.dbid)) (hdiv : P (.divide server.hz))
    (key val : LatteObject) : All P (moduleDbAdd server rc key val) :=
  .bind (all_emit.mpr hdb) fun _ _ ↦ .bind (.lift _) fun db _ ↦
    .bind (dbAddKeyValueInternal_all hdiv db key val) fun _ _ ↦ .pure _

theorem expireCommand_all (hdb : P (.db rc.dbid))
    (hargs : rc.argc = 3 → P (.argv 1) ∧ P (.argv 2)) : All P (expireCommand L server rc) := by
  refine .bind (all_emit.mpr hdb) ?_
  intro _ _
  split
  · exact .lift _
  · next hargc =>
      obtain ⟨h₁, h₂⟩ := hargs (not_not.mp hargc)
      refine .bind (readArg_all h₂) fun o _ ↦ .bind (.lift _) ?_
      intro secs _
      split
      · exact .pure _
      · split
        · exact .pure _
        · refine .bind (readArg_all h₁) fun o _ ↦ .bind (.lift _) fun keySds _ ↦
            .bind (.lift _) fun db _ ↦ ?_
          split
          · exact .pure _
          · refine .bind (.lift _) ?_
            rintro ⟨set, db'⟩ _
            dsimp only
            split <;> exact .pure _

theorem pingCommand_all (h : rc.argc ≤ 2 → rc.argc ≠ 1 → P (.argv 1)) :
    All P (pingCommand L server rc) := by
  unfold pingCommand
  split
  · exact .lift _
  · next hle =>
      split
      · exact .pure _
      · next hne => exact .bind (readArg_all (h (Int.not_lt.mp hle) hne)) fun _ _ ↦ .pure _

theorem moduleCommand_all (h₁ : P (.argv 1)) (h₀ : rc.argc = 2 → P (.argv 0))
    (h₂ : 3 ≤ rc.argc → P (.argv 2)) : All P (moduleCommand L E server rc) := by
  refine .bind (readArg_all h₁) fun o _ ↦ .bind (.lift _) ?_
  intro subcmd _
  split
  · next hhelp =>
      exact .bind (readArg_all (h₀ hhelp.1)) fun _ _ ↦ .bind (.lift _) fun _ _ ↦
        .bind (.lift _) fun _ _ ↦ .pure _
  · split
    · next hload =>
        refine .bind (readArg_all (h₂ hload.2)) fun _ _ ↦ .bind (.lift _) ?_
        intro path _
        dsimp only
        split <;> exact .pure _
    · split
      · exact .lift _
      · split
        · exact .lift _
        · exact .pure _

theorem setCommand_all (hargs : rc.argc = 3 → P (.argv 1) ∧ P (.argv 2)) (hdb : P (.db rc.dbid))
    (hdiv : P (.divide server.hz)) : All P (setCommand L server rc) := by
  unfold setCommand
  split
  · exact .pure _
  · next hargc =>
      obtain ⟨h₁, h₂⟩ := hargs (not_not.mp hargc)
      refine .bind (readArg_all h₁) fun key _ ↦
        .bind (lookupKey_all hdb key) fun ⟨server₁, o⟩ hlookup ↦ ?_
      rw [lookupKey_result] at hlookup
      cases o with
      | none =>
          refine .bind (readArg_all h₂) fun val _ ↦ .bind (moduleDbAdd_all hdb ?_ key val) fun _ _ ↦
            .pure _
          obtain ⟨dbs, rfl⟩ := lookupKey_frames hlookup
          exact hdiv
      | some e =>
          dsimp only
          split
          · exact .bind (readArg_all h₂) fun _ _ ↦ .bind (.lift _) fun _ _ ↦ .pure _
          · exact .pure _

theorem getCommand_all (hargs : rc.argc = 2 → P (.argv 1)) (hdb : P (.db rc.dbid)) :
    All P (getCommand L server rc) := by
  unfold getCommand
  split
  · exact .pure _
  · next hargc =>
      refine .bind (readArg_all (hargs (not_not.mp hargc))) fun key _ ↦
        .bind (lookupKey_all hdb key) fun ⟨server₁, o⟩ _ ↦ ?_
      cases o with
      | none => exact .pure _
      | some e =>
          dsimp only
          split <;> exact .pure _

/-! ## Reads of the argument vector -/

/-- A read of `argv` is below `argc`. -/
def ArgvBelow (argc : Int) : Access → Prop
  | .argv i => i < argc
  | _ => True

/-- The handlers of the table and of the `latte` module read no argument that is not there,
except that of `MODULE` when it is called without one. -/
theorem run_argv_iff (L : LatteC) (E : Extension) (server : Server) (rc : RedisClient)
    (cmd : RedisCommand) (hcmd : cmd ∈ redisCommandTable ++ latteModuleCommands)
    (hargc : 1 ≤ rc.argc) :
    All (ArgvBelow rc.argc) (run L E cmd.proc server rc) ↔
      ¬(cmd.proc = .module ∧ rc.argc = 1) := by
  have h0 : ArgvBelow rc.argc (.argv 0) := by
    show ((0 : Nat) : Int) < rc.argc
    omega
  have h1 : 2 ≤ rc.argc → ArgvBelow rc.argc (.argv 1) := fun h ↦ by
    show ((1 : Nat) : Int) < rc.argc
    omega
  have h2 : 3 ≤ rc.argc → ArgvBelow rc.argc (.argv 2) := fun h ↦ by
    show ((2 : Nat) : Int) < rc.argc
    omega
  simp only [redisCommandTable, latteModuleCommands, List.cons_append, List.nil_append,
    List.mem_cons, List.not_mem_nil, or_false] at hcmd
  rcases hcmd with rfl | rfl | rfl | rfl | rfl | rfl | rfl
  · exact iff_of_true (.lift _) (by simp)
  · constructor
    · rintro hall ⟨-, hone⟩
      have hread : ArgvBelow rc.argc (.argv 1) := all_emit.mp hall.of_bind.of_bind
      have hlt : ((1 : Nat) : Int) < rc.argc := hread
      omega
    · intro hne
      have hmany : 2 ≤ rc.argc := by
        have : rc.argc ≠ 1 := fun h ↦ hne ⟨rfl, h⟩
        omega
      exact moduleCommand_all (h1 hmany) (fun _ ↦ h0) h2
  · exact iff_of_true (pingCommand_all fun hle hne ↦ h1 (by omega)) (by simp)
  · exact iff_of_true (.lift _) (by simp)
  · exact iff_of_true
      (expireCommand_all trivial fun h ↦ ⟨h1 (by omega), h2 (by omega)⟩) (by simp)
  · exact iff_of_true
      (setCommand_all (fun h ↦ ⟨h1 (by omega), h2 (by omega)⟩) trivial trivial) (by simp)
  · exact iff_of_true (getCommand_all (fun h ↦ h1 (by omega)) trivial) (by simp)

/-- A client that has sent these words. -/
def clientOf (words : List String) : RedisClient :=
  { RedisClient.idle with
    argc := words.length
    argv := .live ⟨words.length, words.map fun w ↦ latteObjectNew (ascii w)⟩ }

theorem run_argv_iff_ping :
    ⟨ascii "ping", .ping⟩ ∈ redisCommandTable ++ latteModuleCommands ∧
      1 ≤ (clientOf ["PING", "hello"]).argc ∧
      (All (ArgvBelow (clientOf ["PING", "hello"]).argc)
          (run .sample .absent .ping freshConn.server (clientOf ["PING", "hello"])) ↔
        ¬(CommandProc.ping = .module ∧ (clientOf ["PING", "hello"]).argc = 1)) :=
  ⟨by decide, by decide,
    run_argv_iff .sample .absent freshConn.server (clientOf ["PING", "hello"])
      ⟨ascii "ping", .ping⟩ (by decide) (by decide)⟩

/-- `MODULE` alone has one argument, and `argv[1]` is read. -/
theorem run_argv_module :
    ¬All (ArgvBelow (clientOf ["MODULE"]).argc)
      (run .sample .absent .module freshConn.server (clientOf ["MODULE"])) := by
  intro hall
  have hread : ArgvBelow (clientOf ["MODULE"]).argc (.argv 1) := hall (.argv 1) (by decide +kernel)
  exact absurd (show ((1 : Nat) : Int) < 1 from hread) (by decide)

end Access

end LatteRedis
