import LatteRedis.Command.Handlers

/-!
# Loading a module (`module_load`, and the API `redis_module.h` gives to it)

A module is code the server has not seen.  What counts is which functions of the API its
`redis_module_onload` calls, with which arguments, what it does with the results, and what
it returns: an `Onload` is a tree of calls.

`module_load` registers nothing by itself while `onload` runs.  Each call of
`redis_module_create_command` does, at once, and when `onload` fails in the end nothing
takes the registered commands back: the four calls that would are commented out.  The
library is closed all the same.
-/

namespace LatteRedis

open ByteString

/-! ## The server and the modules -/

/-- `redis_module_t`, as far as it is set. -/
structure RedisModule where
  name : Bytes
  ver : Int
  apiver : Int
deriving DecidableEq, Repr

/-- The server and `server->modules`, in the order they were added. -/
structure ModuleHost where
  server : Server
  modules : List RedisModule

/-- `redis_module_ctx_t`, and whether the library has set its pointers to the API. -/
structure ModuleCtx extends ModuleHost where
  ctxModule : Option RedisModule := none
  bound : Bool

/-- What `redis_module_onload` does. -/
inductive Onload where
  | ret (code : Int)
  | init (name : Bytes) (ver apiver : Int) (k : Int → Onload)
  | createCommand (name : Bytes) (func : ModuleFunc) (strflags : Option Bytes) (k : Int → Onload)

/-! ## The API -/

/-- `redis_module_use_is_module_name_busy`; names are compared without regard to case. -/
def ModuleHost.isModuleNameBusy (host : ModuleHost) (name : Bytes) : Bool :=
  host.modules.any fun m ↦ m.name.map lower = (cString name).map lower

/-- `redis_module_use_set_module_attribs`. -/
def setModuleAttribs (ctx : ModuleCtx) (name : Bytes) (ver apiver : Int) : ModuleCtx :=
  match ctx.ctxModule with
  | some _ => ctx
  | none => { ctx with ctxModule := some { name := cString name, ver := ver, apiver := apiver } }

/-- `redis_module_init`, which is part of the library. -/
def redisModuleInit (ctx : ModuleCtx) (name : Bytes) (ver apiver : Int) : Int × ModuleCtx :=
  let ctx := { ctx with bound := true }
  if ctx.isModuleNameBusy name then (-1, ctx) else (0, setModuleAttribs ctx name ver apiver)

/-- The names `command_flags_from_string` knows, with their bits. -/
def moduleCommandFlags : List (Bytes × BitVec 64) :=
  [ (ascii "write", 1 <<< 0)
  , (ascii "readonly", 1 <<< 1)
  , (ascii "admin", 1 <<< 4)
  , (ascii "deny-oom", 1 <<< 2)
  , (ascii "deny-script", 1 <<< 6)
  , (ascii "allow-loading", 1 <<< 9)
  , (ascii "pubsub", 1 <<< 5)
  , (ascii "random", 1 <<< 7)
  , (ascii "allow-stale", 1 <<< 10)
  , (ascii "no-monitor", 1 <<< 11)
  , (ascii "no-slowlog", 1 <<< 12)
  , (ascii "fast", 1 <<< 14)
  , (ascii "no-auth", 1 <<< 15)
  , (ascii "may-replicate", 1 <<< 16)
  , (ascii "getkeys-api", 1 <<< 17)
  , (ascii "no-cluster", 1 <<< 18)
  , (ascii "swap-nop", 0)
  , (ascii "swap-get", 0)
  , (ascii "swap-put", 0)
  , (ascii "swap-del", 0) ]

/-- `sds_split_len` with one byte as the separator. -/
def sdsSplitLen (s : Bytes) (sep : UInt8) : List Bytes := if s = [] then [] else s.splitOn sep

/-- `none` stands for `-1`. -/
def commandFlagsFromString (s : Bytes) : Option (BitVec 64) :=
  (sdsSplitLen (cString s) 32).foldlM
    (fun flags t ↦ (moduleCommandFlags.find? fun f ↦ strcaseeq t f.1).map (flags ||| ·.2)) 0

/-- A name that is there keeps its command. -/
def commandManagerRegisterCommand (server : Server) (cmd : RedisCommand) : Server :=
  if commandManagerLookup server cmd.name = none then
    { server with commands := server.commands ++ [cmd] }
  else server

/-- `redis_module_create_command`.  Before `redis_module_init` it is a null pointer, unless
the library was opened before. -/
def redisModuleCreateCommand (ctx : ModuleCtx) (name : Bytes) (func : ModuleFunc)
    (strflags : Option Bytes) : Except Fault (Int × ModuleCtx) :=
  if ctx.bound = false then .error .badPointer
  else match strflags.elim (some 0) commandFlagsFromString with
  | none => .ok (-1, ctx)
  | some _ =>
      let cmdname := cString name
      if commandManagerLookup ctx.server cmdname ≠ none then .ok (-1, ctx)
      else .ok (0, { ctx with
        server := commandManagerRegisterCommand ctx.server ⟨cmdname, .dispatcher func⟩ })

def Onload.run : Onload → ModuleCtx → Except Fault (Int × ModuleCtx)
  | .ret code, ctx => .ok (code, ctx)
  | .init name ver apiver k, ctx =>
      let (r, ctx) := redisModuleInit ctx name ver apiver
      (k r).run ctx
  | .createCommand name func strflags k, ctx => do
      let (r, ctx) ← redisModuleCreateCommand ctx name func strflags
      (k r).run ctx

/-! ## `module_load` -/

/-- A library that `dlopen` has opened. -/
structure Library where
  /-- What `dlsym` finds for `redis_module_onload`. -/
  onload : Option (List LatteObject → Onload)
  /-- The library is still open from an earlier load, which has set its pointers to the API. -/
  bound : Bool := false

/-- What is at a path. -/
structure SharedObject where
  /-- Whether one of the execute bits is set, if `stat` succeeds. -/
  executable : Option Bool
  /-- What `dlopen` returns. -/
  library : Option Library

/-- `dict_add(server->modules, m->name, m)`. -/
def ModuleHost.addModule (host : ModuleHost) (m : RedisModule) : ModuleHost :=
  if host.modules.any fun m' ↦ m'.name.map lower = m.name.map lower then host
  else { host with modules := host.modules ++ [m] }

def moduleLoad (files : Bytes → SharedObject) (host : ModuleHost) (path : Bytes)
    (moduleArgv : List LatteObject) : Except Fault (Int × ModuleHost) :=
  if (files path).executable = some false then .ok (-1, host)
  else match (files path).library with
  | none => .ok (-1, host)
  | some lib =>
      match lib.onload with
      | none => .ok (-1, host)
      | some onload => do
          let (code, ctx) ← (onload moduleArgv).run { host with bound := lib.bound }
          if code = -1 then return (-1, ctx.toModuleHost)
          else match ctx.ctxModule with
          | none => throw .badPointer
          | some m => return (0, ctx.toModuleHost.addModule m)

/-! ## The `latte` module -/

/-- `if (call == -1) return -1;` -/
def orFail (next : Onload) (r : Int) : Onload := if r = -1 then .ret (-1) else next

/-- `init_string_module`, and what comes behind it. -/
def initStringModule (next : Onload) : Onload :=
  .createCommand (ascii "set") .set (some (ascii "write deny-oom")) <| orFail <|
    .createCommand (ascii "get") .get (some (ascii "readonly")) <| orFail next

/-- `redis_module_onload` of `latte.so`. -/
def latteOnload : Onload := .init (ascii "latte") 1 1 <| orFail <| initStringModule <| .ret 0

/-- `latte.so`. -/
def latteSo : SharedObject where
  executable := some true
  library := some { onload := some fun _ ↦ latteOnload }

/-! ## Commands that are registered stay -/

/-- The server with more commands in its table. -/
def Server.withCommands (server : Server) (cmds : List RedisCommand) : Server :=
  { server with commands := server.commands ++ cmds }

@[simp]
theorem Server.withCommands_nil (server : Server) : server.withCommands [] = server := by
  simp [withCommands]

@[simp]
theorem Server.withCommands_withCommands (server : Server) (cmds cmds' : List RedisCommand) :
    (server.withCommands cmds).withCommands cmds' = server.withCommands (cmds ++ cmds') := by
  simp [withCommands]

/-- What is found is found in a longer table, too. -/
theorem lookup_withCommands {server : Server} {name : Bytes}
    (h : commandManagerLookup server name ≠ none) (cmds : List RedisCommand) :
    commandManagerLookup (server.withCommands cmds) name = commandManagerLookup server name := by
  unfold commandManagerLookup Server.withCommands at *
  rw [List.find?_append]
  obtain ⟨found, hfound⟩ := Option.ne_none_iff_exists'.mp h
  rw [hfound]
  rfl

/-- A new command is found under its name. -/
theorem lookup_withCommands_self {server : Server} {cmd : RedisCommand}
    (h : commandManagerLookup server cmd.name = none) (cmds : List RedisCommand) :
    commandManagerLookup (server.withCommands (cmd :: cmds)) cmd.name = some cmd := by
  unfold commandManagerLookup Server.withCommands at *
  rw [List.find?_append, h]
  simp

/-- The command would be refused: one of its flags is unknown, or its name is taken. -/
def ModuleHost.Refuses (host : ModuleHost) (name : Bytes) (strflags : Option Bytes) : Prop :=
  strflags.elim (some 0) commandFlagsFromString = none ∨
    commandManagerLookup host.server (cString name) ≠ none

instance (host : ModuleHost) (name : Bytes) (strflags : Option Bytes) :
    Decidable (host.Refuses name strflags) := inferInstanceAs (Decidable (_ ∨ _))

/-- The two ways a call of `redis_module_create_command` can go. -/
theorem redisModuleCreateCommand_cases {ctx ctx' : ModuleCtx} {name : Bytes} {func : ModuleFunc}
    {strflags : Option Bytes} {r : Int}
    (h : redisModuleCreateCommand ctx name func strflags = .ok (r, ctx')) :
    (ctx.Refuses name strflags ∧ r = -1 ∧ ctx' = ctx) ∨
      (¬ctx.Refuses name strflags ∧ r = 0 ∧ ctx' = { ctx with
        server := ctx.server.withCommands [⟨cString name, .dispatcher func⟩] }) := by
  unfold redisModuleCreateCommand at h
  split at h
  · cases h
  · split at h
    · next hflags =>
        cases h
        exact .inl ⟨.inl hflags, rfl, rfl⟩
    · next flags hflags =>
        dsimp only at h
        split at h
        · next htaken =>
            cases h
            exact .inl ⟨.inr htaken, rfl, rfl⟩
        · next hfree =>
            unfold commandManagerRegisterCommand at h
            rw [if_pos (not_not.mp hfree)] at h
            cases h
            refine .inr ⟨?_, rfl, rfl⟩
            rintro (hnone | htaken)
            · rw [hflags] at hnone
              cases hnone
            · exact hfree htaken

/-- `redis_module_init` touches neither the commands nor the modules. -/
theorem redisModuleInit_eq (ctx : ModuleCtx) (name : Bytes) (ver apiver : Int) :
    (redisModuleInit ctx name ver apiver).1 = (if ctx.isModuleNameBusy name then -1 else 0) ∧
      (redisModuleInit ctx name ver apiver).2.toModuleHost = ctx.toModuleHost := by
  unfold redisModuleInit
  dsimp only
  split
  · exact ⟨rfl, rfl⟩
  · refine ⟨rfl, ?_⟩
    unfold setModuleAttribs
    split <;> rfl

/-! ## What an `onload` leaves -/

/-- Every command `onload` would create is refused.  The results of its calls are those a
server gives that does not change. -/
def Onload.Inert (host : ModuleHost) : Onload → Prop
  | .ret _ => True
  | .init name _ _ k => (k (if host.isModuleNameBusy name then -1 else 0)).Inert host
  | .createCommand name _ strflags k => host.Refuses name strflags ∧ (k (-1)).Inert host

theorem Onload.run_init (name : Bytes) (ver apiver : Int) (k : Int → Onload) (ctx : ModuleCtx) :
    (Onload.init name ver apiver k).run ctx =
      (k (redisModuleInit ctx name ver apiver).1).run (redisModuleInit ctx name ver apiver).2 := rfl

/-- The modules are as before, and so is the server up to new commands of modules. -/
theorem Onload.run_grows {onload : Onload} {ctx ctx' : ModuleCtx} {code : Int}
    (h : onload.run ctx = .ok (code, ctx')) :
    ctx'.modules = ctx.modules ∧ ∃ cmds, ctx'.server = ctx.server.withCommands cmds ∧
      ∀ cmd ∈ cmds, ∃ func, cmd.proc = .dispatcher func := by
  induction onload generalizing ctx with
  | ret code =>
      cases h
      exact ⟨rfl, [], by simp, by simp⟩
  | init name ver apiver k ih =>
      obtain ⟨-, hhost⟩ := redisModuleInit_eq ctx name ver apiver
      rw [run_init] at h
      have hgrows := ih _ h
      rw [hhost] at hgrows
      exact hgrows
  | createCommand name func strflags k ih =>
      obtain ⟨⟨r, ctx₁⟩, hcreate, hrest⟩ := Run.bind_eq_ok.mp h
      obtain ⟨hmodules, cmds, hserver, hcmds⟩ := ih r hrest
      obtain ⟨-, -, rfl⟩ | ⟨-, -, rfl⟩ := redisModuleCreateCommand_cases hcreate
      · exact ⟨hmodules, cmds, hserver, hcmds⟩
      · refine ⟨hmodules, ⟨cString name, .dispatcher func⟩ :: cmds, by simpa using hserver, ?_⟩
        rintro cmd (_ | ⟨_, hcmd⟩)
        · exact ⟨func, rfl⟩
        · exact hcmds cmd hcmd

/-- An inert `onload` leaves the server as it was. -/
theorem Onload.Inert.run {onload : Onload} {ctx ctx' : ModuleCtx} {code : Int}
    (hinert : onload.Inert ctx.toModuleHost) (h : onload.run ctx = .ok (code, ctx')) :
    ctx'.server = ctx.server := by
  induction onload generalizing ctx with
  | ret code =>
      cases h
      rfl
  | init name ver apiver k ih =>
      obtain ⟨hr, hhost⟩ := redisModuleInit_eq ctx name ver apiver
      rw [Onload.Inert, ← hr, ← hhost] at hinert
      rw [run_init] at h
      rw [ih _ hinert h, hhost]
  | createCommand name func strflags k ih =>
      obtain ⟨⟨r, ctx₁⟩, hcreate, hrest⟩ := Run.bind_eq_ok.mp h
      obtain ⟨-, rfl, rfl⟩ | ⟨hfree, -, -⟩ := redisModuleCreateCommand_cases hcreate
      · exact ih _ hinert.2 hrest
      · exact absurd hinert.1 hfree

/-- Any other leaves a command behind. -/
theorem Onload.run_registers {onload : Onload} {ctx ctx' : ModuleCtx} {code : Int}
    (hactive : ¬onload.Inert ctx.toModuleHost) (h : onload.run ctx = .ok (code, ctx')) :
    ∃ name, commandManagerLookup ctx.server name = none ∧
      commandManagerLookup ctx'.server name ≠ none := by
  induction onload generalizing ctx with
  | ret code => exact absurd trivial hactive
  | init name ver apiver k ih =>
      obtain ⟨hr, hhost⟩ := redisModuleInit_eq ctx name ver apiver
      rw [Onload.Inert, ← hr, ← hhost] at hactive
      rw [run_init] at h
      obtain ⟨found, hbefore, hafter⟩ := ih _ hactive h
      rw [hhost] at hbefore
      exact ⟨found, hbefore, hafter⟩
  | createCommand name func strflags k ih =>
      obtain ⟨⟨r, ctx₁⟩, hcreate, hrest⟩ := Run.bind_eq_ok.mp h
      obtain ⟨hrefused, rfl, rfl⟩ | ⟨hfree, -, rfl⟩ := redisModuleCreateCommand_cases hcreate
      · exact ih _ (fun hinert ↦ hactive ⟨hrefused, hinert⟩) hrest
      · -- the first command that is accepted stays, whatever is called after it
        have hnone : commandManagerLookup ctx.server (cString name) = none :=
          not_not.mp fun htaken ↦ hfree (.inr htaken)
        obtain ⟨-, cmds, hserver, -⟩ := Onload.run_grows hrest
        have hfound : commandManagerLookup ctx'.server (cString name) =
            some ⟨cString name, .dispatcher func⟩ := by
          rw [hserver]
          simpa using lookup_withCommands_self hnone cmds
        exact ⟨cString name, hnone, by simp [hfound]⟩

/-! ## Loads that fail -/

/-- What `module_load` calls, if it gets as far as that. -/
def SharedObject.entry (file : SharedObject) : Option (Library × (List LatteObject → Onload)) :=
  if file.executable = some false then none
  else file.library.bind fun lib ↦ lib.onload.map (lib, ·)

/-- A load ends before `onload`, or as `onload` ends. -/
theorem moduleLoad_cases {files : Bytes → SharedObject} {host host' : ModuleHost} {path : Bytes}
    {moduleArgv : List LatteObject} {code : Int}
    (h : moduleLoad files host path moduleArgv = .ok (code, host')) :
    ((files path).entry = none ∧ code = -1 ∧ host' = host) ∨
      ∃ lib onload code₁ ctx, (files path).entry = some (lib, onload) ∧
        (onload moduleArgv).run { host with bound := lib.bound } = .ok (code₁, ctx) ∧
        ((code = -1 ∧ host' = ctx.toModuleHost) ∨
          ∃ m, code = 0 ∧ host' = ctx.toModuleHost.addModule m) := by
  unfold moduleLoad at h
  unfold SharedObject.entry
  split at h
  · next hexec =>
      cases h
      exact .inl ⟨if_pos hexec, rfl, rfl⟩
  · next hexec =>
      rw [if_neg hexec]
      split at h
      · next hlib =>
          cases h
          rw [hlib]
          exact .inl ⟨rfl, rfl, rfl⟩
      · next lib hlib =>
          rw [hlib]
          split at h
          · next honload =>
              cases h
              exact .inl ⟨by rw [Option.bind_some, honload]; rfl, rfl, rfl⟩
          · next onload honload =>
              obtain ⟨⟨code₁, ctx⟩, hrun, hcode⟩ := Run.bind_eq_ok.mp h
              refine .inr ⟨lib, onload, code₁, ctx, by rw [Option.bind_some, honload]; rfl, hrun, ?_⟩
              dsimp only at hcode
              split at hcode
              · cases hcode
                exact .inl ⟨rfl, rfl⟩
              · split at hcode
                · cases hcode
                · next m _ =>
                    cases hcode
                    exact .inr ⟨m, rfl, rfl⟩

/-- Nothing that is at `path` gets a command registered: it is not loaded, or its `onload`
is inert. -/
def ModuleHost.Unmoved (host : ModuleHost) (file : SharedObject) (moduleArgv : List LatteObject) :
    Prop :=
  file.executable = some false ∨
    ∀ lib ∈ file.library, ∀ onload ∈ lib.onload, (onload moduleArgv).Inert host

theorem ModuleHost.unmoved_iff {host : ModuleHost} {file : SharedObject}
    {moduleArgv : List LatteObject} :
    host.Unmoved file moduleArgv ↔ ∀ entry ∈ file.entry, (entry.2 moduleArgv).Inert host := by
  unfold Unmoved SharedObject.entry
  by_cases hexec : file.executable = some false
  · simp [hexec]
  · cases hlib : file.library with
    | none => simp
    | some lib => cases honload : lib.onload <;> simp [hexec, honload]

/-- A registered command dispatches to the function. -/
def ModuleHost.Dispatches (host : ModuleHost) (func : ModuleFunc) : Prop :=
  ∃ cmd ∈ host.server.commands, cmd.proc = .dispatcher func

/-- The commands and the modules are those there were.  In particular no command dispatches
to a function of a library that came and went in between. -/
structure ModuleHost.NoTrace (host host' : ModuleHost) : Prop where
  lookup : ∀ name, commandManagerLookup host'.server name = commandManagerLookup host.server name
  modules : host'.modules = host.modules
  dispatches : ∀ func, host'.Dispatches func → host.Dispatches func

theorem ModuleHost.NoTrace.refl (host : ModuleHost) : host.NoTrace host :=
  ⟨fun _ ↦ rfl, rfl, fun _ hfunc ↦ hfunc⟩

/-- **Loads that fail.**  A failed load leaves no trace exactly when `onload` got no command
registered. -/
theorem noTrace_iff_unmoved {files : Bytes → SharedObject} {host host' : ModuleHost} {path : Bytes}
    {moduleArgv : List LatteObject}
    (h : moduleLoad files host path moduleArgv = .ok (-1, host')) :
    host.NoTrace host' ↔ host.Unmoved (files path) moduleArgv := by
  obtain ⟨hentry, -, rfl⟩ | ⟨lib, onload, code₁, ctx, hentry, hrun, ⟨-, rfl⟩ | ⟨m, hcode, -⟩⟩ :=
    moduleLoad_cases h
  · rw [ModuleHost.unmoved_iff, hentry]
    exact ⟨fun _ ↦ by simp, fun _ ↦ .refl host'⟩
  · obtain ⟨hmodules, -⟩ := Onload.run_grows hrun
    rw [ModuleHost.unmoved_iff, hentry]
    constructor
    · intro hsame entry hentry'
      cases hentry'
      by_contra hactive
      obtain ⟨name, hbefore, hafter⟩ := Onload.run_registers hactive hrun
      exact hafter ((hsame.lookup name).trans hbefore)
    · intro hinert
      have hserver := (hinert _ rfl).run hrun
      refine ⟨fun name ↦ by rw [hserver], hmodules, ?_⟩
      intro func hfunc
      unfold ModuleHost.Dispatches at hfunc ⊢
      rwa [hserver] at hfunc
  · cases hcode

/-! ## Every load -/

/-- Whatever a load returns, the databases and the clock are those there were, and a name
that was taken still stands for the same command. -/
theorem moduleLoad_grows {files : Bytes → SharedObject} {host host' : ModuleHost} {path : Bytes}
    {moduleArgv : List LatteObject} {code : Int}
    (h : moduleLoad files host path moduleArgv = .ok (code, host')) :
    ∃ cmds, host'.server = host.server.withCommands cmds ∧
      (∀ cmd ∈ cmds, ∃ func, cmd.proc = .dispatcher func) ∧
      ∀ name, commandManagerLookup host.server name ≠ none →
        commandManagerLookup host'.server name = commandManagerLookup host.server name := by
  suffices hgrows : ∃ cmds, host'.server = host.server.withCommands cmds ∧
      ∀ cmd ∈ cmds, ∃ func, cmd.proc = .dispatcher func by
    obtain ⟨cmds, hserver, hcmds⟩ := hgrows
    refine ⟨cmds, hserver, hcmds, ?_⟩
    intro name hname
    rw [hserver, lookup_withCommands hname]
  obtain ⟨-, -, rfl⟩ | ⟨lib, onload, code₁, ctx, -, hrun, hend⟩ := moduleLoad_cases h
  · exact ⟨[], by simp, by simp⟩
  · obtain ⟨-, hgrows⟩ := Onload.run_grows hrun
    obtain ⟨-, rfl⟩ | ⟨m, -, rfl⟩ := hend
    · exact hgrows
    · unfold ModuleHost.addModule
      split <;> exact hgrows

/-! ## `latte.so` -/

/-- A server whose configuration names no module. -/
def ModuleHost.bare (dbNum : Nat) (hz : Int) (clock : Clock) : ModuleHost where
  server := { startRedisServer dbNum hz clock with commands := redisCommandTable }
  modules := []

/-- A server with `latte.so`. -/
def ModuleHost.started (dbNum : Nat) (hz : Int) (clock : Clock) : ModuleHost where
  server := startRedisServer dbNum hz clock
  modules := [⟨ascii "latte", 1, 1⟩]

/-- With `latte.so` the server is the one every run starts from. -/
theorem moduleLoad_latteSo {files : Bytes → SharedObject} {path : Bytes} (hpath : files path = latteSo)
    (moduleArgv : List LatteObject) (dbNum : Nat) (hz : Int) (clock : Clock) :
    moduleLoad files (.bare dbNum hz clock) path moduleArgv = .ok (0, .started dbNum hz clock) := by
  unfold moduleLoad
  rw [hpath]
  rfl

/-- The second load finds the name taken. -/
theorem noTrace_iff_unmoved_twice :
    moduleLoad (fun _ ↦ latteSo) (.started 16 10 ⟨0, 0, 0⟩) (ascii "latte.so") [] =
      .ok (-1, .started 16 10 ⟨0, 0, 0⟩) ∧
    ((ModuleHost.started 16 10 ⟨0, 0, 0⟩).NoTrace (.started 16 10 ⟨0, 0, 0⟩) ↔
      (ModuleHost.started 16 10 ⟨0, 0, 0⟩).Unmoved latteSo []) :=
  have h : moduleLoad (fun _ ↦ latteSo) (.started 16 10 ⟨0, 0, 0⟩) (ascii "latte.so") [] =
      .ok (-1, .started 16 10 ⟨0, 0, 0⟩) := rfl
  ⟨h, noTrace_iff_unmoved h⟩

/-- A module with a `get` of its own. -/
def kvOnload : Onload :=
  .init (ascii "kv") 1 1 <| orFail <|
    .createCommand (ascii "get") (.other 0) (some (ascii "readonly")) <| orFail <| .ret 0

def kvSo : SharedObject where
  executable := some true
  library := some { onload := some fun _ ↦ kvOnload }

/-- Behind it `latte.so` fails at `get`, and leaves `set`. -/
theorem latteSo_leaves_set :
    ∃ host host', moduleLoad (fun _ ↦ kvSo) (.bare 16 10 ⟨0, 0, 0⟩) (ascii "kv.so") [] = .ok (0, host) ∧
      moduleLoad (fun _ ↦ latteSo) host (ascii "latte.so") [] = .ok (-1, host') ∧
      commandManagerLookup host.server (ascii "set") = none ∧
      commandManagerLookup host'.server (ascii "set") = some ⟨ascii "set", .dispatcher .set⟩ ∧
      ¬host.Dispatches .set ∧ host'.Dispatches .set ∧ ¬host.NoTrace host' := by
  refine ⟨_, _, rfl, rfl, rfl, rfl, ?_, ?_, fun hsame ↦ ?_⟩
  · unfold ModuleHost.Dispatches
    decide
  · unfold ModuleHost.Dispatches
    decide
  · exact absurd (hsame.lookup (ascii "set")) (by decide)

end LatteRedis
