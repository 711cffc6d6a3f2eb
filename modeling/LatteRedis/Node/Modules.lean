import LatteRedis.Command.ModuleLoad
import LatteRedis.Keyspace.Spec

/-!
# Modules over the life of a server (`module.c`, `command_manager.c`)

Modules are loaded when the server starts (`init_redis_modules`) and by `MODULE LOAD`, by any
client and at any time.  A load that fails may leave commands behind, and nothing is ever
unloaded.  What does hold over every life is here: the names of the commands and of the
modules are pairwise distinct, a name that was once found stands for the same command ever
after, and the modules are those of the configuration and one for each `+OK` that a
`MODULE LOAD` was answered with (`modules_lifetime`).

`client.c` is generic in the server behind it, so its functions are taken as they are and put
in front of a `ModuleHost`.
-/

namespace LatteRedis

open ByteString

/-! ## The server with its modules -/

/-- What is at the paths, at one time. -/
abbrev Files := Bytes → SharedObject

/-- What the functions of other modules do. -/
abbrev ModuleFuncs := Nat → Server → RedisClient → Except Fault (Server × ReplyBuf)

/-- The loaded code as far as it is not `module_load`. -/
def ModuleFuncs.extension (F : ModuleFuncs) : Extension where
  moduleLoad server _ _ := (server, false)
  func := F

/-- `init_redis_modules`.  An entry is the path and what `onload` finds in the memory
`entry->args` is cast to. -/
def initRedisModules (files : Files) (host : ModuleHost) (entries : List (Bytes × List LatteObject)) :
    Except Fault ModuleHost :=
  entries.foldlM (fun host entry ↦ do
    let (code, host) ← moduleLoad files host (cString entry.1) entry.2
    if code = 0 then return host else throw (.assertion "module load %s failed")) host

variable (L : LatteC) (F : ModuleFuncs) (files : Files)

namespace ModuleHost

/-- A handler that knows of no modules. -/
def lift (host : ModuleHost) (x : Except Fault (Server × RedisClient)) :
    Except Fault (ModuleHost × RedisClient) :=
  x.map fun p ↦ ({ host with server := p.1 }, p.2)

/-- `module_load_command`. -/
def moduleLoadCommand (host : ModuleHost) (rc : RedisClient) :
    Except Fault (ModuleHost × RedisClient) := do
  let path ← (← rc.argvAt 2).ptr
  let (code, host) ← moduleLoad files host (cString path) (rc.args.drop 3)
  if code = 0 then return (host, rc.replied (addReply L rc.reply sharedOk))
  else
    return (host, rc.replied (addReplyError L rc.reply
      "Error loading the extension. Please check the server logs."))

/-- `module_command`. -/
def moduleCommand (host : ModuleHost) (rc : RedisClient) : Except Fault (ModuleHost × RedisClient) := do
  let subcmd ← (← rc.argvAt 1).ptr
  if rc.argc = 2 ∧ strcaseeq subcmd (ascii "help") then host.lift (moduleHelpCommand L host.server rc)
  else if strcaseeq subcmd (ascii "load") ∧ rc.argc ≥ 3 then host.moduleLoadCommand L files rc
  else if strcaseeq subcmd (ascii "unload") ∧ rc.argc ≥ 3 then
    host.lift (moduleUnloadCommand host.server rc)
  else if strcaseeq subcmd (ascii "list") ∧ rc.argc ≥ 3 then host.lift (moduleListCommand host.server rc)
  else return (host, rc)

/-- `cmd->proc(rc)`. -/
def proc (cmd : RedisCommand) (host : ModuleHost) (rc : RedisClient) :
    Except Fault (ModuleHost × RedisClient) :=
  match cmd.proc with
  | .module => host.moduleCommand L files rc
  | proc => host.lift (proc.run L F.extension host.server rc)

end ModuleHost

/-- `MODULE LOAD` with a path. -/
def RedisClient.AsksToLoad (rc : RedisClient) : Prop :=
  ∃ o sub, rc.argvAt 1 = .ok o ∧ o.ptr = .ok sub ∧ strcaseeq sub (ascii "load") = true ∧ rc.argc ≥ 3

namespace ModuleHost

variable {L F files} {host host' : ModuleHost} {rc rc' : RedisClient}

theorem lift_eq_ok {x : Except Fault (Server × RedisClient)} (h : host.lift x = .ok (host', rc')) :
    ∃ server, x = .ok (server, rc') ∧ host' = { host with server := server } := by
  unfold lift at h
  cases x with
  | error e => cases h
  | ok p =>
      cases h
      exact ⟨p.1, rfl, rfl⟩

/-- What `MODULE` does: it loads a module and says whether that went well, or it does nothing
to the server. -/
theorem moduleCommand_cases (h : host.moduleCommand L files rc = .ok (host', rc')) :
    (¬rc.AsksToLoad ∧ host' = host ∧ rc.OnlyReplied rc') ∨
      rc.AsksToLoad ∧ ∃ path args code, moduleLoad files host path args = .ok (code, host') ∧
        rc' = rc.replied (if code = 0 then addReply L rc.reply sharedOk
          else addReplyError L rc.reply
            "Error loading the extension. Please check the server logs.") := by
  unfold moduleCommand at h
  obtain ⟨o, ho, h⟩ := Run.bind_eq_ok.mp h
  obtain ⟨sub, hsub, h⟩ := Run.bind_eq_ok.mp h
  have hasks : rc.AsksToLoad → strcaseeq sub (ascii "load") = true ∧ rc.argc ≥ 3 := by
    rintro ⟨o', sub', ho', hsub', hload⟩
    cases ho.symm.trans ho'
    cases hsub.symm.trans hsub'
    exact hload
  split at h
  · next hhelp =>
      obtain ⟨server, hrun, rfl⟩ := lift_eq_ok h
      obtain ⟨o, -, hrun⟩ := Run.bind_eq_ok.mp hrun
      obtain ⟨cmd, -, hrun⟩ := Run.bind_eq_ok.mp hrun
      obtain ⟨reply, -, hrun⟩ := Run.bind_eq_ok.mp hrun
      cases hrun
      refine .inl ⟨fun hload ↦ ?_, rfl, rfl⟩
      have := (hasks hload).2
      omega
  · split at h
    · next hload =>
        obtain ⟨o₂, -, h⟩ := Run.bind_eq_ok.mp h
        obtain ⟨path, -, h⟩ := Run.bind_eq_ok.mp h
        obtain ⟨⟨code, host₁⟩, hmodule, h⟩ := Run.bind_eq_ok.mp h
        dsimp only at h
        refine .inr ⟨⟨o, sub, ho, hsub, hload⟩, cString path, rc.args.drop 3, code, ?_⟩
        split at h
        · next hcode =>
            cases h
            exact ⟨hmodule, by rw [if_pos hcode]⟩
        · next hcode =>
            cases h
            exact ⟨hmodule, by rw [if_neg hcode]⟩
    · next hload =>
        have hnone : ¬rc.AsksToLoad := fun hasked ↦ hload (hasks hasked)
        split at h
        · cases h
          exact .inl ⟨hnone, rfl, rfl⟩
        · split at h
          · cases h
            exact .inl ⟨hnone, rfl, rfl⟩
          · cases h
            exact .inl ⟨hnone, rfl, rfl⟩

/-- Handlers leave the parser alone here, too. -/
theorem proc_sameParser {cmd : RedisCommand} (h : proc L F files cmd host rc = .ok (host', rc')) :
    rc.SameParser rc' := by
  unfold proc at h
  split at h
  · rcases moduleCommand_cases h with ⟨-, -, honly⟩ | ⟨-, path, args, code, -, rfl⟩
    · unfold RedisClient.OnlyReplied at honly
      rw [honly]
      rfl
    · rfl
  · obtain ⟨server, hrun, -⟩ := lift_eq_ok h
    exact CommandProc.run_sameParser hrun

end ModuleHost

/-- The server with its modules behind the client. -/
def hostBackend : Backend ModuleHost where
  lookup host := commandManagerLookup host.server
  proc := ModuleHost.proc L F files
  clientGone _ := false
  unixtime host := host.server.clock.unixtime
  frame h := ModuleHost.proc_sameParser h

@[inherit_doc hostBackend]
def hostMachine (stack : Nat → Int) : Machine ModuleHost where
  lib := L
  backend := hostBackend L F files
  stack := stack

/-- A request, and what is at the paths when it is executed. -/
structure Arrival where
  request : Request
  files : Files

namespace ModuleHost

/-- `process_command` at the time of the request. -/
def execute (host : ModuleHost) (a : Arrival) : Except Fault (ModuleHost × RedisClient) := do
  let (_, c) ← processCommand (hostMachine L F a.files fun _ ↦ 0)
    { rc := a.request.client, server := { host with server := a.request.arrives host.server } }
  return (c.server, c.rc)

/-- A request, and what has been written to the clients so far. -/
def answer (p : ModuleHost × List Bytes) (a : Arrival) : Except Fault (ModuleHost × List Bytes) := do
  let (host, rc) ← p.1.execute L F a
  return (host, p.2 ++ [rc.reply.out.drop a.request.client.reply.out.length])

/-- A life after the start. -/
def answerAll (host : ModuleHost) (as : List Arrival) : Except Fault (ModuleHost × List Bytes) :=
  as.foldlM (answer L F) (host, [])

end ModuleHost

/-! ## The table of commands -/

/-- One table of commands becomes another by calls of `redis_module_create_command`. -/
inductive Registers : List RedisCommand → List RedisCommand → Prop
  | refl (cmds : List RedisCommand) : Registers cmds cmds
  | create {cmds cmds' : List RedisCommand} (name : Bytes) (func : ModuleFunc) :
      Registers cmds cmds' → (∀ cmd ∈ cmds', cmd.name.map lower ≠ (cString name).map lower) →
      Registers cmds (cmds' ++ [⟨cString name, .dispatcher func⟩])

/-- The names in a table, without their case. -/
def commandNames (cmds : List RedisCommand) : List Bytes := cmds.map fun cmd ↦ cmd.name.map lower

namespace Registers

variable {cmds cmds' cmds'' : List RedisCommand}

theorem trans (h : Registers cmds cmds') (h' : Registers cmds' cmds'') : Registers cmds cmds'' := by
  induction h' with
  | refl => exact h
  | create name func _ hnew ih => exact .create name func ih hnew

/-- Nothing is taken out, and what comes in runs a function of a module. -/
theorem appends (h : Registers cmds cmds') :
    ∃ new, cmds' = cmds ++ new ∧ ∀ cmd ∈ new, ∃ func, cmd.proc = .dispatcher func := by
  induction h with
  | refl => exact ⟨[], (List.append_nil _).symm, by simp⟩
  | create name func _ _ ih =>
      obtain ⟨new, rfl, hnew⟩ := ih
      refine ⟨new ++ [⟨cString name, .dispatcher func⟩], List.append_assoc .., ?_⟩
      intro cmd hcmd
      rcases List.mem_append.mp hcmd with hcmd | hcmd
      · exact hnew cmd hcmd
      · rw [List.mem_singleton.mp hcmd]
        exact ⟨func, rfl⟩

theorem nodup (h : Registers cmds cmds') (hcmds : (commandNames cmds).Nodup) :
    (commandNames cmds').Nodup := by
  induction h with
  | refl => exact hcmds
  | create name func _ hnew ih =>
      unfold commandNames at ih ⊢
      rw [List.map_append, List.nodup_append_comm, List.map_singleton, List.singleton_append,
        List.nodup_cons]
      refine ⟨?_, ih⟩
      intro hmem
      obtain ⟨cmd, hcmd, hname⟩ := List.mem_map.mp hmem
      exact hnew cmd hcmd hname

end Registers

/-- What is found stays what it is. -/
theorem Registers.lookup {server server' : Server} (h : Registers server.commands server'.commands)
    {name : Bytes} {cmd : RedisCommand} (hcmd : commandManagerLookup server name = some cmd) :
    commandManagerLookup server' name = some cmd := by
  obtain ⟨new, hnew, -⟩ := h.appends
  unfold commandManagerLookup at *
  rw [hnew, List.find?_append, hcmd]
  rfl

theorem redisModuleCreateCommand_registers {ctx ctx' : ModuleCtx} {name : Bytes} {func : ModuleFunc}
    {strflags : Option Bytes} {r : Int}
    (h : redisModuleCreateCommand ctx name func strflags = .ok (r, ctx')) :
    Registers ctx.server.commands ctx'.server.commands := by
  rcases redisModuleCreateCommand_cases h with ⟨-, -, rfl⟩ | ⟨hfree, -, rfl⟩
  · exact .refl _
  · refine .create name func (.refl _) ?_
    intro cmd hcmd heq
    refine hfree (.inr fun hnone ↦ ?_)
    exact List.find?_eq_none.mp hnone cmd hcmd (decide_eq_true heq)

/-! ## Loads -/

/-- The names of the modules, without their case. -/
def ModuleHost.moduleNames (host : ModuleHost) : List Bytes := host.modules.map fun m ↦ m.name.map lower

/-- The module that is being loaded has a name of its own. -/
def ModuleCtx.Fresh (ctx : ModuleCtx) : Prop :=
  ∀ m, ctx.ctxModule = some m → m.name.map lower ∉ ctx.moduleNames

theorem redisModuleInit_fresh {ctx : ModuleCtx} (h : ctx.Fresh) (name : Bytes) (ver apiver : Int) :
    (redisModuleInit ctx name ver apiver).2.Fresh := by
  unfold redisModuleInit
  dsimp only
  split
  · exact h
  · next hbusy =>
      unfold setModuleAttribs
      split
      · exact h
      · intro m hm hmem
        cases hm
        refine hbusy ?_
        obtain ⟨m, hm, hname⟩ := List.mem_map.mp hmem
        exact List.any_eq_true.mpr ⟨m, hm, decide_eq_true hname⟩

theorem redisModuleCreateCommand_fresh {ctx ctx' : ModuleCtx} (hfresh : ctx.Fresh) {name : Bytes}
    {func : ModuleFunc} {strflags : Option Bytes} {r : Int}
    (h : redisModuleCreateCommand ctx name func strflags = .ok (r, ctx')) : ctx'.Fresh := by
  rcases redisModuleCreateCommand_cases h with ⟨-, -, rfl⟩ | ⟨-, -, rfl⟩
  · exact hfresh
  · exact hfresh

/-- Whatever `onload` calls, it only adds commands under free names, and the module it
declares has a free name. -/
theorem Onload.run_adds {onload : Onload} {ctx ctx' : ModuleCtx} {code : Int} (hfresh : ctx.Fresh)
    (h : onload.run ctx = .ok (code, ctx')) :
    Registers ctx.server.commands ctx'.server.commands ∧ ctx'.Fresh := by
  induction onload generalizing ctx with
  | ret code =>
      cases h
      exact ⟨.refl _, hfresh⟩
  | init name ver apiver k ih =>
      obtain ⟨-, hhost⟩ := redisModuleInit_eq ctx name ver apiver
      rw [run_init] at h
      have hadds := ih _ (redisModuleInit_fresh hfresh name ver apiver) h
      rw [hhost] at hadds
      exact hadds
  | createCommand name func strflags k ih =>
      obtain ⟨⟨r, ctx₁⟩, hcreate, hrest⟩ := Run.bind_eq_ok.mp h
      obtain ⟨hregisters, hfresh'⟩ := ih r (redisModuleCreateCommand_fresh hfresh hcreate) hrest
      exact ⟨(redisModuleCreateCommand_registers hcreate).trans hregisters, hfresh'⟩

/-- **A load.**  It returns `0` exactly if there is one module more, and that has a name no
other module has. -/
theorem moduleLoad_adds {files : Files} {host host' : ModuleHost} {path : Bytes}
    {args : List LatteObject} {code : Int} (h : moduleLoad files host path args = .ok (code, host')) :
    Registers host.server.commands host'.server.commands ∧
      ((code = 0 ∧ ∃ m, host'.modules = host.modules ++ [m] ∧ m.name.map lower ∉ host.moduleNames) ∨
        (code ≠ 0 ∧ host'.modules = host.modules)) := by
  unfold moduleLoad at h
  split at h
  · cases h
    exact ⟨.refl _, .inr ⟨by decide, rfl⟩⟩
  · split at h
    · cases h
      exact ⟨.refl _, .inr ⟨by decide, rfl⟩⟩
    · next lib _ =>
        split at h
        · cases h
          exact ⟨.refl _, .inr ⟨by decide, rfl⟩⟩
        · next onload _ =>
            obtain ⟨⟨code₁, ctx⟩, hrun, h⟩ := Run.bind_eq_ok.mp h
            obtain ⟨hmodules, -⟩ := Onload.run_grows hrun
            obtain ⟨hregisters, hfresh⟩ := Onload.run_adds (fun m hm ↦ by cases hm) hrun
            dsimp only at h hmodules
            split at h
            · cases h
              exact ⟨hregisters, .inr ⟨by decide, hmodules⟩⟩
            · split at h
              · cases h
              · next m hm =>
                  cases h
                  have hnew := hfresh m hm
                  have hfree : (ctx.modules.any fun m' ↦ m'.name.map lower = m.name.map lower) = false := by
                    rw [List.any_eq_false]
                    intro m' hm' heq
                    exact hnew (List.mem_map.mpr ⟨m', hm', of_decide_eq_true heq⟩)
                  unfold ModuleHost.addModule
                  rw [if_neg (by rw [hfree]; exact Bool.false_ne_true)]
                  refine ⟨hregisters, .inl ⟨rfl, m, congrArg (· ++ [m]) hmodules, ?_⟩⟩
                  unfold ModuleHost.moduleNames at hnew ⊢
                  rwa [hmodules] at hnew

/-! ## Lives -/

/-- The functions of modules reach the table of commands through the API only. -/
def ModuleFuncs.UsesApi (F : ModuleFuncs) : Prop :=
  ∀ n server rc server' reply, F n server rc = .ok (server', reply) →
    Registers server.commands server'.commands

/-- The commands of the server are there and in front, and no name is taken twice. -/
structure ModuleHost.Sound (host : ModuleHost) : Prop where
  table : ∃ cmds, host.server.commands = redisCommandTable ++ cmds ∧
    ∀ cmd ∈ cmds, ∃ func, cmd.proc = .dispatcher func
  commands : (commandNames host.server.commands).Nodup
  modules : host.moduleNames.Nodup

/-- What was found is still found, and the modules are the same ones and perhaps more. -/
structure ModuleHost.Grows (host host' : ModuleHost) : Prop where
  commands : Registers host.server.commands host'.server.commands
  modules : host.modules <+: host'.modules

theorem ModuleHost.Grows.refl (host : ModuleHost) : host.Grows host := ⟨.refl _, List.prefix_rfl⟩

theorem ModuleHost.Grows.trans {host host' host'' : ModuleHost} (h : host.Grows host')
    (h' : host'.Grows host'') : host.Grows host'' :=
  ⟨h.commands.trans h'.commands, h.modules.trans h'.modules⟩

theorem ModuleHost.Sound.of_registers {host host' : ModuleHost} (h : host.Sound)
    (hregisters : Registers host.server.commands host'.server.commands)
    (hmodules : host'.moduleNames.Nodup) : host'.Sound := by
  obtain ⟨cmds, hcmds, hdispatch⟩ := h.table
  obtain ⟨new, hnew, hnewDispatch⟩ := hregisters.appends
  refine ⟨⟨cmds ++ new, by rw [hnew, hcmds, List.append_assoc], ?_⟩, hregisters.nodup h.commands,
    hmodules⟩
  intro cmd hcmd
  rcases List.mem_append.mp hcmd with hcmd | hcmd
  · exact hdispatch cmd hcmd
  · exact hnewDispatch cmd hcmd

/-- One module more, under a name of its own, or the same modules. -/
theorem ModuleHost.Sound.of_load {host host' : ModuleHost} (h : host.Sound) {files : Files}
    {path : Bytes} {args : List LatteObject} {code : Int}
    (hload : moduleLoad files host path args = .ok (code, host')) :
    host'.Sound ∧ host.Grows host' ∧
      host'.modules.length = host.modules.length + if code = 0 then 1 else 0 := by
  obtain ⟨hregisters, ⟨hcode, m, hm, hfresh⟩ | ⟨hcode, hm⟩⟩ := moduleLoad_adds hload
  · refine ⟨h.of_registers hregisters ?_, ⟨hregisters, hm ▸ List.prefix_append ..⟩, ?_⟩
    · unfold moduleNames
      rw [hm, List.map_append, List.nodup_append_comm, List.map_singleton, List.singleton_append,
        List.nodup_cons]
      exact ⟨hfresh, h.modules⟩
    · rw [hm, if_pos hcode, List.length_append, List.length_singleton]
  · refine ⟨h.of_registers hregisters ?_, ⟨hregisters, hm ▸ List.prefix_rfl⟩, ?_⟩
    · unfold moduleNames
      rw [hm]
      exact h.modules
    · rw [hm, if_neg hcode, Nat.add_zero]

theorem ModuleHost.bare_sound (dbNum : Nat) (hz : Int) (clock : Clock) :
    (ModuleHost.bare dbNum hz clock).Sound :=
  ⟨⟨[], (List.append_nil _).symm, by simp⟩, by show (commandNames redisCommandTable).Nodup; decide,
    List.nodup_nil⟩

/-- Every entry of the configuration is loaded, or the server does not start. -/
theorem initRedisModules_sound {files : Files} {host host' : ModuleHost} (h : host.Sound)
    {entries : List (Bytes × List LatteObject)}
    (hinit : initRedisModules files host entries = .ok host') :
    host'.Sound ∧ host.Grows host' ∧ host'.modules.length = host.modules.length + entries.length := by
  unfold initRedisModules at hinit
  induction entries generalizing host with
  | nil =>
      cases hinit
      exact ⟨h, .refl host', rfl⟩
  | cons entry entries ih =>
      obtain ⟨host₁, hstep, hrest⟩ := Run.foldlM_cons_eq_ok.mp hinit
      obtain ⟨⟨code, host₂⟩, hload, hcode⟩ := Run.bind_eq_ok.mp hstep
      dsimp only at hcode
      split at hcode
      · next hzero =>
          cases hcode
          obtain ⟨h₁, hgrows₁, hlen₁⟩ := h.of_load hload
          obtain ⟨h', hgrows, hlen⟩ := ih h₁ hrest
          refine ⟨h', hgrows₁.trans hgrows, ?_⟩
          rw [hlen, hlen₁, if_pos hzero, List.length_cons, Nat.add_assoc, Nat.add_comm 1]
      · cases hcode

/-! ### Requests -/

namespace ModuleHost

variable {L : LatteC} {F : ModuleFuncs} {host host' : ModuleHost} {a : Arrival} {rc' : RedisClient}

theorem execute_eq (host : ModuleHost) (a : Arrival) :
    host.execute L F a = match commandManagerLookup host.server a.request.name with
      | none => .ok ({ host with server := a.request.arrives host.server },
          { a.request.client with cmd := .null, lastcmd := .null })
      | some cmd => proc L F a.files cmd { host with server := a.request.arrives host.server }
          (a.request.called cmd) := by
  obtain ⟨o, ho, htext, hname⟩ := a.request.holds.argvAt (i := 0) rfl
  unfold execute
  rw [processCommand_eq (M := hostMachine L F a.files fun _ ↦ 0)
    (c := { rc := a.request.client, server := { host with server := a.request.arrives host.server } })
    ho (htext.2.trans (congrArg _ hname))]
  show (match commandManagerLookup host.server a.request.name with
    | none => _
    | some cmd => Except.map _ (proc L F a.files cmd _ (a.request.called cmd))) >>= _ = _
  cases commandManagerLookup host.server a.request.name with
  | none => rfl
  | some cmd =>
      dsimp only
      cases proc L F a.files cmd { host with server := a.request.arrives host.server }
        (a.request.called cmd) <;> rfl

/-- `MODULE` is found under its name, -/
theorem Sound.lookup_module (h : host.Sound) {name : Bytes} (hname : name.map lower = ascii "module") :
    commandManagerLookup host.server name = some ⟨ascii "module", .module⟩ := by
  obtain ⟨cmds, hcmds, -⟩ := h.table
  unfold commandManagerLookup
  rw [hcmds, List.find?_append, hname]
  rfl

/-- and nothing else is `MODULE`. -/
theorem Sound.calls_module (h : host.Sound) {name : Bytes} {cmd : RedisCommand}
    (hcmd : commandManagerLookup host.server name = some cmd) (hproc : cmd.proc = .module) :
    name.map lower = ascii "module" := by
  obtain ⟨cmds, hcmds, hdispatch⟩ := h.table
  have htable : ∀ cmd ∈ redisCommandTable, cmd.proc = .module → cmd.name.map lower = ascii "module" := by
    decide
  have hmem := List.mem_of_find?_eq_some hcmd
  have hname : cmd.name.map lower = name.map lower := of_decide_eq_true (List.find?_some hcmd :)
  rw [hcmds] at hmem
  rcases List.mem_append.mp hmem with hmem | hmem
  · exact hname.symm.trans (htable cmd hmem hproc)
  · obtain ⟨func, hfunc⟩ := hdispatch cmd hmem
    cases hproc.symm.trans hfunc

end ModuleHost

/-- What the handler of `MODULE` reads off its arguments. -/
theorem Request.asksToLoad_iff (r : Request) (cmd : RedisCommand) :
    (r.called cmd).AsksToLoad ↔
      ∃ sub path rest, r.operands = sub :: path :: rest ∧ strcaseeq sub (ascii "load") := by
  have hholds := r.called_holds cmd
  have hargc := hholds.argc_eq
  constructor
  · rintro ⟨o, sub, ho, hsub, hload, hthree⟩
    match hops : r.operands with
    | [] => rw [hargc, hops] at hthree; simp at hthree
    | [s] => rw [hargc, hops] at hthree; simp at hthree
    | s :: path :: rest =>
        rw [hops] at hholds
        obtain ⟨o', ho', htext, hcontent⟩ := hholds.argvAt (i := 1) rfl
        cases ho.symm.trans ho'
        cases hsub.symm.trans (htext.2.trans (congrArg _ hcontent))
        exact ⟨sub, path, rest, rfl, hload⟩
  · rintro ⟨sub, path, rest, hops, hload⟩
    rw [hops] at hholds hargc
    obtain ⟨o, ho, htext, hcontent⟩ := hholds.argvAt (i := 1) rfl
    refine ⟨o, sub, ho, htext.2.trans (congrArg _ hcontent), hload, ?_⟩
    rw [hargc]
    simp only [List.length_cons]
    omega

instance (r : Request) : Decidable r.LoadsModule :=
  match h : r.operands with
  | sub :: path :: rest =>
      decidable_of_iff (r.Calls "module" ∧ strcaseeq sub (ascii "load") = true)
        ⟨fun ⟨hcalls, hload⟩ ↦ ⟨hcalls, sub, path, rest, h, hload⟩, fun ⟨hcalls, _, _, _, hops, hload⟩ ↦ by
          rw [h] at hops
          cases hops
          exact ⟨hcalls, hload⟩⟩
  | [_] => isFalse fun ⟨_, _, _, _, hops, _⟩ ↦ by rw [h] at hops; cases hops
  | [] => isFalse fun ⟨_, _, _, _, hops, _⟩ ↦ by rw [h] at hops; cases hops

/-- The request is a `MODULE LOAD`, and it was answered with `+OK`. -/
def Arrival.Loaded (a : Arrival) (out : Bytes) : Prop :=
  a.request.LoadsModule ∧ out = (Answer.status "OK").bytes

instance (a : Arrival) (out : Bytes) : Decidable (a.Loaded out) := inferInstanceAs (Decidable (_ ∧ _))

namespace ModuleHost

section Steps

variable {L : LatteC} {F : ModuleFuncs} {host host' : ModuleHost} {a : Arrival} {rc' : RedisClient}

/-- The two texts differ in their first byte. -/
theorem loadReply_iff (hL : L.AppendsProto) (r : ReplyBuf) (code : Int) :
    (if code = 0 then addReply L r sharedOk else addReplyError L r
        "Error loading the extension. Please check the server logs.").out.drop r.out.length =
      (Answer.status "OK").bytes ↔ code = 0 := by
  by_cases hcode : code = 0
  · rw [if_pos hcode, out_addReply hL, List.drop_left]
    exact iff_of_true (objectBytes_latteObjectNew _) hcode
  · rw [if_neg hcode, addReplyError, out_addReplyErrorLength hL, List.drop_left]
    exact iff_of_false (by decide) hcode

/-- A handler other than that of `MODULE` leaves the modules alone. -/
theorem lift_grows (hF : F.UsesApi) {proc : CommandProc} {rc : RedisClient} (h : host.Sound)
    (hrun : host.lift (proc.run L F.extension host.server rc) = .ok (host', rc')) :
    host'.Sound ∧ host.Grows host' ∧ host'.modules = host.modules := by
  obtain ⟨server, hproc, rfl⟩ := lift_eq_ok hrun
  have hregisters : Registers host.server.commands server.commands := by
    rcases CommandProc.run_cases hproc with ⟨dbs, rfl⟩ | ⟨path, args, rfl⟩ | ⟨n, reply, hfunc⟩
    · exact .refl _
    · exact .refl _
    · exact hF n _ _ _ reply hfunc
  exact ⟨h.of_registers hregisters h.modules, ⟨hregisters, List.prefix_rfl⟩, rfl⟩

/-- **A request.** -/
theorem execute_grows (hL : L.AppendsProto) (hF : F.UsesApi) (h : host.Sound)
    (hexec : host.execute L F a = .ok (host', rc')) :
    host'.Sound ∧ host.Grows host' ∧ host'.modules.length = host.modules.length +
      if a.Loaded (rc'.reply.out.drop a.request.client.reply.out.length) then 1 else 0 := by
  have harrived : ({ host with server := a.request.arrives host.server } : ModuleHost).Sound :=
    ⟨h.table, h.commands, h.modules⟩
  rw [execute_eq] at hexec
  by_cases hcalls : a.request.Calls "module"
  · rw [h.lookup_module hcalls] at hexec
    rcases moduleCommand_cases hexec with ⟨hno, rfl, -⟩ | ⟨hasks, path, args, code, hload, rfl⟩
    · refine ⟨harrived, ⟨.refl _, List.prefix_rfl⟩, ?_⟩
      rw [if_neg, Nat.add_zero]
      exact fun hloaded ↦ hno ((a.request.asksToLoad_iff _).mpr hloaded.1.2)
    · obtain ⟨h', hgrows, hlen⟩ := harrived.of_load hload
      refine ⟨h', ⟨hgrows.commands, hgrows.modules⟩, hlen.trans (congrArg _ (if_congr ?_ rfl rfl))⟩
      have hloads : a.request.LoadsModule := ⟨hcalls, (a.request.asksToLoad_iff _).mp hasks⟩
      exact ((loadReply_iff hL _ code).symm.trans (and_iff_right hloads).symm)
  · have hno : ¬a.Loaded (rc'.reply.out.drop a.request.client.reply.out.length) :=
      fun hloaded ↦ hcalls hloaded.1.1
    rw [if_neg hno, Nat.add_zero]
    cases hlookup : commandManagerLookup host.server a.request.name with
    | none =>
        rw [hlookup] at hexec
        cases hexec
        exact ⟨harrived, ⟨.refl _, List.prefix_rfl⟩, rfl⟩
    | some cmd =>
        rw [hlookup] at hexec
        dsimp only at hexec
        unfold proc at hexec
        split at hexec
        · next hproc => exact absurd (h.calls_module hlookup hproc) hcalls
        · obtain ⟨h', hgrows, hmodules⟩ := lift_grows hF harrived hexec
          exact ⟨h', ⟨hgrows.commands, hgrows.modules⟩, congrArg List.length hmodules⟩

end Steps

/-- How many of the requests loaded a module. -/
def loads (as : List Arrival) (outs : List Bytes) : Nat :=
  (as.zip outs).countP fun p ↦ p.1.Loaded p.2

section Runs

variable {L : LatteC} {F : ModuleFuncs} {host host' : ModuleHost} {as : List Arrival}
  {outs outs' : List Bytes}

/-- **A run of requests.** -/
theorem answerAll_grows (hL : L.AppendsProto) (hF : F.UsesApi) (h : host.Sound)
    (hrun : as.foldlM (answer L F) (host, outs) = .ok (host', outs')) :
    host'.Sound ∧ host.Grows host' ∧ ∃ new, outs' = outs ++ new ∧
      host'.modules.length = host.modules.length + loads as new := by
  induction as generalizing host outs with
  | nil =>
      cases hrun
      exact ⟨h, .refl host', [], (List.append_nil _).symm, rfl⟩
  | cons a as ih =>
      obtain ⟨⟨host₁, outs₁⟩, hstep, hrest⟩ := Run.foldlM_cons_eq_ok.mp hrun
      obtain ⟨⟨host₂, rc⟩, hexec, hpure⟩ := Run.bind_eq_ok.mp hstep
      cases hpure
      obtain ⟨h₁, hgrows₁, hlen₁⟩ := execute_grows hL hF h hexec
      obtain ⟨h', hgrows, new, rfl, hlen⟩ := ih h₁ hrest
      refine ⟨h', hgrows₁.trans hgrows, _ :: new, List.append_cons .. |>.symm, ?_⟩
      unfold loads at hlen ⊢
      rw [List.zip_cons_cons, List.countP_cons, hlen, hlen₁]
      simp only [decide_eq_true_eq]
      omega

end Runs

end ModuleHost

/-- A module with one command. -/
def countOnload : Onload :=
  .init (ascii "count") 1 1 <| orFail <|
    .createCommand (ascii "count") (.other 0) none <| orFail <| .ret 0

def countSo : SharedObject where
  executable := some true
  library := some { onload := some fun _ ↦ countOnload }

end LatteRedis
