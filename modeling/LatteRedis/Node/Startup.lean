import LatteRedis.Config.LoadModules
import LatteRedis.Node.Modules

/-!
# Starting with a configuration (`server.c`, `config.c`, `module.c`, `module_demo/hello.c`)

A module is usually written like `hello.c`: its `redis_module_onload` announces a name, then
creates one command after the other, and gives up at the first call that fails.  What such a
module asks for is a list of names, its `Manifest`, and whether a server starts with a
configuration is a question about the lists alone: every line has to name a module, no two
modules and no two commands may have the same name, those of the server included, and every
flag has to be known (`starts_iff`).  One line too many, for instance a module that is named
twice, and the assertion in `init_redis_modules` ends the server.
-/

namespace LatteRedis

open ByteString

/-! ## Modules that ask for names -/

/-- The arguments of a call of `redis_module_create_command`. -/
structure CommandSpec where
  name : Bytes
  func : ModuleFunc
  strflags : Option Bytes

/-- The arguments of all calls a `redis_module_onload` makes. -/
structure Manifest where
  name : Bytes
  ver : Int
  apiver : Int
  commands : List CommandSpec

/-- The commands one after the other, and then success. -/
def createCommands : List CommandSpec → Onload
  | [] => .ret 0
  | c :: cs => .createCommand c.name c.func c.strflags <| orFail <| createCommands cs

def Manifest.onload (m : Manifest) : Onload :=
  .init m.name m.ver m.apiver <| orFail <| createCommands m.commands

/-- The file is a library with this manifest. -/
def SharedObject.IsModule (file : SharedObject) (m : Manifest) : Prop :=
  ∃ lib, file.entry = some (lib, fun _ ↦ m.onload)

/-- A library has one name. -/
theorem SharedObject.IsModule.name_eq {file : SharedObject} {m m' : Manifest} (h : file.IsModule m)
    (h' : file.IsModule m') : m.name = m'.name := by
  obtain ⟨lib, hentry⟩ := h
  obtain ⟨lib', hentry'⟩ := h'
  have hsame := congrArg Prod.snd (Option.some.inj (hentry.symm.trans hentry'))
  have honload : m.onload = m'.onload := congrFun hsame []
  exact (Onload.init.inj honload).1

/-- `redis_module_onload` of `hello.so`.  The number is that of `hello_test_redis_command`. -/
def helloOnload : Onload :=
  .init (ascii "hello") 1 1 <| orFail <|
    .createCommand (ascii "hello.test") (.other 0) (some (ascii "readonly")) <| orFail <| .ret 0

/-- `hello.so`. -/
def helloSo : SharedObject where
  executable := some true
  library := some { onload := some fun _ ↦ helloOnload }

theorem helloSo_isModule :
    helloSo.IsModule ⟨ascii "hello", 1, 1, [⟨ascii "hello.test", .other 0, some (ascii "readonly")⟩]⟩ :=
  ⟨_, rfl⟩

theorem latteSo_isModule :
    latteSo.IsModule ⟨ascii "latte", 1, 1, [⟨ascii "set", .set, some (ascii "write deny-oom")⟩,
      ⟨ascii "get", .get, some (ascii "readonly")⟩]⟩ :=
  ⟨_, rfl⟩

/-! ## What they leave in the server -/

/-- The command as it is registered. -/
def CommandSpec.command (c : CommandSpec) : RedisCommand := ⟨cString c.name, .dispatcher c.func⟩

def CommandSpec.FlagsKnown (c : CommandSpec) : Prop :=
  c.strflags.elim (some 0) commandFlagsFromString ≠ none

instance (c : CommandSpec) : Decidable c.FlagsKnown := inferInstanceAs (Decidable (_ ≠ _))

/-- The module as it is added. -/
def Manifest.toModule (m : Manifest) : RedisModule := ⟨cString m.name, m.ver, m.apiver⟩

/-- The commands of several modules. -/
def specs (ms : List Manifest) : List CommandSpec := ms.flatMap Manifest.commands

theorem specs_singleton (m : Manifest) : specs [m] = m.commands := List.append_nil _

theorem specs_cons (m : Manifest) (ms : List Manifest) : specs (m :: ms) = m.commands ++ specs ms :=
  List.flatMap_cons

namespace ModuleHost

/-- The server with these modules. -/
def install (host : ModuleHost) (ms : List Manifest) : ModuleHost where
  server := host.server.withCommands ((specs ms).map CommandSpec.command)
  modules := host.modules ++ ms.map Manifest.toModule

/-- No flag is unknown and no name is taken twice. -/
structure Admits (host : ModuleHost) (ms : List Manifest) : Prop where
  flags : ∀ c ∈ specs ms, c.FlagsKnown
  commands : (commandNames (host.install ms).server.commands).Nodup
  modules : (host.install ms).moduleNames.Nodup

end ModuleHost

/-- What `start_redis_server` does with the `load-module` lines of a configuration.  `argv` is
what `onload` finds in the memory that `entry->args` is cast to. -/
def startWithModules (V : VectorLib) (argv : ModuleEntry V → List LatteObject) (files : Files)
    (dbNum : Nat) (hz : Int) (clock : Clock) (lines : List (Bytes × List Bytes)) :
    Except Fault ModuleHost := do
  let loadModules ← lines.foldlM (addLine V) none
  initRedisModules files (.bare dbNum hz clock)
    ((configured V loadModules).map fun entry ↦ (entry.path, argv entry))

/-! ## The commands of a module -/

theorem commandManagerLookup_eq_none_iff {server : Server} {name : Bytes} :
    commandManagerLookup server name = none ↔ name.map lower ∉ commandNames server.commands := by
  unfold commandManagerLookup commandNames
  rw [List.find?_eq_none]
  simp only [decide_eq_true_eq, List.mem_map, not_exists, not_and]

/-- The commands can be created, one after the other. -/
structure Server.Fits (server : Server) (cs : List CommandSpec) : Prop where
  flags : ∀ c ∈ cs, c.FlagsKnown
  names : (commandNames (server.withCommands (cs.map CommandSpec.command)).commands).Nodup

theorem Server.fits_cons {host : ModuleHost} {c : CommandSpec} {cs : List CommandSpec} :
    host.server.Fits (c :: cs) ↔
      ¬host.Refuses c.name c.strflags ∧ (host.server.withCommands [c.command]).Fits cs := by
  have hserver : host.server.withCommands ((c :: cs).map CommandSpec.command) =
      (host.server.withCommands [c.command]).withCommands (cs.map CommandSpec.command) := by
    rw [Server.withCommands_withCommands]
    rfl
  unfold ModuleHost.Refuses
  rw [not_or]
  constructor
  · rintro ⟨hflags, hnames⟩
    rw [hserver] at hnames
    refine ⟨⟨hflags c List.mem_cons_self, ?_⟩, fun c hc ↦ hflags c (List.mem_cons_of_mem _ hc), hnames⟩
    -- the first name is not among those before it
    rw [not_not, commandManagerLookup_eq_none_iff]
    unfold commandNames Server.withCommands at hnames
    rw [List.append_assoc, List.map_append, List.singleton_append, List.map_cons,
      List.nodup_middle, List.nodup_cons] at hnames
    exact fun hmem ↦ hnames.1 (List.mem_append_left _ hmem)
  · rintro ⟨⟨hflag, -⟩, hflags, hnames⟩
    exact ⟨List.forall_mem_cons.mpr ⟨hflag, hflags⟩, hserver ▸ hnames⟩

/-- A call goes one of two ways. -/
theorem redisModuleCreateCommand_of_bound {ctx : ModuleCtx} (hbound : ctx.bound = true) (c : CommandSpec) :
    redisModuleCreateCommand ctx c.name c.func c.strflags =
      .ok (if ctx.Refuses c.name c.strflags then (-1, ctx)
        else (0, { ctx with server := ctx.server.withCommands [c.command] })) := by
  have hreturns : ∃ p, redisModuleCreateCommand ctx c.name c.func c.strflags = .ok p := by
    unfold redisModuleCreateCommand
    rw [if_neg (by rw [hbound]; exact Bool.noConfusion)]
    split
    · exact ⟨_, rfl⟩
    · dsimp only
      split
      · exact ⟨_, rfl⟩
      · exact ⟨_, rfl⟩
  obtain ⟨⟨r, ctx'⟩, h⟩ := hreturns
  rw [h]
  obtain ⟨hrefused, rfl, rfl⟩ | ⟨hfree, rfl, rfl⟩ := redisModuleCreateCommand_cases h
  · rw [if_pos hrefused]
  · rw [if_neg hfree]
    rfl

/-- All commands are created, or `onload` fails. -/
theorem createCommands_run (cs : List CommandSpec) (ctx : ModuleCtx) (hbound : ctx.bound = true)
    (hnames : (commandNames ctx.server.commands).Nodup) :
    (ctx.server.Fits cs ∧ (createCommands cs).run ctx =
        .ok (0, { ctx with server := ctx.server.withCommands (cs.map CommandSpec.command) })) ∨
      (¬ctx.server.Fits cs ∧ ∃ ctx', (createCommands cs).run ctx = .ok (-1, ctx')) := by
  induction cs generalizing ctx with
  | nil =>
      rw [List.map_nil, Server.withCommands_nil]
      exact .inl ⟨⟨by simp, by rwa [List.map_nil, Server.withCommands_nil]⟩, rfl⟩
  | cons c cs ih =>
      rw [Server.fits_cons]
      unfold createCommands Onload.run
      rw [redisModuleCreateCommand_of_bound hbound]
      by_cases hrefused : ctx.Refuses c.name c.strflags
      · rw [if_pos hrefused]
        exact .inr ⟨fun h ↦ h.1 hrefused, ctx, rfl⟩
      · rw [if_neg hrefused]
        have hafter : (commandNames (ctx.server.withCommands [c.command]).commands).Nodup := by
          have hfree := commandManagerLookup_eq_none_iff.mp (not_not.mp (not_or.mp hrefused).2)
          unfold commandNames at hfree ⊢
          unfold Server.withCommands
          rw [List.map_append, List.map_singleton, List.nodup_append_comm, List.singleton_append,
            List.nodup_cons]
          exact ⟨hfree, hnames⟩
        obtain ⟨hfits, hrun⟩ | ⟨hfits, hrun⟩ :=
          ih { ctx with server := ctx.server.withCommands [c.command] } hbound hafter
        · refine .inl ⟨⟨hrefused, hfits⟩, hrun.trans ?_⟩
          rw [Server.withCommands_withCommands]
          rfl
        · exact .inr ⟨fun h ↦ hfits h.2, hrun⟩

/-! ## Loading one module -/

namespace SharedObject

variable {files : Files} {host : ModuleHost} {path : Bytes} {args : List LatteObject}

theorem moduleLoad_of_entry_none (h : (files path).entry = none) :
    moduleLoad files host path args = .ok (-1, host) := by
  unfold SharedObject.entry at h
  unfold moduleLoad
  split at h
  · next hexec => rw [if_pos hexec]
  · next hexec =>
      rw [if_neg hexec]
      cases hlib : (files path).library with
      | none => rfl
      | some lib =>
          rw [hlib, Option.bind_some, Option.map_eq_none_iff] at h
          dsimp only
          rw [h]

theorem moduleLoad_of_entry {lib : Library} {onload : List LatteObject → Onload}
    (h : (files path).entry = some (lib, onload)) :
    moduleLoad files host path args =
      (onload args).run { host with bound := lib.bound } >>= fun p ↦
        if p.1 = -1 then .ok (-1, p.2.toModuleHost)
        else p.2.ctxModule.elim (.error .badPointer) fun m ↦ .ok (0, p.2.toModuleHost.addModule m) := by
  unfold SharedObject.entry at h
  unfold moduleLoad
  split at h
  · cases h
  · next hexec =>
      obtain ⟨lib', hlib, honload⟩ := Option.bind_eq_some_iff.mp h
      obtain ⟨onload', honload, heq⟩ := Option.map_eq_some_iff.mp honload
      cases heq
      rw [if_neg hexec, hlib]
      dsimp only
      rw [honload]
      dsimp only
      cases (onload args).run { host with bound := lib.bound } with
      | error f => rfl
      | ok p =>
          rw [Run.ok_bind, Run.ok_bind]
          split
          · rfl
          · cases p.2.ctxModule <;> rfl

end SharedObject

namespace ModuleHost

variable {files : Files} {host : ModuleHost} {m : Manifest} {ms : List Manifest}

theorem install_nil (host : ModuleHost) : host.install [] = host := by
  unfold install specs
  rw [List.flatMap_nil, List.map_nil, List.map_nil, List.append_nil, Server.withCommands_nil]

theorem install_cons (host : ModuleHost) (m : Manifest) (ms : List Manifest) :
    host.install (m :: ms) = (host.install [m]).install ms := by
  unfold install specs
  rw [Server.withCommands_withCommands, List.append_assoc, ← List.map_append, ← List.map_append,
    ← List.flatMap_append]
  rfl

theorem isModuleNameBusy_iff {name : Bytes} :
    host.isModuleNameBusy name = true ↔ (cString name).map lower ∈ host.moduleNames := by
  unfold isModuleNameBusy moduleNames
  simp only [List.any_eq_true, decide_eq_true_eq, List.mem_map]

theorem admits_singleton (hmodules : host.moduleNames.Nodup) :
    host.Admits [m] ↔ host.isModuleNameBusy m.name = false ∧ host.server.Fits m.commands := by
  have hnames : (host.install [m]).moduleNames.Nodup ↔ host.isModuleNameBusy m.name = false := by
    rw [← Bool.not_eq_true, isModuleNameBusy_iff]
    unfold moduleNames install
    rw [List.map_append, List.map_singleton, List.map_singleton, List.nodup_append_comm,
      List.singleton_append, List.nodup_cons]
    exact and_iff_left hmodules
  rw [← hnames]
  constructor
  · rintro ⟨hflags, hcommands, hmodules⟩
    unfold install at hcommands
    rw [specs_singleton] at hflags hcommands
    exact ⟨hmodules, hflags, hcommands⟩
  · rintro ⟨hmodules, hflags, hcommands⟩
    refine ⟨?_, ?_, hmodules⟩
    · rwa [specs_singleton]
    · unfold install
      rwa [specs_singleton]

theorem addModule_of_fresh (host : ModuleHost) {m : RedisModule} (hfresh : m.name.map lower ∉ host.moduleNames) :
    host.addModule m = { host with modules := host.modules ++ [m] } := by
  unfold addModule
  refine if_neg fun hany ↦ hfresh ?_
  obtain ⟨m', hm', hname⟩ := List.any_eq_true.mp hany
  exact List.mem_map.mpr ⟨m', hm', of_decide_eq_true hname⟩

/-- **One module.**  It is loaded if the server admits it, and else the load fails. -/
theorem moduleLoad_isModule {path : Bytes} (hcommands : (commandNames host.server.commands).Nodup)
    (hmodules : host.moduleNames.Nodup) (hfile : (files path).IsModule m) (args : List LatteObject) :
    (host.Admits [m] ∧ moduleLoad files host path args = .ok (0, host.install [m])) ∨
      (¬host.Admits [m] ∧ ∃ host', moduleLoad files host path args = .ok (-1, host')) := by
  obtain ⟨lib, hentry⟩ := hfile
  rw [SharedObject.moduleLoad_of_entry hentry, admits_singleton hmodules, Manifest.onload,
    Onload.run_init]
  unfold redisModuleInit
  dsimp only
  by_cases hbusy : host.isModuleNameBusy m.name = true
  · rw [if_pos hbusy]
    exact .inr ⟨fun h ↦ absurd (h.1.symm.trans hbusy) Bool.false_ne_true, _, rfl⟩
  · rw [if_neg hbusy]
    unfold setModuleAttribs
    obtain ⟨hfits, hrun⟩ | ⟨hfits, ctx', hrun⟩ := createCommands_run m.commands
      { host with bound := true, ctxModule := some m.toModule } rfl hcommands
    · refine .inl ⟨⟨Bool.not_eq_true _ ▸ hbusy, hfits⟩, ?_⟩
      have hrun' : (orFail (createCommands m.commands) 0).run
          { host with bound := true, ctxModule := some m.toModule } = _ := hrun
      unfold Manifest.toModule at hrun'
      rw [hrun', Run.ok_bind]
      have hfresh : m.toModule.name.map lower ∉ host.moduleNames :=
        fun hmem ↦ hbusy (isModuleNameBusy_iff.mpr hmem)
      unfold install
      rw [specs_singleton]
      exact congrArg (fun host ↦ Except.ok (0, host)) (addModule_of_fresh
        { host with server := host.server.withCommands (m.commands.map CommandSpec.command) } hfresh)
    · have hrun' : (orFail (createCommands m.commands) 0).run
          { host with bound := true, ctxModule := some m.toModule } = _ := hrun
      unfold Manifest.toModule at hrun'
      exact .inr ⟨fun h ↦ hfits h.2, _, by rw [hrun']; rfl⟩

/-! ## Loading them all -/

theorem Admits.nodup (h : host.Admits ms) :
    (commandNames host.server.commands).Nodup ∧ host.moduleNames.Nodup := by
  obtain ⟨-, hcommands, hmodules⟩ := h
  unfold commandNames install Server.withCommands at hcommands
  unfold moduleNames install at hmodules
  rw [List.map_append] at hcommands hmodules
  exact ⟨hcommands.of_append_left, hmodules.of_append_left⟩

theorem admits_cons :
    host.Admits (m :: ms) ↔ host.Admits [m] ∧ (host.install [m]).Admits ms := by
  constructor
  · rintro ⟨hflags, hcommands, hmodules⟩
    rw [specs_cons] at hflags
    rw [install_cons] at hcommands hmodules
    have hrest : (host.install [m]).Admits ms :=
      ⟨fun c hc ↦ hflags c (List.mem_append_right _ hc), hcommands, hmodules⟩
    refine ⟨⟨fun c hc ↦ hflags c (List.mem_append_left _ ?_), hrest.nodup.1, hrest.nodup.2⟩, hrest⟩
    rwa [specs_singleton] at hc
  · rintro ⟨⟨hflags, -, -⟩, hrest, hcommands, hmodules⟩
    rw [specs_singleton] at hflags
    refine ⟨?_, install_cons host m ms ▸ hcommands, install_cons host m ms ▸ hmodules⟩
    rw [specs_cons]
    exact List.forall_mem_append.mpr ⟨hflags, hrest⟩

variable {entries : List (Bytes × List LatteObject)}

/-- What the server admits is loaded. -/
theorem Admits.initRedisModules (hadmits : host.Admits ms)
    (hentries : List.Forall₂ (fun entry m ↦ (files (cString entry.1)).IsModule m) entries ms) :
    initRedisModules files host entries = .ok (host.install ms) := by
  induction hentries generalizing host with
  | nil =>
      rw [install_nil]
      rfl
  | @cons entry m entries ms hfile _ ih =>
      obtain ⟨hone, hrest⟩ := admits_cons.mp hadmits
      obtain ⟨-, hload⟩ | ⟨hno, -⟩ :=
        moduleLoad_isModule hone.nodup.1 hone.nodup.2 hfile entry.2
      · rw [install_cons]
        refine Run.foldlM_cons_eq_ok.mpr ⟨host.install [m], ?_, ih hrest⟩
        rw [hload]
        rfl
      · exact absurd hone hno

variable (files host entries) in
/-- Anything else fails, and that ends the server. -/
theorem initRedisModules_cases
    (hentries : ∀ entry ∈ entries, (files (cString entry.1)).entry = none ∨
      ∃ m, (files (cString entry.1)).IsModule m)
    (hcommands : (commandNames host.server.commands).Nodup) (hmodules : host.moduleNames.Nodup) :
    (∃ ms, List.Forall₂ (fun entry m ↦ (files (cString entry.1)).IsModule m) entries ms ∧
        host.Admits ms) ∨
      LatteRedis.initRedisModules files host entries = .error (.assertion "module load %s failed") := by
  unfold LatteRedis.initRedisModules
  induction entries generalizing host with
  | nil =>
      refine .inl ⟨[], .nil, fun c hc ↦ absurd hc List.not_mem_nil, ?_, ?_⟩
      · rwa [install_nil]
      · rwa [install_nil]
  | cons entry entries ih =>
      rw [List.foldlM_cons]
      obtain ⟨hentry, hrest⟩ := List.forall_mem_cons.mp hentries
      rcases hentry with hnone | ⟨m, hfile⟩
      · rw [SharedObject.moduleLoad_of_entry_none hnone]
        exact .inr rfl
      · obtain ⟨hone, hload⟩ | ⟨-, host', hload⟩ :=
          moduleLoad_isModule hcommands hmodules hfile entry.2
        · rw [hload]
          obtain ⟨ms, hms, hadmits⟩ | herror :=
            ih (host.install [m]) hrest hone.commands hone.modules
          · exact .inl ⟨m :: ms, .cons hfile hms, admits_cons.mpr ⟨hone, hadmits⟩⟩
          · exact .inr herror
        · rw [hload]
          exact .inr rfl

/-- The modules are loaded exactly if they are admitted. -/
theorem initRedisModules_eq_ok_iff
    (hentries : ∀ entry ∈ entries, (files (cString entry.1)).entry = none ∨
      ∃ m, (files (cString entry.1)).IsModule m)
    (hcommands : (commandNames host.server.commands).Nodup) (hmodules : host.moduleNames.Nodup)
    {host' : ModuleHost} : LatteRedis.initRedisModules files host entries = .ok host' ↔
      ∃ ms, List.Forall₂ (fun entry m ↦ (files (cString entry.1)).IsModule m) entries ms ∧
        host.Admits ms ∧ host' = host.install ms := by
  constructor
  · intro hinit
    obtain ⟨ms, hms, hadmits⟩ | herror :=
      initRedisModules_cases files host entries hentries hcommands hmodules
    · cases hinit.symm.trans (hadmits.initRedisModules hms)
      exact ⟨ms, hms, hadmits, rfl⟩
    · cases hinit.symm.trans herror
  · rintro ⟨ms, hms, hadmits, rfl⟩
    exact hadmits.initRedisModules hms

end ModuleHost

/-! ## Starting -/

/-- No two names are the same, so nothing hides anything. -/
theorem commandManagerLookup_of_nodup {server : Server} (h : (commandNames server.commands).Nodup)
    {cmd : RedisCommand} (hcmd : cmd ∈ server.commands) {name : Bytes}
    (hname : name.map lower = cmd.name.map lower) : commandManagerLookup server name = some cmd := by
  obtain ⟨before, after, hcommands⟩ := List.append_of_mem hcmd
  unfold commandManagerLookup commandNames at *
  rw [hcommands, List.map_append, List.map_cons, List.nodup_middle, List.nodup_cons] at h
  rw [hcommands, hname, List.find?_append, List.find?_eq_none.mpr, List.find?_cons_of_pos]
  · rfl
  · exact decide_eq_true rfl
  · intro cmd' hcmd' heq
    exact h.1 (List.mem_append_left _ (List.mem_map.mpr ⟨cmd', hcmd', of_decide_eq_true heq⟩))

variable {V : VectorLib}

theorem startWithModules_eq (hV : V.Lawful) (argv : ModuleEntry V → List LatteObject) (files : Files)
    (dbNum : Nat) (hz : Int) (clock : Clock) (lines : List (Bytes × List Bytes)) :
    startWithModules V argv files dbNum hz clock lines =
      initRedisModules files (.bare dbNum hz clock)
        (lines.map fun line ↦ (cString line.1, argv (lineEntry V line))) := by
  obtain ⟨loadModules, hlines, hconfigured⟩ := addLines_elements hV lines none
  unfold startWithModules
  rw [hlines, Run.ok_bind, hconfigured]
  show initRedisModules files _ (([] ++ lines.map (lineEntry V)).map _) = _
  rw [List.nil_append, List.map_map]
  rfl

/-- **What a server starts with.**  If the libraries that are named are written like `hello.c`,
then it starts exactly if every line names one and all of them are admitted, and else the
assertion fails.  It has them all then, and every command is found under its name. -/
theorem starts_iff (hV : V.Lawful) (argv : ModuleEntry V → List LatteObject) (files : Files)
    (dbNum : Nat) (hz : Int) (clock : Clock) (lines : List (Bytes × List Bytes))
    (hlines : ∀ line ∈ lines, (files (cString line.1)).entry = none ∨
      ∃ m, (files (cString line.1)).IsModule m) :
    (∀ host, startWithModules V argv files dbNum hz clock lines = .ok host ↔
        ∃ ms, List.Forall₂ (fun line m ↦ (files (cString line.1)).IsModule m) lines ms ∧
          (ModuleHost.bare dbNum hz clock).Admits ms ∧
          host = (ModuleHost.bare dbNum hz clock).install ms) ∧
      ((∀ host, startWithModules V argv files dbNum hz clock lines ≠ .ok host) →
        startWithModules V argv files dbNum hz clock lines =
          .error (.assertion "module load %s failed")) ∧
      ∀ host, startWithModules V argv files dbNum hz clock lines = .ok host →
        ∀ cmd ∈ host.server.commands, ∀ name, name.map lower = cmd.name.map lower →
          commandManagerLookup host.server name = some cmd := by
  have hcString : ∀ s, cString (cString s) = cString s := fun s ↦ List.takeWhile_idem
  have hsound := ModuleHost.bare_sound dbNum hz clock
  have hentries : ∀ entry ∈ lines.map fun line ↦ (cString line.1, argv (lineEntry V line)),
      (files (cString entry.1)).entry = none ∨ ∃ m, (files (cString entry.1)).IsModule m := by
    intro entry hentry
    obtain ⟨line, hline, rfl⟩ := List.mem_map.mp hentry
    dsimp only
    rw [hcString]
    exact hlines line hline
  have hstarts : ∀ host, startWithModules V argv files dbNum hz clock lines = .ok host ↔
      ∃ ms, List.Forall₂ (fun line m ↦ (files (cString line.1)).IsModule m) lines ms ∧
        (ModuleHost.bare dbNum hz clock).Admits ms ∧
        host = (ModuleHost.bare dbNum hz clock).install ms := by
    intro host
    rw [startWithModules_eq hV,
      ModuleHost.initRedisModules_eq_ok_iff hentries hsound.commands hsound.modules]
    simp only [List.forall₂_map_left_iff, hcString]
  refine ⟨hstarts, ?_, ?_⟩
  · intro hnot
    rw [startWithModules_eq hV] at hnot ⊢
    obtain ⟨ms, hms, hadmits⟩ | herror := ModuleHost.initRedisModules_cases files _ _ hentries
      hsound.commands hsound.modules
    · exact absurd (hadmits.initRedisModules hms) (hnot _)
    · exact herror
  · intro host hstart cmd hcmd name hname
    obtain ⟨ms, -, hadmits, rfl⟩ := (hstarts host).mp hstart
    exact commandManagerLookup_of_nodup hadmits.commands hcmd hname

/-- `latte.so` and `hello.so` are loaded side by side; the second `hello.so` is one too many. -/
theorem starts_iff_two_modules :
    let files : Files := fun path ↦ if path = ascii "./latte.so" then latteSo else helloSo
    let start := startWithModules listVectors (fun _ ↦ []) files 16 10 ⟨0, 0, 0⟩
    (∃ host, start [(ascii "./latte.so", []), (ascii "./hello.so", [])] = .ok host ∧
        commandManagerLookup host.server (ascii "HELLO.TEST") =
          some ⟨ascii "hello.test", .dispatcher (.other 0)⟩) ∧
      start [(ascii "./hello.so", []), (ascii "./hello.so", [])] =
        .error (.assertion "module load %s failed") := by
  intro files start
  have hfiles : ∀ path, ∃ m, (files path).IsModule m := by
    intro path
    by_cases hpath : path = ascii "./latte.so"
    · exact ⟨_, (if_pos hpath : files path = _) ▸ latteSo_isModule⟩
    · exact ⟨_, (if_neg hpath : files path = _) ▸ helloSo_isModule⟩
  obtain ⟨hstarts, -, hlookup⟩ := starts_iff listVectors_lawful (fun _ ↦ []) files 16 10 ⟨0, 0, 0⟩
    [(ascii "./latte.so", []), (ascii "./hello.so", [])] fun line _ ↦ .inr (hfiles _)
  obtain ⟨hstarts₂, hfails, -⟩ := starts_iff listVectors_lawful (fun _ ↦ []) files 16 10 ⟨0, 0, 0⟩
    [(ascii "./hello.so", []), (ascii "./hello.so", [])] fun line _ ↦ .inr (hfiles _)
  constructor
  · have hstart := (hstarts _).mpr ⟨_, .cons latteSo_isModule (.cons helloSo_isModule .nil),
      ⟨by decide, by decide, by decide⟩, rfl⟩
    refine ⟨_, hstart, hlookup _ hstart _ ?_ _ (by decide)⟩
    decide
  · refine hfails fun host hstart ↦ ?_
    obtain ⟨ms, hms, hadmits, -⟩ := (hstarts₂ host).mp hstart
    cases hms with
    | @cons _ m _ _ hfirst hrest =>
        cases hrest with
        | @cons _ m' _ _ hsecond hnil =>
            cases hnil
            have hnames : [(cString m.name).map lower, (cString m'.name).map lower].Nodup :=
              hadmits.modules
            rw [hfirst.name_eq hsecond] at hnames
            exact (List.nodup_cons.mp hnames).1 List.mem_cons_self

end LatteRedis
