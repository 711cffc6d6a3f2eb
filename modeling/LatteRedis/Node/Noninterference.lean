import LatteRedis.Node.Modules

/-!
# Modules do not interfere with the store

The clients that use the key-value store do not notice the modules.  Whatever is loaded,
successfully or not, while they work, and whatever requests are made of the commands that
come in by it: their own requests are answered as if they were alone
(`modules_unnoticed`).

What is asked of a module is that it brings functions of its own, and that these leave the
databases alone.  A library may try to take over `SET`, and `latte.so` may be loaded again.
-/

namespace LatteRedis

open ByteString

/-! ## What modules may do -/

/-- The functions of modules leave the databases and the table of commands alone. -/
structure ModuleFuncs.Passive (F : ModuleFuncs) : Prop where
  dbs : ∀ n server rc server' reply, F n server rc = .ok (server', reply) → server'.dbs = server.dbs
  hz : ∀ n server rc server' reply, F n server rc = .ok (server', reply) → server'.hz = server.hz
  commands : ∀ n server rc server' reply, F n server rc = .ok (server', reply) →
    server'.commands = server.commands

/-- Under a name that is not one of the store's, `onload` registers functions of its own. -/
def Onload.Foreign : Onload → Prop
  | .ret _ => True
  | .init _ _ _ k => ∀ r, (k r).Foreign
  | .createCommand name func _ k =>
      ((Verb.named (cString name)).isSome ∨ ∃ n, func = .other n) ∧ ∀ r, (k r).Foreign

/-- Every library that can be opened is such a module. -/
def Files.Foreign (files : Files) : Prop :=
  ∀ path entry, (files path).entry = some entry → ∀ args, (entry.2 args).Foreign

/-- The request is for the store: it has one of its commands, and loads no module. -/
def Arrival.ForStore (a : Arrival) : Prop :=
  (Verb.named a.request.name).isSome ∧ ¬a.request.LoadsModule

instance (a : Arrival) : Decidable a.ForStore := inferInstanceAs (Decidable (_ ∧ _))

/-- The requests for the store. -/
def storeRequests (as : List Arrival) : List Request :=
  (as.filter fun a ↦ a.ForStore).map Arrival.request

/-- What they were answered with. -/
def storeOuts (as : List Arrival) (outs : List Bytes) : List Bytes :=
  ((as.zip outs).filter fun p ↦ p.1.ForStore).map Prod.snd

/-- A table in which the store's commands are where the specification has them, and the
others run functions of other modules. -/
structure ServesStore (server : Server) : Prop where
  lookup : ∀ v : Verb, commandManagerLookup server (ascii v.word) = some v.command
  foreign : ∀ cmd ∈ server.commands, (Verb.named cmd.name).isSome ∨ ∃ n, cmd.proc = .dispatcher (.other n)

namespace ServesStore

variable {server server' : Server}

theorem lookup_named (h : ServesStore server) {name : Bytes} {v : Verb}
    (hname : Verb.named name = some v) : commandManagerLookup server name = some v.command := by
  have hword : ∀ v : Verb, (ascii v.word).map lower = ascii v.word := by
    intro v
    cases v <;> decide
  have heq : ascii v.word = name.map lower := of_decide_eq_true (List.find?_some hname :)
  have hlookup := h.lookup v
  unfold commandManagerLookup at hlookup ⊢
  rwa [hword, heq] at hlookup

/-- Another name is not found, or runs a function of another module. -/
theorem lookup_other (h : ServesStore server) {name : Bytes} (hname : Verb.named name = none)
    {cmd : RedisCommand} (hcmd : commandManagerLookup server name = some cmd) :
    ∃ n, cmd.proc = .dispatcher (.other n) := by
  have heq : cmd.name.map lower = name.map lower := of_decide_eq_true (List.find?_some hcmd :)
  rcases h.foreign cmd (List.mem_of_find?_eq_some hcmd) with hsome | hother
  · unfold Verb.named at hname hsome
    rw [heq, hname] at hsome
    cases hsome
  · exact hother

/-- Only the table counts. -/
theorem of_commands (h : ServesStore server) (hcmds : server'.commands = server.commands) :
    ServesStore server' := by
  refine ⟨fun v ↦ ?_, by rw [hcmds]; exact h.foreign⟩
  have hlookup := h.lookup v
  unfold commandManagerLookup at hlookup ⊢
  rwa [hcmds]

end ServesStore

theorem startRedisServer_servesStore (dbNum : Nat) (hz : Int) (clock : Clock) :
    ServesStore (startRedisServer dbNum hz clock) := by
  have hcmds : (startRedisServer dbNum hz clock).commands = redisCommandTable ++ latteModuleCommands := rfl
  refine ⟨?_, ?_⟩
  · intro v
    rw [commandManagerLookup_verb hcmds]
    cases v <;> decide
  · have hverbs : ∀ cmd ∈ redisCommandTable ++ latteModuleCommands, (Verb.named cmd.name).isSome := by
      decide
    exact fun cmd hcmd ↦ .inl (hverbs cmd hcmd)

/-! ## Loads -/

/-- What `onload` leaves in the table. -/
theorem Onload.run_foreign {onload : Onload} {ctx ctx' : ModuleCtx} {code : Int}
    (hforeign : onload.Foreign) (h : onload.run ctx = .ok (code, ctx'))
    (hcmds : ∀ cmd ∈ ctx.server.commands,
      (Verb.named cmd.name).isSome ∨ ∃ n, cmd.proc = .dispatcher (.other n)) :
    ∀ cmd ∈ ctx'.server.commands,
      (Verb.named cmd.name).isSome ∨ ∃ n, cmd.proc = .dispatcher (.other n) := by
  induction onload generalizing ctx with
  | ret code =>
      cases h
      exact hcmds
  | init name ver apiver k ih =>
      obtain ⟨-, hhost⟩ := redisModuleInit_eq ctx name ver apiver
      rw [run_init] at h
      exact ih _ (hforeign _) h (by rw [hhost]; exact hcmds)
  | createCommand name func strflags k ih =>
      obtain ⟨⟨r, ctx₁⟩, hcreate, hrest⟩ := Run.bind_eq_ok.mp h
      refine ih r (hforeign.2 r) hrest ?_
      rcases redisModuleCreateCommand_cases hcreate with ⟨-, -, rfl⟩ | ⟨-, -, rfl⟩
      · exact hcmds
      · intro cmd hcmd
        rcases List.mem_append.mp hcmd with hcmd | hcmd
        · exact hcmds cmd hcmd
        · rw [List.mem_singleton.mp hcmd]
          rcases hforeign.1 with hname | ⟨n, rfl⟩
          · exact .inl hname
          · exact .inr ⟨n, rfl⟩

/-- A load, whether it fails or not, leaves the store as it was. -/
theorem moduleLoad_unnoticed {L : LatteC} {dbNum : Nat} {ms : Keyspaces} {files : Files}
    {host host' : ModuleHost} {path : Bytes} {args : List LatteObject} {code : Int}
    (hfiles : files.Foreign) (hserves : ServesStore host.server) (hstores : host.server.Stores L dbNum ms)
    (h : moduleLoad files host path args = .ok (code, host')) :
    ServesStore host'.server ∧ host'.server.Stores L dbNum ms := by
  obtain ⟨cmds, hserver, -⟩ := moduleLoad_grows h
  obtain ⟨hregisters, -⟩ := moduleLoad_adds h
  refine ⟨⟨fun v ↦ hregisters.lookup (hserves.lookup v), ?_⟩, ?_⟩
  · rcases moduleLoad_cases h with ⟨-, -, rfl⟩ | ⟨lib, onload, code₁, ctx, hentry, hrun, hend⟩
    · exact hserves.foreign
    · have hforeign := Onload.run_foreign (hfiles path (lib, onload) hentry args) hrun hserves.foreign
      rcases hend with ⟨-, rfl⟩ | ⟨m, -, rfl⟩
      · exact hforeign
      · unfold ModuleHost.addModule
        split
        · exact hforeign
        · exact hforeign
  · rw [hserver]
    exact ⟨hstores.hz, hstores.length, hstores.represents⟩

/-! ## Requests -/

namespace ModuleHost

variable {L : LatteC} {F : ModuleFuncs} {host host' : ModuleHost} {a : Arrival}
  {rc rc' : RedisClient} {dbNum : Nat} {ms : Keyspaces}

/-- A `MODULE` that loads nothing does what the handler does that knows of no modules. -/
theorem moduleCommand_eq_lift {files : Files} (h : ¬rc.AsksToLoad) :
    host.moduleCommand L files rc =
      host.lift (LatteRedis.moduleCommand L F.extension host.server rc) := by
  unfold moduleCommand LatteRedis.moduleCommand
  cases ho : rc.argvAt 1 with
  | error e => rfl
  | ok o =>
      rw [Run.ok_bind, Run.ok_bind]
      cases hsub : o.ptr with
      | error e => rfl
      | ok sub =>
          have hno : ¬(strcaseeq sub (ascii "load") = true ∧ rc.argc ≥ 3) :=
            fun hload ↦ h ⟨o, sub, ho, hsub, hload⟩
          rw [Run.ok_bind, Run.ok_bind, if_neg hno, if_neg hno]
          split
          · rfl
          · split
            · rfl
            · split <;> rfl

/-- A request that loads no module is executed as by a server that knows of no modules. -/
theorem execute_eq_lift (h : ¬a.request.LoadsModule) (hmodule : ∀ cmd,
      commandManagerLookup host.server a.request.name = some cmd → cmd.proc = .module →
        a.request.Calls "module") :
    host.execute L F a = host.lift (a.request.execute L F.extension host.server) := by
  rw [execute_eq, Request.execute_eq]
  cases hcmd : commandManagerLookup host.server a.request.name with
  | none => rfl
  | some cmd =>
      dsimp only
      unfold proc
      split
      · next hproc =>
          have hno : ¬(a.request.called cmd).AsksToLoad := fun hasks ↦
            h ⟨hmodule cmd hcmd hproc, (a.request.asksToLoad_iff cmd).mp hasks⟩
          rw [moduleCommand_eq_lift (F := F) hno, hproc]
          rfl
      · rfl

/-- The server serves the store, and its databases are the tables. -/
structure ServesTables (L : LatteC) (dbNum : Nat) (host : ModuleHost) (ms : Keyspaces) : Prop where
  serves : ServesStore host.server
  stores : host.server.Stores L dbNum ms

/-- A request for the store is answered by the store. -/
theorem execute_forStore (hL : L.AppendsProto) (ha : a.ForStore) (hr : a.request.Specified L dbNum)
    (h : host.ServesTables L dbNum ms) (hexec : host.execute L F a = .ok (host', rc')) :
    ∃ m answer, (ms a.request.client.dbid).answer L a.request.clock.mstime a.request.name
        a.request.operands = some (m, answer) ∧
      host'.ServesTables L dbNum (Function.update ms a.request.client.dbid m) ∧
      rc'.reply.out.drop a.request.client.reply.out.length = answer.bytes := by
  obtain ⟨v, hv⟩ := Option.isSome_iff_exists.mp ha.1
  have hlookup := h.serves.lookup_named hv
  have hmodule : ∀ cmd, commandManagerLookup host.server a.request.name = some cmd →
      cmd.proc = .module → a.request.Calls "module" := by
    intro cmd hcmd hproc
    cases hlookup.symm.trans hcmd
    have heq : ascii v.word = a.request.name.map lower := of_decide_eq_true (List.find?_some hv :)
    cases v with
    | module => exact heq.symm
    | _ => cases hproc
  rw [execute_eq_lift ha.2 hmodule] at hexec
  obtain ⟨server, hrun, rfl⟩ := lift_eq_ok hexec
  obtain ⟨⟨m, answer⟩, hanswer, hstores, ⟨-, hcmds⟩, hout⟩ :=
    (a.request.execute_stores hL hr (hlookup.trans (hv ▸ rfl)) h.stores).eq_some hrun
  exact ⟨m, answer, hanswer, ⟨h.serves.of_commands hcmds, hstores⟩, by rw [hout, List.drop_left]⟩

/-- Any other request leaves the store as it is. -/
theorem execute_aside (hF : F.Passive) (ha : ¬a.ForStore) (hfiles : a.files.Foreign)
    (h : host.ServesTables L dbNum ms) (hexec : host.execute L F a = .ok (host', rc')) :
    host'.ServesTables L dbNum ms := by
  have harrived : ServesStore (a.request.arrives host.server) := ⟨h.serves.lookup, h.serves.foreign⟩
  have hstores : (a.request.arrives host.server).Stores L dbNum ms := h.stores.tick a.request.clock
  rw [execute_eq] at hexec
  cases hname : Verb.named a.request.name with
  | none =>
      cases hcmd : commandManagerLookup host.server a.request.name with
      | none =>
          rw [hcmd] at hexec
          cases hexec
          exact ⟨harrived, hstores⟩
      | some cmd =>
          obtain ⟨n, hn⟩ := h.serves.lookup_other hname hcmd
          rw [hcmd] at hexec
          dsimp only at hexec
          unfold proc at hexec
          rw [hn] at hexec
          obtain ⟨server, hrun, rfl⟩ := lift_eq_ok hexec
          obtain ⟨⟨server', reply⟩, hfunc, hpure⟩ := Run.bind_eq_ok.mp hrun
          cases hpure
          refine ⟨harrived.of_commands (hF.commands _ _ _ _ _ hfunc), ?_, ?_, ?_⟩
          · rw [hF.hz _ _ _ _ _ hfunc]
            exact hstores.hz
          · rw [hF.dbs _ _ _ _ _ hfunc]
            exact hstores.length
          · rw [hF.dbs _ _ _ _ _ hfunc]
            exact hstores.represents
  | some v =>
      -- a command of the store that is not for the store: the request loads a module
      have hloads : a.request.LoadsModule := by
        by_contra hno
        exact ha ⟨Option.isSome_iff_exists.mpr ⟨v, hname⟩, hno⟩
      have hfound : commandManagerLookup host.server a.request.name =
          some ⟨ascii "module", .module⟩ := by
        have hv : Verb.named a.request.name = some .module := by
          unfold Verb.named
          rw [hloads.1]
          rfl
        exact h.serves.lookup_named hv
      rw [hfound] at hexec
      rcases moduleCommand_cases hexec with ⟨hno, -, -⟩ | ⟨-, path, args, code, hload, -⟩
      · exact absurd ((a.request.asksToLoad_iff _).mpr hloads.2) hno
      · obtain ⟨hserves, hstores'⟩ := moduleLoad_unnoticed hfiles harrived hstores hload
        exact ⟨hserves, hstores'⟩

/-! ## Lives -/

theorem storeRequests_cons (a : Arrival) (as : List Arrival) : storeRequests (a :: as) =
    if a.ForStore then a.request :: storeRequests as else storeRequests as := by
  unfold storeRequests
  rw [List.filter_cons]
  simp only [decide_eq_true_eq]
  split <;> rfl

theorem storeOuts_cons (a : Arrival) (as : List Arrival) (out : Bytes) (outs : List Bytes) :
    storeOuts (a :: as) (out :: outs) =
      if a.ForStore then out :: storeOuts as outs else storeOuts as outs := by
  unfold storeOuts
  rw [List.zip_cons_cons, List.filter_cons]
  simp only [decide_eq_true_eq]
  split <;> rfl

/-- **A run of requests.** -/
theorem answerAll_unnoticed (hL : L.AppendsProto) (hF : F.Passive) {as : List Arrival}
    {outs outs' : List Bytes}
    (has : ∀ a ∈ as, a.files.Foreign ∧ (a.ForStore → a.request.Specified L dbNum))
    (h : host.ServesTables L dbNum ms) (hrun : as.foldlM (answer L F) (host, outs) = .ok (host', outs')) :
    ∃ new ms' answers, outs' = outs ++ new ∧ host'.ServesTables L dbNum ms' ∧
      Keyspaces.answerAll L ms (storeRequests as) = some (ms', answers) ∧
      storeOuts as new = answers.map Answer.bytes := by
  induction as generalizing host outs ms with
  | nil =>
      cases hrun
      exact ⟨[], ms, [], (List.append_nil _).symm, h, rfl, rfl⟩
  | cons a as ih =>
      obtain ⟨⟨host₁, outs₁⟩, hstep, hrest⟩ := Run.foldlM_cons_eq_ok.mp hrun
      obtain ⟨⟨host₂, rc⟩, hexec, hpure⟩ := Run.bind_eq_ok.mp hstep
      cases hpure
      obtain ⟨hfiles, hspec⟩ := has a List.mem_cons_self
      have has' : ∀ b ∈ as, b.files.Foreign ∧ (b.ForStore → b.request.Specified L dbNum) :=
        fun b hb ↦ has b (List.mem_cons_of_mem a hb)
      by_cases ha : a.ForStore
      · obtain ⟨m, ans, hanswer, h₁, hout⟩ := execute_forStore hL ha (hspec ha) h hexec
        obtain ⟨new, ms', answers, rfl, h', hanswers, houts⟩ := ih has' h₁ hrest
        refine ⟨_ :: new, ms', ans :: answers, (List.append_cons ..).symm, h', ?_, ?_⟩
        · rw [storeRequests_cons, if_pos ha]
          exact Keyspaces.answerAll_append (Keyspaces.answerAll_singleton hanswer) hanswers
        · rw [storeOuts_cons, if_pos ha, houts, hout, List.map_cons]
      · have h₁ := execute_aside hF ha hfiles h hexec
        obtain ⟨new, ms', answers, rfl, h', hanswers, houts⟩ := ih has' h₁ hrest
        refine ⟨_ :: new, ms', answers, (List.append_cons ..).symm, h', ?_, ?_⟩
        · rw [storeRequests_cons, if_neg ha]
          exact hanswers
        · rw [storeOuts_cons, if_neg ha, houts]

end ModuleHost

/-- The rest of a configuration that begins with `latte.so`. -/
theorem initRedisModules_unnoticed {L : LatteC} {dbNum : Nat} {ms : Keyspaces} {files : Files}
    (hfiles : files.Foreign) {host host' : ModuleHost} (h : host.ServesTables L dbNum ms)
    {entries : List (Bytes × List LatteObject)}
    (hinit : initRedisModules files host entries = .ok host') : host'.ServesTables L dbNum ms := by
  refine Run.invariant (P := fun host : ModuleHost ↦ host.ServesTables L dbNum ms) (Q := fun _ ↦ True)
    ?_ (fun _ _ ↦ trivial) h hinit
  intro host₁ entry host₂ _ h₁ hstep
  obtain ⟨⟨code, host₃⟩, hload, hcode⟩ := Run.bind_eq_ok.mp hstep
  dsimp only at hcode
  split at hcode
  · cases hcode
    obtain ⟨hserves, hstores⟩ := moduleLoad_unnoticed hfiles h₁.serves h₁.stores hload
    exact ⟨hserves, hstores⟩
  · cases hcode

theorem latteSo_foreign (path : Bytes) : Files.Foreign fun p ↦ if p = path then latteSo else countSo := by
  intro p entry hentry args
  have hfail : ∀ {next : Onload} (r : Int), next.Foreign → (orFail next r).Foreign := by
    intro next r hnext
    unfold orFail
    split
    · trivial
    · exact hnext
  dsimp only at hentry
  split at hentry
  · cases hentry
    refine fun r ↦ hfail r ⟨.inl (by decide), fun r ↦ hfail r ⟨.inl (by decide), fun r ↦ hfail r trivial⟩⟩
  · cases hentry
    exact fun r ↦ hfail r ⟨.inr ⟨0, rfl⟩, fun r ↦ hfail r trivial⟩

end LatteRedis
