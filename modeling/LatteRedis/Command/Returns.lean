import LatteRedis.Client.Pipeline
import LatteRedis.Keyspace.Request

/-!
# The requests the server survives

Some requests stop the server: a `MODULE` without a subcommand reads past the end of its
arguments, and a `SET` of a key that is not there runs into an assertion if the part of the
key in front of a NUL is a key that is there.  `Request.execute_ok_iff` lists them all.

Pipelines of other requests are decoded as they were encoded, in every cutting of the
stream: this is `serveReads_pipeline` for the commands of the server.
-/

namespace LatteRedis

open ByteString Resp

variable {L : LatteC} {E : Extension}

/-- The server can stamp a new value. -/
def Server.Stamps (server : Server) (o : LatteObject) : Prop :=
  o.shared = true ∨ server.maxmemoryPolicy &&& maxmemoryFlagLfu ≠ 0 ∨ server.hz ≠ 0

/-- The handler of the request gets to its end. -/
def Request.Returns (L : LatteC) (E : Extension) (server : Server) (r : Request) : Prop :=
  match commandManagerLookup server r.name with
  | none => True
  | some cmd =>
      match cmd.proc with
      | .module => r.operands ≠ []
      | .expire => ∀ k s, r.operands = [k, s] → (expireSeconds L s).isSome →
          (server.dbs[r.client.dbid]?).isSome
      | .dispatcher .get => ∀ k, r.operands = [k] → (server.dbs[r.client.dbid]?).isSome
      | .dispatcher .set => ∀ k v o, r.operands = [k, v] → r.client.argvAt 2 = .ok o →
          ∃ db, server.dbs[r.client.dbid]? = some db ∧
            (db.valueAt r.clock.mstime k = none → ¬ db.Blocks k ∧ server.Stamps o)
      | .dispatcher (.other n) => ∃ p, E.func n (r.arrives server) (r.called cmd) = .ok p
      | .quit | .ping | .info => True

/-! ## Each command -/

section Commands

variable {rc : RedisClient} {server : Server} {cmd : RedisCommand} {name : Bytes}
  {operands : List Bytes}

theorem RedisClient.Holds.argc_eq (h : rc.Holds (name :: operands)) :
    rc.argc = operands.length + 1 := by
  rw [h.1]
  rfl

/-- There is nothing behind the last argument. -/
theorem RedisClient.Holds.argvAt_end {args : List Bytes} (h : rc.Holds args) :
    rc.argvAt args.length = .error .badPointer := by
  obtain ⟨-, slots, vals, hargv, hvals⟩ := h
  unfold RedisClient.argvAt
  rw [hargv]
  simp [List.getElem?_eq_none hvals.length_eq.le]

theorem replyWrongArity_ok (hcmd : rc.cmd = .live cmd) :
    ∃ p, replyWrongArity L server rc = .ok p := by
  unfold replyWrongArity RedisClient.cmdName
  rw [hcmd]
  exact ⟨_, rfl⟩

theorem pingCommand_ok (hargs : rc.Holds (name :: operands)) (hcmd : rc.cmd = .live cmd) :
    ∃ p, pingCommand L server rc = .ok p := by
  unfold pingCommand
  split
  · exact replyWrongArity_ok hcmd
  · next hle =>
      split
      · exact ⟨_, rfl⟩
      · next hne =>
          rw [hargs.argc_eq] at hle hne
          obtain ⟨s, rfl⟩ := List.length_eq_one_iff.mp (show operands.length = 1 by omega)
          obtain ⟨o, ho, -⟩ := hargs.argvAt (i := 1) rfl
          rw [ho]
          exact ⟨_, rfl⟩

/-- The first operand of a `MODULE` is read before anything is counted. -/
theorem moduleCommand_ok_iff (hL : L.AppendsProto) (hargs : rc.Holds (name :: operands)) :
    (∃ p, moduleCommand L E server rc = .ok p) ↔ operands ≠ [] := by
  have hargc := hargs.argc_eq
  cases operands with
  | nil =>
      unfold moduleCommand
      rw [show rc.argvAt 1 = _ from hargs.argvAt_end]
      refine iff_of_false ?_ (by simp)
      rintro ⟨p, hp⟩
      cases hp
  | cons sub rest =>
      obtain ⟨o, ho, htext, -⟩ := hargs.argvAt (i := 1) rfl
      refine iff_of_true ?_ (by simp)
      unfold moduleCommand
      rw [ho, Run.ok_bind, htext.2, Run.ok_bind]
      split
      · obtain ⟨o', ho', htext', -⟩ := hargs.argvAt (i := 0) rfl
        obtain ⟨reply, hhelp, -⟩ := addReplyHelp_ok hL rc.reply o'.content moduleHelp_length
        unfold moduleHelpCommand
        rw [ho', Run.ok_bind, htext'.2, Run.ok_bind, hhelp]
        exact ⟨_, rfl⟩
      · split
        · next hload =>
            obtain ⟨path, rest', rfl⟩ := List.exists_cons_of_length_pos
              (show 0 < rest.length by rw [hargc, List.length_cons] at hload; omega)
            obtain ⟨o', ho', htext', -⟩ := hargs.argvAt (i := 2) rfl
            unfold moduleLoadCommand
            rw [ho', Run.ok_bind, htext'.2, Run.ok_bind]
            dsimp only
            split <;> exact ⟨_, rfl⟩
        · split
          · exact ⟨_, rfl⟩
          · split <;> exact ⟨_, rfl⟩

theorem expireCommand_ok_iff (hargs : rc.Holds (name :: operands)) (hcmd : rc.cmd = .live cmd) :
    (∃ p, expireCommand L server rc = .ok p) ↔
      ∀ k s, operands = [k, s] → (expireSeconds L s).isSome → (server.dbs[rc.dbid]?).isSome := by
  by_cases hlen : operands.length = 2
  · obtain ⟨k, s, rfl⟩ := List.length_eq_two.mp hlen
    cases hdb : server.dbs[rc.dbid]? with
    | none =>
        rw [expireCommand_missing hargs hdb]
        cases hsec : expireSeconds L s with
        | none =>
            refine iff_of_true ⟨_, rfl⟩ ?_
            rintro k' s' ⟨⟩ h
            rw [hsec] at h
            cases h
        | some seconds =>
            refine iff_of_false (by rintro ⟨p, hp⟩; cases hp) fun h ↦ ?_
            exact absurd (h k s rfl (by rw [hsec]; rfl)) (by simp)
    | some db =>
        refine iff_of_true ?_ fun _ _ _ _ ↦ rfl
        rw [expireCommand_eq hargs hdb]
        split
        · exact ⟨_, rfl⟩
        · split
          · exact ⟨_, rfl⟩
          · next seconds _ _ =>
              cases hdead : db.deadline k with
              | none =>
                  obtain ⟨db', hset, -⟩ := dbSetExpire_new hdead (expireDeadline server seconds)
                  rw [hset]
                  exact ⟨_, rfl⟩
              | some w =>
                  rw [dbSetExpire_existing (by rw [hdead]; rfl)]
                  exact ⟨_, rfl⟩
  · refine iff_of_true ?_ fun k s h ↦ absurd (congrArg List.length h) hlen
    unfold expireCommand
    rw [if_pos (by rw [hargs.argc_eq]; omega)]
    exact replyWrongArity_ok hcmd

theorem getCommand_ok_iff (hargs : rc.Holds (name :: operands)) :
    (∃ p, getCommand L server rc = .ok p) ↔
      ∀ k, operands = [k] → (server.dbs[rc.dbid]?).isSome := by
  by_cases hlen : operands.length = 1
  · obtain ⟨k, rfl⟩ := List.length_eq_one_iff.mp hlen
    cases hdb : server.dbs[rc.dbid]? with
    | none =>
        obtain ⟨key, hkey, htext, -⟩ := hargs.argvAt (i := 1) rfl
        refine iff_of_false ?_ fun h ↦ absurd (h k rfl) (by simp)
        unfold getCommand
        rw [if_neg (by rw [hargs.argc_eq]; simp), hkey, Run.ok_bind, lookupKey_missing htext hdb]
        rintro ⟨p, hp⟩
        cases hp
    | some db =>
        obtain ⟨db₁, -, hget⟩ := getCommand_ok (L := L) hargs hdb
        exact iff_of_true ⟨_, hget⟩ fun _ _ ↦ rfl
  · refine iff_of_true ?_ fun k h ↦ absurd (congrArg List.length h) hlen
    unfold getCommand
    rw [if_pos (by rw [hargs.argc_eq]; omega)]
    exact ⟨_, rfl⟩

theorem initObjectLruOrLfu_ok_iff {o : LatteObject} :
    (∃ o', initObjectLruOrLfu server o = .ok o') ↔ server.Stamps o := by
  unfold initObjectLruOrLfu lruClock Server.Stamps
  by_cases hshared : o.shared = true
  · simp [hshared]
  · by_cases hlfu : server.maxmemoryPolicy &&& maxmemoryFlagLfu ≠ 0
    · rw [if_neg hshared, if_pos hlfu]
      exact iff_of_true ⟨_, rfl⟩ (.inr (.inl hlfu))
    · rw [if_neg hshared, if_neg hlfu]
      by_cases hhz : server.hz = 0
      · rw [if_pos hhz]
        refine iff_of_false ?_ ?_
        · rintro ⟨o', h⟩
          cases h
        · rintro (h | h | h)
          · exact hshared h
          · exact hlfu h
          · exact h hhz
      · rw [if_neg hhz]
        refine iff_of_true ?_ (.inr (.inr hhz))
        split <;> exact ⟨_, rfl⟩

/-- `SET` in a database that is not there. -/
theorem setCommand_missing {k v : Bytes} (hargs : rc.Holds [name, k, v])
    (hdb : server.dbs[rc.dbid]? = none) : ¬ ∃ p, setCommand L server rc = .ok p := by
  obtain ⟨key, hkey, htext, -⟩ := hargs.argvAt (i := 1) rfl
  unfold setCommand
  rw [if_neg (by rw [hargs.argc_eq]; simp), hkey, Run.ok_bind, lookupKey_missing htext hdb]
  rintro ⟨p, hp⟩
  cases hp

/-- `SET` of a key that is there. -/
theorem setCommand_present {k v : Bytes} (hargs : rc.Holds [name, k, v]) {db : RedisDb}
    (hdb : server.dbs[rc.dbid]? = some db) {old : LatteObject}
    (hfound : db.valueAt server.clock.mstime k = some old) :
    ∃ p, setCommand L server rc = .ok p := by
  by_cases htype : old.type = .string
  · obtain ⟨-, -, db', -, -, -, -, -, -, hset⟩ :=
      setCommand_replace (L := L) hargs hdb hfound htype
    exact ⟨_, hset⟩
  · obtain ⟨db₁, -, hset⟩ := setCommand_wrongType (L := L) hargs hdb hfound htype
    exact ⟨_, hset⟩

/-- `SET` of a key that is not there. -/
theorem setCommand_absent_iff {k v : Bytes} (hargs : rc.Holds [name, k, v]) {db : RedisDb}
    (hdb : server.dbs[rc.dbid]? = some db) (hfound : db.valueAt server.clock.mstime k = none)
    {val : LatteObject} (hval : rc.argvAt 2 = .ok val) :
    (∃ p, setCommand L server rc = .ok p) ↔ ¬ db.Blocks k ∧ server.Stamps val := by
  by_cases hblocks : db.Blocks k
  · rw [setCommand_blocked hargs hdb hfound hblocks]
    refine iff_of_false ?_ fun h ↦ h.1 hblocks
    rintro ⟨p, hp⟩
    cases hp
  · obtain ⟨db₁, val', -, -, hval', -, hset⟩ := setCommand_insert (L := L) hargs hdb hfound hblocks
    obtain rfl : val = val' := Except.ok.inj (hval.symm.trans hval')
    rw [← initObjectLruOrLfu_ok_iff]
    rcases hset with ⟨f, hinit, hset⟩ | ⟨o, db', hinit, -, -, -, hset⟩
    · rw [hset, hinit]
      refine iff_of_false ?_ ?_
      · rintro ⟨p, hp⟩
        cases hp
      · rintro ⟨-, o, ho⟩
        cases ho
    · rw [hset, hinit]
      exact iff_of_true ⟨_, rfl⟩ ⟨hblocks, o, rfl⟩

theorem setCommand_ok_iff (hargs : rc.Holds (name :: operands)) :
    (∃ p, setCommand L server rc = .ok p) ↔
      ∀ k v o, operands = [k, v] → rc.argvAt 2 = .ok o → ∃ db, server.dbs[rc.dbid]? = some db ∧
        (db.valueAt server.clock.mstime k = none → ¬ db.Blocks k ∧ server.Stamps o) := by
  by_cases hlen : operands.length = 2
  · obtain ⟨k, v, rfl⟩ := List.length_eq_two.mp hlen
    obtain ⟨val, hval, -⟩ := hargs.argvAt (i := 2) rfl
    -- the condition, with its quantifiers instantiated
    have hcond : (∀ k' v' o, [k, v] = [k', v'] → rc.argvAt 2 = .ok o →
        ∃ db, server.dbs[rc.dbid]? = some db ∧
          (db.valueAt server.clock.mstime k' = none → ¬ db.Blocks k' ∧ server.Stamps o)) ↔
        ∃ db, server.dbs[rc.dbid]? = some db ∧
          (db.valueAt server.clock.mstime k = none → ¬ db.Blocks k ∧ server.Stamps val) := by
      refine ⟨fun h ↦ h k v val rfl hval, ?_⟩
      rintro h k' v' o ⟨⟩ ho
      rw [hval] at ho
      cases ho
      exact h
    rw [hcond]
    cases hdb : server.dbs[rc.dbid]? with
    | none =>
        refine iff_of_false (setCommand_missing hargs hdb) ?_
        rintro ⟨db, h, -⟩
        cases h
    | some db =>
        simp only [Option.some.injEq, exists_eq_left']
        cases hfound : db.valueAt server.clock.mstime k with
        | some old =>
            refine iff_of_true (setCommand_present hargs hdb hfound) ?_
            intro h
            cases h
        | none =>
            rw [setCommand_absent_iff hargs hdb hfound hval]
            rw [forall_prop_of_true rfl]
  · refine iff_of_true ?_ fun k v o h ↦ absurd (congrArg List.length h) hlen
    unfold setCommand
    rw [if_pos (by rw [hargs.argc_eq]; omega)]
    exact ⟨_, rfl⟩

end Commands

/-- **The requests the server survives.** -/
theorem Request.execute_ok_iff (hL : L.AppendsProto) (server : Server) (r : Request) :
    (∃ p, r.execute L E server = .ok p) ↔ r.Returns L E server := by
  rw [Request.execute_eq]
  unfold Request.Returns
  cases commandManagerLookup server r.name with
  | none => exact iff_of_true ⟨_, rfl⟩ trivial
  | some cmd =>
      have hargs := r.called_holds cmd
      dsimp only
      match cmd, hargs with
      | ⟨name, .quit⟩, _ | ⟨name, .info⟩, _ => exact iff_of_true ⟨_, rfl⟩ trivial
      | ⟨name, .module⟩, hargs => exact moduleCommand_ok_iff hL hargs
      | ⟨name, .ping⟩, hargs => exact iff_of_true (pingCommand_ok hargs rfl) trivial
      | ⟨name, .expire⟩, hargs => exact expireCommand_ok_iff hargs rfl
      | ⟨name, .dispatcher .get⟩, hargs => exact getCommand_ok_iff hargs
      | ⟨name, .dispatcher .set⟩, hargs => exact setCommand_ok_iff hargs
      | ⟨name, .dispatcher (.other n)⟩, _ =>
          show (∃ p, (E.func n _ _ >>= _) = Except.ok p) ↔ _
          constructor
          · rintro ⟨p, hp⟩
            obtain ⟨q, hq, -⟩ := Run.bind_eq_ok.mp hp
            exact ⟨q, hq⟩
          · rintro ⟨p, hp⟩
            rw [hp]
            exact ⟨_, rfl⟩

/-! ## Pipelines -/

/-- The commands, executed one after the other for a client of the database `dbid`: each is
registered and is not `QUIT`, and the server survives it when its turn comes. -/
def Survivable (L : LatteC) (E : Extension) (dbid : Nat) : List (List Bytes) → Server → Prop
  | [], _ => True
  | args :: cmds, server => ∀ r : Request, r.name :: r.operands = args → r.client.dbid = dbid →
      r.clock = server.clock →
      (∃ cmd, commandManagerLookup server r.name = some cmd ∧ cmd.proc ≠ .quit) ∧
        r.Returns L E server ∧
        ∀ server', r.serve L E server = .ok server' → Survivable L E dbid cmds server'

/-- A handler that only replies leaves the connection open. -/
theorem RedisClient.OnlyReplied.isOpen {rc rc' : RedisClient} (h : rc.OnlyReplied rc')
    (hopen : rc.Open) : rc'.Open := by
  unfold RedisClient.OnlyReplied at h
  rw [h]
  exact hopen

theorem Survivable.serves (hL : L.AppendsProto) {dbid : Nat} {cmds : List (List Bytes)}
    {server : Server} (hne : ∀ args ∈ cmds, args ≠ []) (h : Survivable L E dbid cmds server) :
    (backend L E).Serves dbid cmds server := by
  induction cmds generalizing server with
  | nil => trivial
  | cons args cmds ih =>
      obtain ⟨name, operands, rfl⟩ := List.exists_cons_of_ne_nil (hne args (by simp))
      obtain ⟨⟨cmd, hlookup, hquit⟩, -⟩ :=
        h (Request.of dbid server.clock name operands) rfl rfl rfl
      refine ⟨name, cmd, rfl, hlookup, ?_⟩
      intro rc hrc
      have hcalled : { rc with cmd := .live cmd, lastcmd := .live cmd } = rc := by
        obtain ⟨hcmd, hlast⟩ := hrc.called
        cases rc
        cases hcmd
        cases hlast
        rfl
      let r : Request := ⟨rc, name, operands, server.clock, hrc.holds⟩
      obtain ⟨-, hreturns, hnext⟩ := h r rfl hrc.dbid rfl
      obtain ⟨⟨server', rc'⟩, hexec⟩ := (r.execute_ok_iff hL server).mpr hreturns
      have hproc : cmd.proc.run L E server rc = .ok (server', rc') := by
        rw [← hexec, Request.execute_eq, show commandManagerLookup server r.name = _ from hlookup]
        exact congrArg (cmd.proc.run L E server) hcalled.symm
      refine ⟨server', rc', hproc, (CommandProc.run_onlyReplied hquit hproc).isOpen hrc.isOpen, rfl,
        ih (fun args hargs ↦ hne args (List.mem_cons_of_mem _ hargs)) (hnext server' ?_)⟩
      exact Request.serve_eq_ok.mpr ⟨rc', hexec⟩

/-- A `PING` changes nothing. -/
theorem survivable_ping {dbid : Nat} {server : Server} (hready : server.Ready)
    {name : Bytes} (hname : name.map lower = ascii "ping") {operands : List Bytes}
    {cmds : List (List Bytes)} (h : Survivable L E dbid cmds server) :
    Survivable L E dbid ((name :: operands) :: cmds) server := by
  intro r hr hdbid hclock
  simp only [List.cons.injEq] at hr
  have hlookup := hready.lookup ⟨ascii "ping", .ping⟩ (hr.1 ▸ hname) (by decide)
  refine ⟨⟨_, hlookup, by simp⟩, ?_, fun server' hserve ↦ ?_⟩
  · unfold Request.Returns
    rw [hlookup]
    trivial
  · obtain ⟨rc', hexec⟩ := Request.serve_eq_ok.mp hserve
    rw [Request.execute_eq, hlookup] at hexec
    rw [pingCommand_server hexec, show r.arrives server = server by rw [Request.arrives, hclock]]
    exact h

end LatteRedis
