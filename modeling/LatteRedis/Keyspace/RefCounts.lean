import LatteRedis.Command.Refinement

/-!
# Reference counts match holders

`State` is a server with any number of connections, each at some point of its stream of
multibulk requests.  Between two requests the references to an object are the slots of
argument vectors that hold it and the database entries whose value it is, and its count is
their number (`count_eq_holders`).

An iteration of the loop keeps this because it refines an iteration without counts: what
`SET`, lazy deletion and the reset at the end do to the counts is what they do to the
holders.
-/

namespace LatteRedis.Counted

open ByteString RefCount

variable {L : LatteC} {E : Extension} {stack : Nat → Int}

/-! ## One iteration -/

/-- A server and a client between two requests, as those without counts have them;
`others` are the references other connections hold. -/
structure Settled (others : Multiset ObjId) (s : Server) (r : Server × Client)
    (server : LatteRedis.Server) (rc : RedisClient) : Prop where
  refines : Refines (r.2.argv + others) r.1 server
  keeps : KeepsText s.heap r.1.heap
  faithful : r.2.Faithful r.1.heap
  client : r.2.rc = rc

variable {others : Multiset ObjId} {s : Server} {server : LatteRedis.Server} {c : Client}

/-- What came before has kept the texts, too. -/
theorem Settled.after {s₁ : Server} {r : Server × Client} {rc : RedisClient}
    (h : Settled others s₁ r server rc) (hkeeps : KeepsText s.heap s₁.heap) :
    Settled others s r server rc :=
  ⟨h.refines, hkeeps.trans h.keeps, h.faithful, h.client⟩

/-- The reset gives up the references of the vector. -/
theorem resetRedisClient_refines (h : Refines (c.argv + others) s server) (hc : c.Faithful s.heap) :
    Run.Related (fun r rc ↦ Settled others s r server rc) (resetRedisClient s c)
      (LatteRedis.resetRedisClient c.rc) := by
  have hb := h.balanced
  rw [add_assoc] at hb
  obtain ⟨heap', hdecr, hb'⟩ := hb.decrAll
  have hkeeps : KeepsText s.heap heap' := Heap.keeps_decrAll hdecr
  unfold resetRedisClient
  simp only [hc.slots_eq, hdecr, deref]
  cases hreset : LatteRedis.resetRedisClient c.rc with
  | error f => exact .error f
  | ok rc =>
      have hargc : rc.argc = 0 := (resetRedisClient_isReset hreset).2.1
      refine .ok ⟨⟨h.settings, ?_, ?_⟩, hkeeps, ⟨.inl hargc, ?_⟩, rfl⟩
      · show heap'.Balanced ((0 + others) + s.held)
        rwa [zero_add]
      · exact h.dbs.imp fun _ _ ha ↦ ha.mono hkeeps
      · rw [RedisClient.args_of_argc_eq_zero hargc]
        exact .nil

/-- The parser makes a new object for every slot it fills. -/
theorem processMultibulkBuffer_refines (h : Refines (c.argv + others) s server)
    (hc : c.Faithful s.heap) :
    Run.Related (fun r p ↦ r.1 = p.1 ∧ Settled others s r.2 server p.2)
      (processMultibulkBuffer L s c) (LatteRedis.processMultibulkBuffer L c.rc) := by
  unfold processMultibulkBuffer
  cases hp : LatteRedis.processMultibulkBuffer L c.rc with
  | error f => exact .error f
  | ok r =>
      obtain ⟨code, rc⟩ := r
      obtain ⟨hwhole, new, hargs⟩ := hc.whole.processMultibulkBuffer hp
      have hnew : rc.args.drop c.argv.length = new := by
        rw [← hargs, hc.argv.length_eq, List.drop_left]
      rw [Run.ok_bind]
      dsimp only
      rw [hnew]
      have hkeeps : KeepsText s.heap (s.heap.newAll new).1 := Heap.keeps_newAll _ _
      refine .ok ⟨rfl, ⟨h.settings, ?_, ?_⟩, hkeeps, ⟨hwhole, ?_⟩, rfl⟩
      · show (s.heap.newAll new).1.Balanced
          (((c.argv ++ (s.heap.newAll new).2 : List ObjId) + others) + s.held)
        rw [← Multiset.coe_add, add_comm (c.argv : Multiset ObjId), add_assoc, add_assoc]
        rw [← add_assoc (c.argv : Multiset ObjId)]
        exact h.balanced.newAll new
      · exact h.dbs.imp fun _ _ ha ↦ ha.mono hkeeps
      · dsimp only
        rw [← hargs]
        exact List.rel_append (hc.argv.imp fun _ _ hid ↦ hid.mono hkeeps) (Heap.shown_newAll _ _)

/-- A handler replies to its client and may mark it for closing, and its vector stays. -/
theorem Client.Faithful.sameParser {heap : Heap LatteObject} (h : c.Faithful heap) {rc : RedisClient}
    (hsame : c.rc.SameParser rc) : ({ c with rc := rc } : Client).Faithful heap := by
  rw [hsame]
  exact ⟨h.whole, h.argv⟩

/-- The handler of a command, and the reset behind it. -/
theorem proc?_reset_refines {proc : CommandProc}
    {f : Server → Client → Except Fault (Server × Client)} (hproc : proc? L proc = some f)
    (h : Refines (c.argv + others) s server) (hc : c.Faithful s.heap) (hargc : c.rc.argc ≠ 0) :
    Run.Related (fun r p ↦ Settled others s r p.1 p.2)
      (do let (s, c) ← f s c; resetRedisClient s c)
      (do
        let (server, rc) ← proc.run L E server c.rc
        let rc ← LatteRedis.resetRedisClient rc
        return (server, rc)) := by
  have hargs : ∀ id ∈ c.argv, id ∈ (c.argv : Multiset ObjId) + others :=
    fun id hid ↦ Multiset.mem_add.mpr (.inl hid)
  refine (proc?_refines hproc h hargs hc hargc).returned.bind ?_
  rintro ⟨s₁, c₁⟩ ⟨server₁, rc₁⟩ ⟨⟨h₁, hkeeps₁, rfl⟩, -, hrun⟩
  have hc₁ := (hc.mono hkeeps₁).sameParser (CommandProc.run_sameParser hrun)
  have hreset := resetRedisClient_refines (c := { c with rc := rc₁ }) h₁ hc₁
  dsimp only at hreset ⊢
  generalize resetRedisClient s₁ { c with rc := rc₁ } = x at hreset ⊢
  generalize LatteRedis.resetRedisClient rc₁ = y at hreset ⊢
  cases hreset with
  | error e => exact .error e
  | ok hsettled => exact .ok (hsettled.after hkeeps₁)

/-- Executing a request with the commands of the server. -/
theorem processCommandAndResetClient_eq {conn : Conn LatteRedis.Server} {o : LatteObject}
    {name : Bytes} {cmd : RedisCommand} (ho : conn.rc.argvAt 0 = .ok o) (hname : o.ptr = .ok name)
    (hlookup : commandManagerLookup conn.server name = some cmd) :
    LatteRedis.processCommandAndResetClient (machine L E stack) conn = (do
      let (server, rc) ← cmd.proc.run L E conn.server
        { conn.rc with cmd := .live cmd, lastcmd := .live cmd }
      let rc ← LatteRedis.resetRedisClient rc
      return (0, { conn with
        rc := rc, server := server
        calls := conn.calls ++ [conn.rc.args.map LatteObject.content] })) := by
  unfold LatteRedis.processCommandAndResetClient
  rw [processCommand_eq ho hname]
  have hfound : (machine L E stack).backend.lookup conn.server name = some cmd := hlookup
  rw [hfound]
  change Except.map _ (cmd.proc.run L E conn.server _) >>= _ = _
  cases cmd.proc.run L E conn.server { conn.rc with cmd := .live cmd, lastcmd := .live cmd } with
  | error f => rfl
  | ok r =>
      obtain ⟨server, rc⟩ := r
      show (commandProcessed 0 _ >>= _) = _
      rw [commandProcessed, if_pos rfl, Run.ok_bind]
      dsimp only
      cases LatteRedis.resetRedisClient rc <;> rfl

/-- A request that is complete: it is executed on both sides, if it is for a command that
has a handler here. -/
theorem processCommandAndResetClient_refines {conn : Conn LatteRedis.Server}
    (h : Refines (c.argv + others) s conn.server) (hc : c.Faithful s.heap)
    (hrc : conn.rc = c.rc) (hargc : c.rc.argc ≠ 0) :
    processCommandAndResetClient L s c = .ok none ∨
      Run.Related (fun r p ↦ ∃ r', r = some r' ∧ p.1 = 0 ∧
        Settled others s r' p.2.server p.2.rc) (processCommandAndResetClient L s c)
        (LatteRedis.processCommandAndResetClient (machine L E stack) conn) := by
  have hargs : ∀ id ∈ c.argv, id ∈ (c.argv : Multiset ObjId) + others :=
    fun id hid ↦ Multiset.mem_add.mpr (.inl hid)
  have hname := object_argv h hargs hc hargc 0
  unfold processCommandAndResetClient
  rw [← bind_assoc]
  cases ho : c.rc.argvAt 0 with
  | error f =>
      rw [ho] at hname
      rw [hname.eq_error, LatteRedis.processCommandAndResetClient, processCommand, hrc, ho]
      exact .inr (.error f)
  | ok o =>
      rw [ho] at hname
      obtain ⟨o', ho', htext⟩ := hname.eq_ok
      rw [ho', Run.ok_bind, LatteObject.ptr_eq htext]
      cases hptr : o.ptr with
      | error f =>
          rw [LatteRedis.processCommandAndResetClient, processCommand, hrc, ho, Run.ok_bind, hptr]
          exact .inr (.error f)
      | ok name =>
          have hlookup_eq : commandManagerLookup s.settings name =
              commandManagerLookup conn.server name := by
            rw [h.settings]
            rfl
          rw [Run.ok_bind, hlookup_eq]
          rw [← hrc] at ho
          cases hlookup : commandManagerLookup conn.server name with
          | none =>
              right
              have hmissing : (machine L E stack).backend.lookup conn.server name = none := hlookup
              rw [LatteRedis.processCommandAndResetClient, processCommand_eq ho hptr, hmissing]
              refine .ok ⟨_, rfl, rfl, ⟨h.settings, h.balanced, h.dbs⟩, .refl _,
                ⟨hc.whole, hc.argv⟩, ?_⟩
              rw [← hrc]
          | some cmd =>
              dsimp only
              cases hproc : proc? L cmd.proc with
              | none => exact .inl rfl
              | some f =>
                  right
                  rw [processCommandAndResetClient_eq ho hptr hlookup, hrc]
                  let c₁ : Client :=
                    { c with rc := { c.rc with cmd := .live cmd, lastcmd := .live cmd } }
                  have hrun := proc?_reset_refines (E := E) (c := c₁) hproc h ⟨hc.whole, hc.argv⟩ hargc
                  have hdone := hrun.bind (f := fun r ↦ .ok (some r))
                    (g := fun p ↦ .ok ((0 : Int), { conn with
                      rc := p.2, server := p.1
                      calls := conn.calls ++ [c.rc.args.map LatteObject.content] }))
                    (S := fun r p ↦ ∃ r', r = some r' ∧ p.1 = 0 ∧
                      Settled others s r' p.2.server p.2.rc)
                    fun {r p} hsettled ↦ .ok ⟨r, rfl, rfl, hsettled⟩
                  simp only [bind_assoc, pure_bind] at hdone
                  exact hdone

/-- The multibulk parser is the one that is called. -/
theorem parseRequest_multibulk_eq {conn : Conn LatteRedis.Server}
    (h : selectReqType conn.rc = protoReqMultibulk) :
    parseRequest (machine L E stack) conn.selected = (do
      let (code, rc) ← LatteRedis.processMultibulkBuffer L
        { conn.rc with reqType := protoReqMultibulk }
      return (code, { conn with rc := rc })) := by
  unfold parseRequest Conn.selected
  rw [h]
  rfl

/-- **The loop refines the loop.**  An iteration with reference counts, for a multibulk
request and a command that has a handler here, does what an iteration without them does:
both return the same, or both stop alike. -/
theorem loopBody_refines {conn : Conn LatteRedis.Server}
    (h : Refines (c.argv + others) s conn.server) (hc : c.Faithful s.heap) (hrc : conn.rc = c.rc) :
    loopBody L s c = .ok none ∨
      Run.Related (fun r it ↦ ∃ r', r = some r' ∧ Settled others s r' it.conn.server it.conn.rc)
        (loopBody L s c) (LatteRedis.loopBody (machine L E stack) conn) := by
  unfold loopBody LatteRedis.loopBody
  rw [hrc]
  split
  · exact .inr (.ok ⟨_, rfl, h, .refl _, hc, hrc.symm⟩)
  · split
    · exact .inr (.ok ⟨_, rfl, h, .refl _, hc, hrc.symm⟩)
    · split
      · exact .inl rfl
      · next hsel =>
          have hsel' : selectReqType conn.rc = protoReqMultibulk := by
            rw [hrc]
            exact not_not.mp hsel
          rw [parseRequest_multibulk_eq hsel', hrc]
          let c₁ : Client := { c with rc := { c.rc with reqType := protoReqMultibulk } }
          have hparse := processMultibulkBuffer_refines (L := L) (c := c₁) h ⟨hc.whole, hc.argv⟩
          dsimp only
          cases hp : LatteRedis.processMultibulkBuffer L c₁.rc with
          | error f =>
              rw [hp] at hparse
              rw [hparse.eq_error]
              exact .inr (.error f)
          | ok r =>
              rw [hp] at hparse
              obtain ⟨⟨code, s₁, c₂⟩, hcounted, hcode, hsettled⟩ := hparse.eq_ok
              obtain ⟨code', rc⟩ := r
              obtain ⟨h₁, hkeeps₁, hc₂, rfl⟩ := hsettled
              cases hcode
              rw [hcounted, Run.ok_bind, Run.ok_bind]
              simp only [Run.pure_eq, Run.ok_bind]
              split
              · exact .inr (.ok ⟨_, rfl, h₁, hkeeps₁, hc₂, rfl⟩)
              · split
                · refine .inr ((resetRedisClient_refines h₁ hc₂).bind fun {r rc'} hreset ↦ ?_)
                  exact .ok ⟨r, rfl, hreset.after hkeeps₁⟩
                · next hargc =>
                    have hexec : processCommandAndResetClient L s₁ c₂ = .ok none ∨ Run.Related _ _
                        (LatteRedis.processCommandAndResetClient (machine L E stack)
                          { conn with rc := c₂.rc }) :=
                      processCommandAndResetClient_refines h₁ hc₂ rfl hargc
                    apply hexec.imp id
                    intro hrel
                    generalize processCommandAndResetClient L s₁ c₂ = x at hrel ⊢
                    generalize LatteRedis.processCommandAndResetClient (machine L E stack)
                      { conn with rc := c₂.rc } = y at hrel ⊢
                    cases hrel with
                    | error f => exact .error f
                    | @ok r p hdone =>
                        obtain ⟨r', rfl, hzero, hdone⟩ := hdone
                        obtain ⟨code₂, conn₂⟩ := p
                        cases hzero
                        exact .ok ⟨r', rfl, hdone.after hkeeps₁⟩

/-! ## Runs -/

/-- A server and its connections. -/
structure State where
  server : Server
  clients : List Client := []

/-- The client of a connection between two requests, as the library hands it on. -/
def Client.map (f : Conn Unit → Conn Unit) (c : Client) : Client :=
  { c with rc := (f { rc := c.rc, server := () }).rc }

/-- What can happen to a connection, and to the clock. -/
inductive Event where
  | connect (rc : RedisClient)
  | read (i : Nat) (chunk : Bytes)
  | consume (i : Nat)
  | serve (i : Nat)
  | tick (clock : Clock)

def State.setClient (st : State) (i : Nat) (c : Client) : State :=
  { st with clients := st.clients.set i c }

/-- One step.  The result is `none` for what is left out: a new client with arguments, a
request in the inline protocol, and a command without a handler here. -/
def State.step (L : LatteC) (st : State) : Event → Except Fault (Option State)
  | .connect rc =>
      .ok (if rc.argc = 0 then some { st with clients := st.clients ++ [{ rc := rc }] } else none)
  | .read i chunk =>
      .ok (st.clients[i]?.map fun c ↦ st.setClient i (c.map (deliver chunk)))
  | .consume i =>
      .ok (st.clients[i]?.map fun c ↦ st.setClient i (c.map (dropConsumed 1)))
  | .serve i =>
      match st.clients[i]? with
      | none => .ok none
      | some c => do
          match ← loopBody L st.server c with
          | none => return none
          | some (s, c) => return some { st.setClient i c with server := s }
  | .tick clock => .ok (some { st with server := { st.server with clock := clock } })

def State.run (L : LatteC) : List Event → State → Except Fault (Option State)
  | [], st => .ok (some st)
  | e :: events, st => do
      match ← st.step L e with
      | none => return none
      | some st => st.run L events

/-- A server that was just started, without connections. -/
def State.start (dbNum : Nat) (commands : List RedisCommand) (hz : Int)
    (maxmemoryPolicy : BitVec 32) (clock : Clock) : State where
  server := {
    dbs := List.replicate dbNum ⟨.create 0 _ true, .create 0 _ true⟩
    commands := commands
    hz := hz
    maxmemoryPolicy := maxmemoryPolicy
    clock := clock }

/-! ## The invariant -/

/-- The references argument vectors hold. -/
def State.argvs (st : State) : Multiset ObjId :=
  (st.clients.map fun c ↦ (c.argv : Multiset ObjId)).sum

/-- What holds between two requests. -/
structure State.Sound (st : State) : Prop where
  refines : ∃ server, Refines st.argvs st.server server
  faithful : ∀ c ∈ st.clients, c.Faithful st.server.heap

theorem State.sound_start (dbNum : Nat) (commands : List RedisCommand) (hz : Int)
    (maxmemoryPolicy : BitVec 32) (clock : Clock) :
    (State.start dbNum commands hz maxmemoryPolicy clock).Sound := by
  let server : LatteRedis.Server :=
    ⟨initRedisServerDbs dbNum, commands, hz, maxmemoryPolicy, clock⟩
  refine ⟨⟨server, rfl, ?_, ?_⟩, by simp [State.start]⟩
  · have hvalues : (KvStore.create 0 ObjId true).values = 0 := rfl
    simp [State.argvs, State.start, Server.held, hvalues, Heap.Balanced.empty]
  · show List.Forall₂ _ (List.replicate dbNum _) (List.replicate dbNum _)
    induction dbNum with
    | zero => exact .nil
    | succ n ih => exact .cons ⟨rfl, fun key ↦ .none⟩ ih

/-- A connection changes in what does not concern its vector. -/
theorem State.Sound.setClient {st : State} (h : st.Sound) {i : Nat} {c c' : Client}
    (hc : st.clients[i]? = some c) (hargv : c'.argv = c.argv)
    (hfaithful : c'.Faithful st.server.heap) : (st.setClient i c').Sound := by
  obtain ⟨rest, hsum, hset⟩ :=
    sum_map_split (f := fun c : Client ↦ (c.argv : Multiset ObjId)) hc
  refine ⟨?_, fun c₁ hc₁ ↦ ?_⟩
  · have hargvs : (st.setClient i c').argvs = st.argvs := by
      rw [State.argvs, State.argvs, hsum, ← hargv]
      exact hset c'
    rw [hargvs]
    exact h.refines
  · rcases List.mem_or_eq_of_mem_set hc₁ with hc₁ | rfl
    · exact h.faithful c₁ hc₁
    · exact hfaithful

theorem State.Sound.serve {st : State} (h : st.Sound) {i : Nat} {c c' : Client} {s : Server}
    (hc : st.clients[i]? = some c) (hb : loopBody L st.server c = .ok (some (s, c'))) :
    ({ st.setClient i c' with server := s } : State).Sound := by
  obtain ⟨rest, hsum, hset⟩ :=
    sum_map_split (f := fun c : Client ↦ (c.argv : Multiset ObjId)) hc
  obtain ⟨server, hrefines⟩ := h.refines
  have hc' := h.faithful c (List.mem_of_getElem? hc)
  rw [State.argvs, hsum, add_comm] at hrefines
  have hloop : _ ∨ Run.Related _ _ (LatteRedis.loopBody (machine L .absent fun _ ↦ 0)
      { rc := c.rc, server := server }) := loopBody_refines hrefines hc' rfl
  obtain hnone | hrel := hloop
  · rw [hb] at hnone
    cases hnone
  · rw [hb] at hrel
    obtain ⟨it, -, r, hr, hsettled⟩ := hrel.ok_eq
    cases hr
    refine ⟨⟨it.conn.server, ?_⟩, fun c₁ hc₁ ↦ ?_⟩
    · have hargvs : ({ st.setClient i c' with server := s } : State).argvs = c'.argv + rest := by
        rw [add_comm]
        exact hset c'
      rw [hargvs]
      exact hsettled.refines
    · rcases List.mem_or_eq_of_mem_set hc₁ with hc₁ | rfl
      · exact (h.faithful c₁ hc₁).mono hsettled.keeps
      · exact hsettled.faithful

/-- A new connection holds nothing. -/
theorem State.Sound.connect {st : State} (h : st.Sound) {rc : RedisClient} (hargc : rc.argc = 0) :
    ({ st with clients := st.clients ++ [{ rc := rc }] } : State).Sound := by
  constructor
  · have hargvs : (⟨st.server, st.clients ++ [{ rc := rc }]⟩ : State).argvs = st.argvs := by
      simp [State.argvs]
    rw [hargvs]
    exact h.refines
  · intro c hc
    rcases List.mem_append.mp hc with hc | hc
    · exact h.faithful c hc
    · rw [List.mem_singleton.mp hc]
      refine ⟨.inl hargc, ?_⟩
      rw [RedisClient.args_of_argc_eq_zero hargc]
      exact .nil

theorem State.Sound.step {st st' : State} {e : Event} (h : st.Sound)
    (hstep : st.step L e = .ok (some st')) : st'.Sound := by
  cases e with
  | connect rc =>
      have hsome := Except.ok.inj hstep
      split at hsome
      · next hargc =>
          cases hsome
          exact h.connect hargc
      · cases hsome
  | read i chunk =>
      obtain ⟨c, hc, rfl⟩ := Option.map_eq_some_iff.mp (Except.ok.inj hstep)
      have hfaithful := h.faithful c (List.mem_of_getElem? hc)
      exact h.setClient hc rfl ⟨hfaithful.whole, hfaithful.argv⟩
  | consume i =>
      obtain ⟨c, hc, rfl⟩ := Option.map_eq_some_iff.mp (Except.ok.inj hstep)
      have hfaithful := h.faithful c (List.mem_of_getElem? hc)
      exact h.setClient hc rfl ⟨hfaithful.whole, hfaithful.argv⟩
  | serve i =>
      dsimp only [State.step] at hstep
      split at hstep
      · cases hstep
      · next c hc =>
          obtain ⟨r, hb, hstep⟩ := Run.bind_eq_ok.mp hstep
          cases r with
          | none => cases hstep
          | some r =>
              cases hstep
              exact h.serve hc hb
  | tick clock =>
      cases hstep
      obtain ⟨server, hrefines⟩ := h.refines
      refine ⟨⟨{ server with clock := clock }, ?_, hrefines.balanced, hrefines.dbs⟩, h.faithful⟩
      have hsettings := hrefines.settings
      unfold Server.settings at hsettings ⊢
      cases server
      cases hsettings
      rfl

theorem State.Sound.run {events : List Event} {st st' : State} (h : st.Sound)
    (hrun : st.run L events = .ok (some st')) : st'.Sound := by
  induction events generalizing st with
  | nil =>
      cases hrun
      exact h
  | cons e events ih =>
      obtain ⟨st₁, hstep, hrun⟩ := Run.bind_eq_ok.mp hrun
      cases st₁ with
      | none => cases hrun
      | some st₁ => exact ih (h.step hstep) hrun

/-! ## Counts -/

/-- The number of argument slots that hold an object. -/
def State.argvSlots (st : State) (o : ObjId) : Nat := (st.clients.map fun c ↦ c.slots.count o).sum

/-- The number of database entries whose value is an object. -/
def State.dbEntries (st : State) (o : ObjId) : Nat :=
  (st.server.dbs.map fun db ↦ db.keys.keys.countP fun key ↦ db.keys.find key = some o).sum

theorem count_sum_map {β : Type} (l : List β) (f : β → Multiset ObjId) (o : ObjId) :
    (l.map f).sum.count o = (l.map fun b ↦ (f b).count o).sum := by
  induction l with
  | nil => simp
  | cons b l ih => simp [ih]

theorem count_values (kvs : KvStore 0 ObjId) (o : ObjId) :
    kvs.values.count o = kvs.keys.countP fun key ↦ kvs.find key = some o := by
  rw [KvStore.values, Multiset.filterMap_coe, Multiset.coe_count, List.count_filterMap]
  exact List.countP_congr fun key _ ↦ by simp

/-- **Reference counts match holders.**  Whatever the connections send and in whatever
order they are served, in every state between two requests the count of an object is the
number of argument slots that hold it and of database entries whose value it is, and an
object whose count is zero is held nowhere. -/
theorem count_eq_holders {dbNum : Nat} {commands : List RedisCommand} {hz : Int}
    {maxmemoryPolicy : BitVec 32} {clock : Clock} {events : List Event} {st : State}
    (h : (State.start dbNum commands hz maxmemoryPolicy clock).run L events = .ok (some st))
    (o : ObjId) :
    st.server.heap.count o = st.argvSlots o + st.dbEntries o ∧
      (st.server.heap.count o = 0 → (∀ c ∈ st.clients, o ∉ c.slots) ∧
        ∀ db ∈ st.server.dbs, ∀ key, db.keys.find key ≠ some o) := by
  have hsound := (State.sound_start dbNum commands hz maxmemoryPolicy clock).run h
  obtain ⟨server, hrefines⟩ := hsound.refines
  have hargv : st.argvs.count o = st.argvSlots o := by
    rw [State.argvs, State.argvSlots, count_sum_map]
    congr 1
    apply List.map_congr_left
    intro c hc
    rw [(hsound.faithful c hc).slots_eq, Multiset.coe_count]
  have hheld : st.server.held.count o = st.dbEntries o := by
    rw [Server.held, State.dbEntries, count_sum_map]
    simp only [count_values]
  constructor
  · rw [hrefines.balanced o, Multiset.count_add, hargv, hheld]
  · intro hzero
    have hnot := hrefines.balanced.not_mem_of_count_eq_zero hzero
    constructor
    · intro c hc ho
      apply hnot
      obtain ⟨i, hi⟩ := List.mem_iff_getElem?.mp hc
      obtain ⟨rest, hsum, -⟩ :=
        sum_map_split (f := fun c : Client ↦ (c.argv : Multiset ObjId)) hi
      rw [(hsound.faithful c hc).slots_eq] at ho
      rw [State.argvs, hsum]
      exact Multiset.mem_add.mpr (.inl (Multiset.mem_add.mpr (.inr ho)))
    · intro db hdb key hkey
      apply hnot
      obtain ⟨i, hi⟩ := List.mem_iff_getElem?.mp hdb
      exact Multiset.mem_add.mpr (.inr (mem_held (deref_eq_ok.mpr hi) hkey))

/-- Two clients set the same key, one after the other, and the first one reads it. -/
def sharedKey : List Event :=
  [ .connect .idle, .connect .idle
  , .read 0 (ascii "*3\r\n$3\r\nSET\r\n$1\r\nk\r\n$1\r\nv\r\n"), .serve 0, .consume 0
  , .read 1 (ascii "*3\r\n$3\r\nSET\r\n$1\r\nk\r\n$1\r\nw\r\n"), .serve 1, .consume 1
  , .read 0 (ascii "*2\r\n$3\r\nGET\r\n$1\r\nk\r\n"), .serve 0 ]

theorem count_eq_holders_sharedKey :
    ∃ st, (State.start 16 (redisCommandTable ++ latteModuleCommands) 10 0 ⟨0, 0, 0⟩).run
        LatteC.sample sharedKey = .ok (some st) ∧
      -- the value that was overwritten is gone, the other one is in the database
      st.server.heap.count 2 = 0 ∧ st.server.heap.count 5 = 1 ∧
      st.argvSlots 5 + st.dbEntries 5 = 1 := by
  have h : ((State.start 16 (redisCommandTable ++ latteModuleCommands) 10 0 ⟨0, 0, 0⟩).run
      LatteC.sample sharedKey).toOption.join.any fun st ↦
        st.server.heap.count 2 = 0 ∧ st.server.heap.count 5 = 1 := by
    decide +kernel
  cases hrun : (State.start 16 (redisCommandTable ++ latteModuleCommands) 10 0 ⟨0, 0, 0⟩).run
      LatteC.sample sharedKey with
  | error f => rw [hrun] at h; cases h
  | ok st? =>
      cases st? with
      | none => rw [hrun] at h; cases h
      | some st =>
          rw [hrun] at h
          obtain ⟨hold, hnew⟩ := of_decide_eq_true h
          refine ⟨st, rfl, hold, hnew, ?_⟩
          rw [← (count_eq_holders hrun 5).1, hnew]

end LatteRedis.Counted
