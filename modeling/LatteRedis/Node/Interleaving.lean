import LatteRedis.Keyspace.Spec

/-!
# Many connections

The server has one thread.  A connection is served when bytes have arrived on it, until its
query buffer has been used up; in between, bytes arrive on other connections and the clock
goes on.  A `Node` is the server with all its connections, and a run is any list of reads,
on any connections and cut in any way, and of readings of the clock.

`interleaving_linearizable` is about connections that send pipelines of commands.  There is
one order of the requests, the one they are executed in, such that every connection is
answered what the key-value store of `Keyspace.Spec` answers in that order: nothing is lost,
executed twice, executed out of order or answered on another connection.
-/

namespace LatteRedis

open ByteString Incremental Resp

/-! ## The server with its connections -/

/-- A call of a handler. -/
structure Call where
  conn : Nat
  dbid : Nat
  clock : Clock
  args : List Bytes

/-- The call as a request. -/
def Call.request (call : Call) : Request :=
  .of call.dbid call.clock (call.args.headD []) call.args.tail

/-- The server, its clients, and a record of the calls the program does not keep. -/
structure Node where
  server : Server
  clients : List RedisClient
  inlineCalls : Nat := 0
  log : List Call := []

inductive NodeEvent where
  | /-- Bytes arrive on a connection. -/ read (i : Nat) (chunk : Bytes)
  | /-- The clock is read. -/ tick (clock : Clock)

namespace Node

/-- A client and the server it acts on. -/
def conn (n : Node) (rc : RedisClient) : Conn Server :=
  { rc := rc, server := n.server, inlineCalls := n.inlineCalls }

/-- What is left when connection `i` has been served. -/
def served (n : Node) (i : Nat) (c : Conn Server) : Node where
  server := c.server
  clients := n.clients.set i c.rc
  inlineCalls := c.inlineCalls
  log := n.log ++ c.calls.map fun args ↦ ⟨i, c.rc.dbid, n.server.clock, args⟩

/-- One event; `none` if the server stops, or does not return within `fuel` iterations. -/
def step (M : Machine Server) (fuel : Nat) (n : Node) : NodeEvent → Option Node
  | .tick clock => some { n with server := { n.server with clock := clock } }
  | .read i chunk =>
      match n.clients[i]? with
      | none => some n
      | some rc =>
          match serveRead M fuel chunk (n.conn rc) with
          | .returned _ c => some (n.served i c)
          | _ => none

def run (M : Machine Server) (fuel : Nat) (n : Node) (es : List NodeEvent) : Option Node :=
  es.foldlM (step M fuel) n

theorem run_cons_eq_some {M : Machine Server} {fuel : Nat} {n n' : Node} {e : NodeEvent}
    {es : List NodeEvent} :
    n.run M fuel (e :: es) = some n' ↔
      ∃ n₁, n.step M fuel e = some n₁ ∧ n₁.run M fuel es = some n' := by
  unfold Node.run
  rw [List.foldlM_cons]
  exact Option.bind_eq_some_iff

/-- The requests of connection `i`, in the order they were executed in. -/
def callsOf (n : Node) (i : Nat) : List (List Bytes) :=
  (n.log.filter fun call ↦ call.conn = i).map Call.args

end Node

/-- The bytes that arrive on connection `i`. -/
def received (i : Nat) : List NodeEvent → Bytes
  | [] => []
  | .tick _ :: es => received i es
  | .read j chunk :: es => if j = i then chunk ++ received i es else received i es

theorem received_read_self (i : Nat) (chunk : Bytes) (es : List NodeEvent) :
    received i (.read i chunk :: es) = chunk ++ received i es := by
  rw [received, if_pos rfl]

theorem received_read_of_ne {i j : Nat} (h : i ≠ j) (chunk : Bytes) (es : List NodeEvent) :
    received i (.read j chunk :: es) = received i es := by
  rw [received, if_neg h.symm]

/-! ## Requests the server survives whatever it holds -/

/-- The library keeps an sds in an `EMBSTR` object. -/
def LatteC.EmbedsSds (L : LatteC) : Prop := ∀ s, L.embstrSds s = s

/-- A command that returns and leaves the connection open, whatever the databases hold: not
`QUIT`, no `MODULE` that loads or that lacks its subcommand, and no `SET` of a key with a
NUL in it. -/
structure Harmless (name : Bytes) (operands : List Bytes) : Prop where
  known : ∃ v, Verb.named name = some v ∧ v ≠ .quit
  module : name.map lower = ascii "module" → operands ≠ [] ∧
    ∀ sub path rest, operands = sub :: path :: rest → ¬ strcaseeq sub (ascii "load")
  set : name.map lower = ascii "set" → ∀ k v, operands = [k, v] → (0 : UInt8) ∉ k

variable {L : LatteC} {E : Extension} {stack : Nat → Int} {dbNum : Nat} {server : Server}
  {ms : Keyspaces} {rc : RedisClient} {name : Bytes} {operands : List Bytes}

theorem LatteC.EmbedsSds.sends (h : L.EmbedsSds) {o : LatteObject} (ho : o.IsText) : L.Sends o := by
  refine ⟨ho, ?_⟩
  unfold LatteC.objectBytes LatteObject.content
  cases o.encoding with
  | raw s | int n => rfl
  | embstr s => exact h s

theorem Verb.named_eq {v : Verb} (h : Verb.named name = some v) : name.map lower = ascii v.word := by
  have hfound := List.find?_some h
  exact (of_decide_eq_true hfound).symm

/-- The specification has an answer. -/
theorem Harmless.answer (h : Harmless name operands) (t : Int) (m : Keyspace) :
    ∃ m' a, m.answer L t name operands = some (m', a) := by
  obtain ⟨v, hv, -⟩ := h.known
  have hname := Verb.named_eq hv
  unfold Keyspace.answer
  rw [hv]
  cases v with
  | quit | info => exact ⟨_, _, rfl⟩
  | module =>
      match operands, (h.module hname).1 with
      | [_], _ | _ :: _ :: _, _ => exact ⟨_, _, rfl⟩
  | ping | expire | get =>
      match operands with
      | [] | [_] | [_, _] | _ :: _ :: _ :: _ => exact ⟨_, _, rfl⟩
  | set =>
      match operands, h.set hname with
      | [k, v], hk =>
          show ∃ m' a, m.set t k v = some (m', a)
          unfold Keyspace.set
          rw [cString_of_notMem (hk k v rfl)]
          dsimp only
          split <;> exact ⟨_, _, rfl⟩
      | [], _ | [_], _ | _ :: _ :: _ :: _, _ => exact ⟨_, _, rfl⟩

/-- A request of a client that holds texts is one the specification speaks of. -/
theorem Harmless.specified (h : Harmless name operands) (hL : L.EmbedsSds) {r : Request}
    (hname : r.name = name) (hops : r.operands = operands) (hdb : r.client.dbid < dbNum) :
    r.Specified L dbNum where
  dbid := hdb
  loads hload := by
    obtain ⟨hmodule, sub, path, rest, hrest, hword⟩ := hload
    exact (h.module (hname ▸ hmodule)).2 sub path rest (hops ▸ hrest) hword
  sends i o ho := by
    obtain ⟨-, slots, vals, hargv, -, htext⟩ := r.holds
    exact hL.sends (htext o (RedisClient.mem_of_argvAt hargv ho))

/-- The handler of a harmless request returns with what the specification says, and leaves
the connection open. -/
theorem Harmless.run (h : Harmless name operands) (hL : L.AppendsProto) (hemb : L.EmbedsSds)
    (E : Extension) (hholds : rc.Holds (name :: operands)) (hopen : rc.Open) (hdb : rc.dbid < dbNum)
    (hreal : server.Realises L dbNum ms) :
    ∃ cmd server' rc' m a, commandManagerLookup server name = some cmd ∧
      cmd.proc.run L E server { rc with cmd := .live cmd, lastcmd := .live cmd } = .ok (server', rc') ∧
      (ms rc.dbid).answer L server.clock.mstime name operands = some (m, a) ∧
      server'.Realises L dbNum (Function.update ms rc.dbid m) ∧ server'.clock = server.clock ∧
      rc'.reply.out = rc.reply.out ++ a.bytes ∧ rc'.Open := by
  obtain ⟨v, hv, hquit⟩ := h.known
  obtain ⟨m, a, hanswer⟩ := h.answer (L := L) server.clock.mstime (ms rc.dbid)
  have hlookup : commandManagerLookup server name = some v.command := by
    rw [commandManagerLookup_verb hreal.commands, hv]
    rfl
  let r : Request := ⟨rc, name, operands, server.clock, hholds⟩
  have hexec := Request.execute_realises (E := E) hL (h.specified hemb (r := r) rfl rfl hdb) hreal
  rw [hanswer] at hexec
  obtain ⟨⟨server', rc'⟩, hrun, hreal', hclock, hout⟩ := hexec.eq_ok
  rw [Request.execute_eq, show commandManagerLookup server r.name = _ from hlookup] at hrun
  have hproc : v.command.proc ≠ .quit := by
    cases v with
    | quit => exact absurd rfl hquit
    | module | ping | info | expire | set | get => simp [Verb.command]
  exact ⟨v.command, server', rc', m, a, hlookup, hrun, hanswer, hreal', hclock, hout,
    (CommandProc.run_onlyReplied hproc hrun).isOpen hopen⟩

/-- The client already is as its handler sees it. -/
theorem RedisClient.Calling.called_eq {cmd : RedisCommand} {dbid : Nat} {args : List Bytes}
    (h : rc.Calling cmd dbid args) : { rc with cmd := .live cmd, lastcmd := .live cmd } = rc := by
  obtain ⟨hcmd, hlast⟩ := h.called
  cases rc
  cases hcmd
  cases hlast
  rfl

/-- A command that is harmless. -/
def Safe (args : List Bytes) : Prop := ∃ name operands, args = name :: operands ∧ Harmless name operands

/-- The handlers of harmless commands can be called one after the other. -/
theorem serves_of_safe (hL : L.AppendsProto) (hemb : L.EmbedsSds) {dbid : Nat} (hdb : dbid < dbNum)
    {cmds : List (List Bytes)} (hcmds : ∀ args ∈ cmds, Safe args)
    (hreal : server.Realises L dbNum ms) : (backend L E).Serves dbid cmds server := by
  induction cmds generalizing server ms with
  | nil => trivial
  | cons args cmds ih =>
      obtain ⟨name, operands, rfl, hsafe⟩ := hcmds args (by simp)
      obtain ⟨v, hv, -⟩ := hsafe.known
      have hlookup : commandManagerLookup server name = some v.command := by
        rw [commandManagerLookup_verb hreal.commands, hv]
        rfl
      refine ⟨name, v.command, rfl, hlookup, ?_⟩
      intro rc hrc
      obtain ⟨cmd, server', rc', m, a, hlookup', hrun, -, hreal', -, -, hopen⟩ :=
        hsafe.run hL hemb E hrc.holds hrc.isOpen (hrc.dbid ▸ hdb) hreal
      cases hlookup.symm.trans hlookup'
      rw [hrc.called_eq] at hrun
      refine ⟨server', rc', hrun, hopen, rfl, ?_⟩
      exact ih (fun args hargs ↦ hcmds args (List.mem_cons_of_mem _ hargs)) hreal'

/-! ## One connection

`Awaits` of `Client.Pipeline` says where a connection is in the stream of its commands.
`Answers` says what has been done for it since an earlier state `c`: the commands `done` were
executed, and `as` are the answers. -/

/-- The requests for the commands `done` on connection `i`. -/
def Conn.requests (c : Conn Server) (i : Nat) (done : List (List Bytes)) : List Call :=
  done.map fun args ↦ ⟨i, c.rc.dbid, c.server.clock, args⟩

structure Answers (L : LatteC) (dbNum : Nat) (c : Conn Server) (ms : Keyspaces)
    (done : List (List Bytes)) (as : List Answer) (c' : Conn Server) (ms' : Keyspaces) : Prop where
  spec : ∀ i, Keyspaces.answerAll L ms ((c.requests i done).map Call.request) = some (ms', as)
  calls : c'.calls = c.calls ++ done
  realises : c'.server.Realises L dbNum ms'
  clock : c'.server.clock = c.server.clock
  dbid : c'.rc.dbid = c.rc.dbid
  out : c'.rc.reply.out = c.rc.reply.out ++ as.flatMap Answer.bytes

section Connection

variable {hL : L.StrictString2ll} {all : List (List Bytes)} {rest : Bytes} {c c' c'' : Conn Server}
  {ms' ms'' : Keyspaces} {s : Expect} {args : List Bytes} {cmds done done' : List (List Bytes)}
  {as as' : List Answer}

theorem Answers.trans (h : Answers L dbNum c ms done as c' ms')
    (h' : Answers L dbNum c' ms' done' as' c'' ms'') :
    Answers L dbNum c ms (done ++ done') (as ++ as') c'' ms'' where
  spec i := by
    have hsame : c.requests i done' = c'.requests i done' := by
      unfold Conn.requests
      rw [h.clock, h.dbid]
    rw [show c.requests i (done ++ done') = c.requests i done ++ c.requests i done' from
      List.map_append, List.map_append, hsame]
    exact Keyspaces.answerAll_append (h.spec i) (h'.spec i)
  calls := by rw [h'.calls, h.calls, List.append_assoc]
  realises := h'.realises
  clock := h'.clock.trans h.clock
  dbid := h'.dbid.trans h.dbid
  out := by rw [h'.out, h.out, List.flatMap_append, List.append_assoc]

/-- Parsing, delivering and dropping answer nothing. -/
theorem Answers.of_same (hreal : c.server.Realises L dbNum ms) (hserver : c'.server = c.server)
    (hcalls : c'.calls = c.calls) (hdbid : c'.rc.dbid = c.rc.dbid)
    (hreply : c'.rc.reply = c.rc.reply) : Answers L dbNum c ms [] [] c' ms where
  spec _ := rfl
  calls := by rw [hcalls, List.append_nil]
  realises := hserver ▸ hreal
  clock := by rw [hserver]
  dbid := hdbid
  out := by rw [hreply, List.flatMap_nil, List.append_nil]

variable (E stack) in
/-- Executing a harmless command and resetting the client. -/
theorem processCommandAndResetClient_answers (hproto : L.AppendsProto) (hemb : L.EmbedsSds)
    (hsafe : Safe args) (hholds : c.rc.Holds args) (hopen : c.rc.Open) (hdb : c.rc.dbid < dbNum)
    (hreal : c.server.Realises L dbNum ms) :
    ∃ server reply lastcmd ms' a, let c' : Conn Server := { c with
        rc := { c.rc with
          reply := reply, lastcmd := lastcmd, argc := 0, cmd := .null, argvLenSum := 0
          reqType := 0, multiBulkLen := 0, bulkLen := -1 }
        server := server
        calls := c.calls ++ [args] }
      processCommandAndResetClient (machine L E stack) c = .ok (0, c') ∧
        Answers L dbNum c ms [args] [a] c' ms' := by
  obtain ⟨name, operands, rfl, hsafe⟩ := hsafe
  obtain ⟨cmd, server, rc', m, a, hlookup, hrun, hanswer, hreal', hclock, hout, hopen'⟩ :=
    hsafe.run hproto hemb E hholds hopen hdb hreal
  obtain ⟨o, ho, htext, hcontent⟩ := hholds.argvAt (i := 0) rfl
  -- the handler has only replied
  obtain ⟨reply, rfl⟩ : ∃ reply, rc' =
      { c.rc with cmd := .live cmd, lastcmd := .live cmd, reply := reply } := by
    refine ⟨rc'.reply, Eq.trans (CommandProc.run_sameParser hrun) ?_⟩
    simp only [hopen'.1, hopen'.2, hopen.1, hopen.2]
  refine ⟨server, reply, .live cmd, Function.update ms c.rc.dbid m, a, ?_, ?_⟩
  · have hargs : ({ c.rc with cmd := .live cmd, lastcmd := .live cmd, reply := reply } :
      RedisClient).args.length = c.rc.argc.toNat := hholds.args_eq.1
    have hlookup' : (machine L E stack).backend.lookup c.server name = some cmd := hlookup
    have hrun' : (machine L E stack).backend.proc cmd c.server
      { c.rc with cmd := .live cmd, lastcmd := .live cmd } = _ := hrun
    unfold processCommandAndResetClient
    rw [processCommand_eq ho (htext.2.trans (congrArg _ hcontent)), hlookup']
    dsimp only
    rw [hrun']
    simp only [Except.map, Run.ok_bind, commandProcessed, if_true]
    rw [resetRedisClient_ok (by simp) hargs]
    simp only [hholds.args_eq.2]
    rfl
  · refine ⟨fun i ↦ ?_, rfl, hreal', hclock, rfl, ?_⟩
    · exact Keyspaces.answerAll_singleton
        (r := Call.request ⟨i, c.rc.dbid, c.server.clock, name :: operands⟩) hanswer
    · rw [List.flatMap_singleton]
      exact hout

/-- An iteration waits for more bytes and answers nothing, or executes the pending command. -/
theorem Awaits.iterate (hproto : L.AppendsProto) (hemb : L.EmbedsSds)
    (h : Awaits (machine L E stack) hL all rest c s (args :: cmds)) (hu : c.rc.unread ≠ [])
    (hsafe : ∀ args' ∈ args :: cmds, Safe args') (hdb : c.rc.dbid < dbNum)
    (hreal : c.server.Realises L dbNum ms) :
    (∃ ret s' c', LatteRedis.loopBody (machine L E stack) c = .ok (.stop ret c') ∧
        Awaits (machine L E stack) hL all rest c' s' (args :: cmds) ∧
        multibulkStep L c'.rc.isMaster s' c'.rc.unread = .more ∧ Answers L dbNum c ms [] [] c' ms) ∨
      ∃ c' a ms', LatteRedis.loopBody (machine L E stack) c = .ok (.again true c') ∧
        Awaits (machine L E stack) hL all rest c' .count cmds ∧
        Answers L dbNum c ms [args] [a] c' ms' := by
  obtain ⟨hreq, hstar⟩ := h.selected hu
  have hrep : Rep c.selected.rc s := h.rep.of_eq rfl rfl rfl rfl
  rw [loopBody_eq hu h.isOpen.1 h.isOpen.2]
  rcases processMultibulkBuffer_streams hrep h.inBuffer hstar h.stream with
    ⟨s', rc', hparse, hparsed, hq, hrep', hstream, hwait⟩ |
    ⟨rc', hparse, hparsed, hq, hloaded, hunread⟩
  · left
    have hopen : rc'.Open := by
      rw [hparsed]
      exact h.isOpen
    rw [parseRequest_multibulk hreq hparse]
    refine ⟨_, s', { c.selected with rc := rc' }, rfl, ⟨hrep', hq, hopen, ?_, h.sendable, ?_, h.calls,
      hstream⟩, hwait, .of_same hreal rfl rfl ?_ ?_⟩
    · right
      rw [hparsed]
      exact ⟨hreq, by simp⟩
    · rw [hparsed]
      exact h.serves
    · rw [hparsed]
      rfl
    · rw [hparsed]
      rfl
  · right
    have hholds := hloaded.holds (h.sendable args (by simp)).ne_nil
    have hopen : rc'.Open := by
      rw [hparsed]
      exact h.isOpen
    have hdbid : rc'.dbid = c.rc.dbid := by
      rw [hparsed]
      rfl
    have hargc : rc'.argc ≠ 0 := by
      rw [hholds.1]
      have := List.length_pos_iff.mpr (h.sendable args (by simp)).ne_nil
      omega
    have hparsing : Answers L dbNum c ms [] [] { c.selected with rc := rc' } ms := by
      refine .of_same hreal rfl rfl hdbid ?_
      rw [hparsed]
      rfl
    obtain ⟨server, reply, lastcmd, ms', a, hexec, hanswers⟩ :=
      processCommandAndResetClient_answers E stack (c := { c.selected with rc := rc' })
        hproto hemb (hsafe args (by simp)) hholds hopen (hdbid ▸ hdb) hreal
    rw [parseRequest_multibulk hreq hparse, Run.ok_bind]
    dsimp only
    rw [if_neg (by decide), if_neg hargc, hexec]
    refine ⟨_, a, ms', rfl, ⟨⟨rfl, rfl, rfl, hloaded.argv⟩, hq, hopen, .inl ⟨rfl, rfl⟩, ?_, ?_, ?_, ?_⟩,
      hparsing.trans hanswers⟩
    · exact fun args' hargs' ↦ h.sendable args' (List.mem_cons_of_mem args hargs')
    · refine serves_of_safe hproto hemb ?_ (fun args' hargs' ↦ ?_) hanswers.realises
      · exact hdbid ▸ hdb
      · exact hsafe args' (List.mem_cons_of_mem args hargs')
    · rw [← h.calls, List.append_assoc]
      rfl
    · show Streams _ .count cmds (rc'.unread ++ rest)
      rw [hunread]
      exact streams_encodeAll hL fun args' hargs' ↦
        h.sendable args' (List.mem_cons_of_mem args hargs')

/-- A call returns, at the latest when the pending commands have been executed.  The
induction is on these commands. -/
theorem Awaits.callAnswers (hproto : L.AppendsProto) (hemb : L.EmbedsSds)
    (h : Awaits (machine L E stack) hL all rest c s cmds) (hsafe : ∀ args ∈ cmds, Safe args)
    (hdb : c.rc.dbid < dbNum) (hreal : c.server.Realises L dbNum ms) {fuel : Nat}
    (hfuel : cmds.length ≤ fuel) :
    ∃ ret c' s' done cmds' as ms',
      redisProcessInputBuffer (machine L E stack) (fuel + 1) c = .returned ret c' ∧
        cmds = done ++ cmds' ∧ Awaits (machine L E stack) hL all rest c' s' cmds' ∧
        multibulkStep L c'.rc.isMaster s' c'.rc.unread = .more ∧
        Answers L dbNum c ms done as c' ms' := by
  have hidle : ∀ {c : Conn Server} {s : Expect} {ms : Keyspaces} {fuel : Nat}, c.rc.unread = [] →
      c.server.Realises L dbNum ms →
      redisProcessInputBuffer (machine L E stack) (fuel + 1) c = .returned (exitCode c.rc) c ∧
        multibulkStep L c.rc.isMaster s c.rc.unread = .more ∧ Answers L dbNum c ms [] [] c ms := by
    intro c s ms fuel hu hreal
    refine ⟨redisProcessInputBuffer_nil hu fuel, ?_, .of_same hreal rfl rfl rfl rfl⟩
    rw [hu]
    exact multibulkStep_nil _ _ s
  induction cmds generalizing c s fuel ms with
  | nil =>
      obtain ⟨hcall, hwait, hanswers⟩ := hidle (List.append_eq_nil_iff.mp h.stream).1 hreal
      exact ⟨_, c, s, [], [], [], ms, hcall, rfl, h, hwait, hanswers⟩
  | cons args cmds ih =>
      by_cases hu : c.rc.unread = []
      · obtain ⟨hcall, hwait, hanswers⟩ := hidle hu hreal
        exact ⟨_, c, s, [], args :: cmds, [], ms, hcall, rfl, h, hwait, hanswers⟩
      · rcases h.iterate hproto hemb hu hsafe hdb hreal with
          ⟨ret, s', c', hbody, hawaits, hwait, hanswers⟩ | ⟨c', a, ms', hbody, hawaits, hanswers⟩
        · refine ⟨ret, c', s', [], args :: cmds, [], ms, ?_, rfl, hawaits, hwait, hanswers⟩
          rw [redisProcessInputBuffer, hbody]
        · obtain ⟨fuel, rfl⟩ : ∃ n, fuel = n + 1 := Nat.exists_eq_add_one.mpr (by
            rw [List.length_cons] at hfuel
            omega)
          obtain ⟨ret, c'', s', done, cmds', as, ms'', hcall, hcmds, hawaits', hwait, hrest⟩ :=
            ih hawaits (fun args' hargs' ↦ hsafe args' (List.mem_cons_of_mem args hargs'))
              (hanswers.dbid ▸ hdb) hanswers.realises (Nat.le_of_succ_le_succ hfuel)
          refine ⟨ret, c'', s', args :: done, cmds', a :: as, ms'', ?_, ?_, hawaits', hwait,
            hanswers.trans hrest⟩
          · rw [redisProcessInputBuffer, hbody]
            exact hcall
          · rw [hcmds]
            rfl

/-- One read. -/
theorem Awaits.readAnswers (hproto : L.AppendsProto) (hemb : L.EmbedsSds) {chunk : Bytes}
    (h : Awaits (machine L E stack) hL all (chunk ++ rest) c s cmds)
    (hsafe : ∀ args ∈ cmds, Safe args) (hdb : c.rc.dbid < dbNum)
    (hreal : c.server.Realises L dbNum ms) {fuel : Nat} (hfuel : cmds.length < fuel) :
    ∃ ret c' s' done cmds' as ms', serveRead (machine L E stack) fuel chunk c = .returned ret c' ∧
      cmds = done ++ cmds' ∧ Awaits (machine L E stack) hL all rest c' s' cmds' ∧
      multibulkStep L c'.rc.isMaster s' c'.rc.unread = .more ∧
      Answers L dbNum c ms done as c' ms' := by
  obtain ⟨fuel, rfl⟩ : ∃ k, fuel = k + 1 := Nat.exists_eq_add_one.mpr (Nat.zero_lt_of_lt hfuel)
  have hdeliver : Answers L dbNum c ms [] [] (LatteRedis.deliver chunk c) ms :=
    .of_same hreal rfl rfl rfl rfl
  obtain ⟨ret, c', s', done, cmds', as, ms', hcall, hcmds, hawaits, hwait, hanswers⟩ :=
    h.deliver.callAnswers hproto hemb hsafe hdb hreal (Nat.le_of_lt_succ hfuel)
  obtain ⟨hawaits', hunread⟩ := hawaits.dropConsumed ret
  have hsame : (LatteRedis.dropConsumed ret c').rc.isMaster = c'.rc.isMaster ∧
      Answers L dbNum c' ms' [] [] (LatteRedis.dropConsumed ret c') ms' := by
    unfold LatteRedis.dropConsumed
    split <;> exact ⟨rfl, .of_same hanswers.realises rfl rfl rfl rfl⟩
  refine ⟨ret, _, s', done, cmds', as, ms', ?_, hcmds, hawaits', ?_, ?_⟩
  · rw [serveRead, hcall]
  · rw [hunread, hsame.1]
    exact hwait
  · have hall := (hdeliver.trans hanswers).trans hsame.2
    rwa [List.nil_append, List.nil_append, List.append_nil, List.append_nil] at hall

/-- What other connections and the clock do to the server is no matter for a connection
whose commands are harmless.  The next read starts a record of its own. -/
theorem Awaits.withServer (hproto : L.AppendsProto) (hemb : L.EmbedsSds)
    (h : Awaits (machine L E stack) hL all rest c s cmds) (hsafe : ∀ args ∈ cmds, Safe args)
    (hdb : c.rc.dbid < dbNum) (hreal : server.Realises L dbNum ms) (k : Nat) :
    Awaits (machine L E stack) hL cmds rest { rc := c.rc, server := server, inlineCalls := k } s
      cmds where
  rep := h.rep
  inBuffer := h.inBuffer
  isOpen := h.isOpen
  reqType := h.reqType
  sendable := h.sendable
  serves := serves_of_safe hproto hemb hdb hsafe hreal
  calls := rfl
  stream := h.stream

/-- One more command is going to be sent. -/
theorem Awaits.enqueue (hproto : L.AppendsProto) (hemb : L.EmbedsSds)
    (h : Awaits (machine L E stack) hL all rest c s cmds) (hsend : Sendable args)
    (hsafe : ∀ args' ∈ cmds ++ [args], Safe args') (hdb : c.rc.dbid < dbNum)
    (hreal : c.server.Realises L dbNum ms) :
    Awaits (machine L E stack) hL (all ++ [args]) (rest ++ encode args) c s (cmds ++ [args]) where
  rep := h.rep
  inBuffer := h.inBuffer
  isOpen := h.isOpen
  reqType := h.reqType.imp_right fun hreq ↦ ⟨hreq.1, by simp⟩
  sendable args' hargs' := by
    rcases List.mem_append.mp hargs' with hargs' | hargs'
    · exact h.sendable args' hargs'
    · exact List.mem_singleton.mp hargs' ▸ hsend
  serves := serves_of_safe hproto hemb hdb hsafe hreal
  calls := by rw [← List.append_assoc, h.calls]
  stream := by
    have hstream := h.stream
    cases cmds with
    | nil =>
        obtain ⟨hreq, rfl⟩ : c.rc.reqType = 0 ∧ s = .count := by
          rcases h.reqType with hreq | ⟨-, hne⟩
          · exact hreq
          · exact absurd rfl hne
        rw [← List.append_assoc, show c.rc.unread ++ rest = [] from hstream]
        have hone : Streams (multibulk L hL c.rc.isMaster) .count [args] (encodeAll [args]) :=
          streams_encodeAll hL (by simpa using hsend)
        rwa [encodeAll_cons, encodeAll_nil, List.append_nil] at hone
    | cons args₀ cmds =>
        obtain ⟨hdecodes, hstar⟩ := hstream
        rw [← List.append_assoc]
        refine ⟨?_, fun hs ↦ ?_⟩
        · have hmore := hdecodes.append_done (encode args)
          rwa [show encodeAll cmds ++ encode args = encodeAll (cmds ++ [args]) by
            simp [encodeAll]] at hmore
        · rw [List.head?_append, hstar hs]
          rfl

end Connection

/-! ## All connections -/

/-- What connection `i` is sent, if `as` are the answers to the calls of the log. -/
def Node.sentTo (n : Node) (as : List Answer) (i : Nat) : Bytes :=
  ((n.log.zip as).filter fun p ↦ p.1.conn = i).flatMap fun p ↦ p.2.bytes

/-- The answers to the requests of connection `i`, if `as` are the answers to the log. -/
def Node.answersOf (n : Node) (as : List Answer) (i : Nat) : List Answer :=
  ((n.log.zip as).filter fun p ↦ p.1.conn = i).map Prod.snd

theorem Node.sentTo_eq (n : Node) (as : List Answer) (i : Nat) :
    n.sentTo as i = (n.answersOf as i).flatMap Answer.bytes := by
  unfold Node.sentTo Node.answersOf
  rw [List.flatMap_map]

/-- Connection `i`, which started as `rc₀`, has executed the first commands of its pipeline
and been sent the answers, and waits for the bytes `future` of the others. -/
structure Node.Serving (L : LatteC) (E : Extension) (stack : Nat → Int) (hL : L.StrictString2ll)
    (n : Node) (as : List Answer) (i : Nat) (pipeline : List (List Bytes)) (future : Bytes)
    (rc₀ rc : RedisClient) : Prop where
  dbid : rc.dbid = rc₀.dbid
  out : rc.reply.out = rc₀.reply.out ++ n.sentTo as i
  stands : ∃ s cmds, n.callsOf i ++ cmds = pipeline ∧ (∀ args ∈ cmds, Safe args) ∧
    Awaits (machine L E stack) hL cmds future (n.conn rc) s cmds ∧
    multibulkStep L rc.isMaster s rc.unread = .more

/-- The invariant of runs. -/
structure Node.Consistent (L : LatteC) (E : Extension) (stack : Nat → Int) (hL : L.StrictString2ll)
    (dbNum : Nat) (clients : List RedisClient) (pipelines : Nat → List (List Bytes))
    (future : Nat → Bytes) (n : Node) (ms : Keyspaces) (as : List Answer) : Prop where
  realises : n.server.Realises L dbNum ms
  spec : Keyspaces.answerAll L (fun _ ↦ .empty) (n.log.map Call.request) = some (ms, as)
  length : n.clients.length = clients.length
  dbids : ∀ call ∈ n.log, ∃ rc, clients[call.conn]? = some rc ∧ call.dbid = rc.dbid
  serving : ∀ i rc₀ rc, clients[i]? = some rc₀ → n.clients[i]? = some rc →
    n.Serving L E stack hL as i (pipelines i) (future i) rc₀ rc

section Nodes

variable {hL : L.StrictString2ll} {clients : List RedisClient} {pipelines : Nat → List (List Bytes)}
  {future : Nat → Bytes} {n : Node} {as : List Answer}

/-- Only the connections of the server count. -/
theorem Node.Consistent.of_eq (h : n.Consistent L E stack hL dbNum clients pipelines future ms as)
    {pipelines' : Nat → List (List Bytes)} {future' : Nat → Bytes}
    (heq : ∀ i rc₀, clients[i]? = some rc₀ → pipelines' i = pipelines i ∧ future' i = future i) :
    n.Consistent L E stack hL dbNum clients pipelines' future' ms as := by
  refine ⟨h.realises, h.spec, h.length, h.dbids, ?_⟩
  intro i rc₀ rc h₀ hrc
  obtain ⟨hpipeline, hfuture⟩ := heq i rc₀ h₀
  rw [hpipeline, hfuture]
  exact h.serving i rc₀ rc h₀ hrc

/-- One more command is going to be sent on connection `i`. -/
theorem Node.Consistent.enqueue (hproto : L.AppendsProto) (hemb : L.EmbedsSds)
    (hdb : ∀ rc ∈ clients, rc.dbid < dbNum)
    (h : n.Consistent L E stack hL dbNum clients pipelines future ms as) (i : Nat) {args : List Bytes}
    (hsend : Sendable args) (hsafe : Safe args) :
    n.Consistent L E stack hL dbNum clients (Function.update pipelines i (pipelines i ++ [args]))
      (Function.update future i (future i ++ encode args)) ms as := by
  refine ⟨h.realises, h.spec, h.length, h.dbids, ?_⟩
  intro j rc₀ rc h₀ hrc
  by_cases hj : j = i
  · subst hj
    obtain ⟨hdbid, hout, s, cmds, hcalls, hsafes, hawaits, hwait⟩ := h.serving j rc₀ rc h₀ hrc
    have hlt : rc.dbid < dbNum := hdbid ▸ hdb rc₀ (List.mem_of_getElem? h₀)
    have hall : ∀ args' ∈ cmds ++ [args], Safe args' := by
      intro args' hargs'
      rcases List.mem_append.mp hargs' with hargs' | hargs'
      · exact hsafes args' hargs'
      · exact List.mem_singleton.mp hargs' ▸ hsafe
    rw [Function.update_self, Function.update_self]
    refine ⟨hdbid, hout, s, cmds ++ [args], ?_, hall, ?_, hwait⟩
    · rw [← List.append_assoc, hcalls]
    · exact hawaits.enqueue hproto hemb hsend hall hlt h.realises
  · rw [Function.update_of_ne hj, Function.update_of_ne hj]
    exact h.serving j rc₀ rc h₀ hrc

theorem Node.step_read_none {M : Machine Server} {fuel i : Nat} {chunk : Bytes}
    (h : n.clients[i]? = none) : n.step M fuel (.read i chunk) = some n := by
  unfold Node.step
  dsimp only
  rw [h]

theorem Conn.conn_of_mem_requests {c : Conn Server} {i : Nat} {done : List (List Bytes)} {call : Call}
    (h : call ∈ c.requests i done) : call.conn = i ∧ call.dbid = c.rc.dbid := by
  obtain ⟨args, -, rfl⟩ := List.mem_map.mp h
  exact ⟨rfl, rfl⟩

theorem Conn.args_requests (c : Conn Server) (i : Nat) (done : List (List Bytes)) :
    (c.requests i done).map Call.args = done := by
  unfold Conn.requests
  rw [List.map_map]
  exact List.map_id done

/-- New calls are calls of the connection that made them. -/
theorem Node.callsOf_append {n' : Node} {c : Conn Server} {i : Nat} {done : List (List Bytes)}
    (h : n'.log = n.log ++ c.requests i done) :
    n'.callsOf i = n.callsOf i ++ done ∧ ∀ j, j ≠ i → n'.callsOf j = n.callsOf j := by
  unfold Node.callsOf
  rw [h]
  refine ⟨?_, fun j hj ↦ ?_⟩
  · have hall : (c.requests i done).filter (fun call ↦ call.conn = i) = c.requests i done := by
      refine List.filter_eq_self.mpr fun call hcall ↦ ?_
      exact decide_eq_true (Conn.conn_of_mem_requests hcall).1
    rw [List.filter_append, List.map_append, hall, c.args_requests]
  · have hnone : (c.requests i done).filter (fun call ↦ call.conn = j) = [] := by
      refine List.filter_eq_nil_iff.mpr fun call hcall ↦ ?_
      rw [decide_eq_true_eq, (Conn.conn_of_mem_requests hcall).1]
      exact hj.symm
    rw [List.filter_append, hnone, List.append_nil]

/-- The answers to new calls go to the connection that made them. -/
theorem Node.answersOf_served {n' : Node} {c : Conn Server} {i : Nat} {done : List (List Bytes)}
    {as' : List Answer} (h : n'.log = n.log ++ c.requests i done) (hlen : as.length = n.log.length)
    (hlen' : as'.length = done.length) :
    n'.answersOf (as ++ as') i = n.answersOf as i ++ as' ∧
      ∀ j, j ≠ i → n'.answersOf (as ++ as') j = n.answersOf as j := by
  have hreqs : (c.requests i done).length = as'.length := by
    rw [hlen', Conn.requests, List.length_map]
  unfold Node.answersOf
  rw [h, List.zip_append hlen.symm]
  refine ⟨?_, fun j hj ↦ ?_⟩
  · have hall : ((c.requests i done).zip as').filter (fun p ↦ p.1.conn = i) =
        (c.requests i done).zip as' := by
      refine List.filter_eq_self.mpr fun p hp ↦ ?_
      exact decide_eq_true (Conn.conn_of_mem_requests (List.of_mem_zip hp).1).1
    rw [List.filter_append, List.map_append, hall, List.map_snd_zip hreqs.ge]
  · have hnone : ((c.requests i done).zip as').filter (fun p ↦ p.1.conn = j) = [] := by
      refine List.filter_eq_nil_iff.mpr fun p hp ↦ ?_
      rw [decide_eq_true_eq, (Conn.conn_of_mem_requests (List.of_mem_zip hp).1).1]
      exact hj.symm
    rw [List.filter_append, hnone, List.append_nil]

theorem Answers.length_eq {c c' : Conn Server} {ms' : Keyspaces} {done : List (List Bytes)}
    (h : Answers L dbNum c ms done as c' ms') : as.length = done.length := by
  rw [Keyspaces.length_answerAll (h.spec 0), List.length_map, Conn.requests, List.length_map]

/-- A connection that was served for the calls `done` is the one they are written down for. -/
theorem Node.log_served {c : Conn Server} {i : Nat} {done : List (List Bytes)} {rc : RedisClient}
    (hcalls : c.calls = done) (hdbid : c.rc.dbid = rc.dbid) :
    (n.served i c).log = n.log ++ (n.conn rc).requests i done := by
  show n.log ++ c.calls.map _ = _
  rw [hcalls, hdbid]
  rfl

/-! One connection among many: the clock goes on, the connection is served, another one is. -/

section Serving

variable {i j : Nat} {pipeline : List (List Bytes)} {rest : Bytes} {rc₀ rc : RedisClient}
  {c : Conn Server} {done : List (List Bytes)} {as' : List Answer} {ms' : Keyspaces}

theorem Node.Serving.tick (hproto : L.AppendsProto) (hemb : L.EmbedsSds)
    (h : n.Serving L E stack hL as i pipeline rest rc₀ rc) (hdb : rc.dbid < dbNum)
    (hreal : n.server.Realises L dbNum ms) (clock : Clock) :
    Node.Serving L E stack hL { n with server := { n.server with clock := clock } } as i pipeline
      rest rc₀ rc := by
  obtain ⟨hdbid, hout, s, cmds, hcalls, hsafe, hawaits, hwait⟩ := h
  exact ⟨hdbid, hout, s, cmds, hcalls, hsafe,
    hawaits.withServer hproto hemb hsafe hdb (hreal.tick clock) _, hwait⟩

theorem Node.Serving.read (hproto : L.AppendsProto) (hemb : L.EmbedsSds) {chunk : Bytes}
    (h : n.Serving L E stack hL as i pipeline (chunk ++ rest) rc₀ rc) (hdb : rc.dbid < dbNum)
    (hreal : n.server.Realises L dbNum ms) (hlen : as.length = n.log.length) {fuel : Nat}
    (hfuel : pipeline.length < (n.callsOf i).length + fuel) :
    ∃ ret c done as' ms', serveRead (machine L E stack) fuel chunk (n.conn rc) = .returned ret c ∧
      Answers L dbNum (n.conn rc) ms done as' c ms' ∧
      (n.served i c).Serving L E stack hL (as ++ as') i pipeline rest rc₀ c.rc := by
  obtain ⟨hdbid, hout, s, cmds, hcalls, hsafe, hawaits, hwait⟩ := h
  have hcmds : cmds.length < fuel := by
    rw [← hcalls, List.length_append] at hfuel
    exact Nat.lt_of_add_lt_add_left hfuel
  obtain ⟨ret, c, s', done, cmds', as', ms', hread, hsplit, hawaits', hwait', hanswers⟩ :=
    hawaits.readAnswers hproto hemb hsafe hdb hreal hcmds
  have hcdb : c.rc.dbid = rc.dbid := hanswers.dbid
  have hlog : (n.served i c).log = n.log ++ (n.conn rc).requests i done :=
    Node.log_served hanswers.calls hcdb
  refine ⟨ret, c, done, as', ms', hread, hanswers, hcdb.trans hdbid, ?_, s', cmds', ?_, ?_, ?_, hwait'⟩
  · rw [hanswers.out, show (n.conn rc).rc.reply.out = _ from hout, Node.sentTo_eq, Node.sentTo_eq,
      (Node.answersOf_served hlog hlen hanswers.length_eq).1, List.flatMap_append, List.append_assoc]
  · rw [(Node.callsOf_append hlog).1, List.append_assoc, ← hsplit, hcalls]
  · exact fun args hargs ↦ hsafe args (hsplit ▸ List.mem_append_right done hargs)
  · refine hawaits'.withServer hproto hemb (fun args hargs ↦ ?_) (hcdb ▸ hdb) hanswers.realises _
    exact hsafe args (hsplit ▸ List.mem_append_right done hargs)

theorem Node.Serving.of_served (hproto : L.AppendsProto) (hemb : L.EmbedsSds)
    (h : n.Serving L E stack hL as j pipeline rest rc₀ rc) (hj : j ≠ i) (hdb : rc.dbid < dbNum)
    {c₀ : Conn Server} (hlog : (n.served i c).log = n.log ++ c₀.requests i done)
    (hlen : as.length = n.log.length) (hlen' : as'.length = done.length)
    (hreal : c.server.Realises L dbNum ms') :
    (n.served i c).Serving L E stack hL (as ++ as') j pipeline rest rc₀ rc := by
  obtain ⟨hdbid, hout, s, cmds, hcalls, hsafe, hawaits, hwait⟩ := h
  refine ⟨hdbid, ?_, s, cmds, ?_, hsafe, hawaits.withServer hproto hemb hsafe hdb hreal _, hwait⟩
  · rw [hout, Node.sentTo_eq, Node.sentTo_eq, (Node.answersOf_served hlog hlen hlen').2 j hj]
  · rw [(Node.callsOf_append hlog).2 j hj, hcalls]

/-- The requests of a connection that have been executed, and its commands when nothing
more is to come. -/
theorem Node.Serving.callsOf (h : n.Serving L E stack hL as i pipeline rest rc₀ rc) :
    n.callsOf i <+: pipeline ∧ (rest = [] → n.callsOf i = pipeline) := by
  obtain ⟨-, -, s, cmds, hcalls, -, hawaits, hwait⟩ := h
  refine ⟨⟨cmds, hcalls⟩, ?_⟩
  rintro rfl
  rw [← hcalls, ← (hawaits.finished hwait).1]
  exact (List.append_nil _).symm

end Serving

theorem Node.Consistent.length_eq (h : n.Consistent L E stack hL dbNum clients pipelines future ms as) :
    as.length = n.log.length := by
  rw [Keyspaces.length_answerAll h.spec, List.length_map]

/-- The clock goes on. -/
theorem Node.Consistent.tick (hproto : L.AppendsProto) (hemb : L.EmbedsSds)
    (hdb : ∀ rc ∈ clients, rc.dbid < dbNum)
    (h : n.Consistent L E stack hL dbNum clients pipelines future ms as) (clock : Clock) :
    Node.Consistent L E stack hL dbNum clients pipelines future
      { n with server := { n.server with clock := clock } } ms as := by
  refine ⟨h.realises.tick clock, h.spec, h.length, h.dbids, ?_⟩
  intro i rc₀ rc h₀ hrc
  have hserving := h.serving i rc₀ rc h₀ hrc
  exact hserving.tick hproto hemb (hserving.dbid ▸ hdb rc₀ (List.mem_of_getElem? h₀)) h.realises clock

theorem Node.Consistent.callsOf (h : n.Consistent L E stack hL dbNum clients pipelines future ms as)
    {i : Nat} {rc₀ : RedisClient} (h₀ : clients[i]? = some rc₀) :
    n.callsOf i <+: pipelines i ∧ (future i = [] → n.callsOf i = pipelines i) := by
  have hlt : i < n.clients.length := h.length ▸ (List.getElem?_eq_some_iff.mp h₀).1
  exact (h.serving i rc₀ _ h₀ (List.getElem?_eq_getElem hlt)).callsOf

/-- Bytes arrive on connection `i`, and it is served.  The log and the answers are only
added to. -/
theorem Node.Consistent.read (hproto : L.AppendsProto) (hemb : L.EmbedsSds)
    (hdb : ∀ rc ∈ clients, rc.dbid < dbNum) {i : Nat} {chunk : Bytes} (rest : Bytes)
    (h : n.Consistent L E stack hL dbNum clients pipelines future ms as)
    (hfuture : future i = chunk ++ rest) {fuel : Nat}
    (hfuel : (pipelines i).length < (n.callsOf i).length + fuel)
    {rc₀ rc : RedisClient} (h₀ : clients[i]? = some rc₀) (hrc : n.clients[i]? = some rc) :
    ∃ n' ms' as', n.step (machine L E stack) fuel (.read i chunk) = some n' ∧
      n'.Consistent L E stack hL dbNum clients pipelines (Function.update future i rest) ms' as' ∧
      n.log <+: n'.log ∧ as <+: as' := by
  have hserving := h.serving i rc₀ rc h₀ hrc
  rw [hfuture] at hserving
  obtain ⟨ret, c, done, as', ms', hread, hanswers, hserving'⟩ := hserving.read hproto hemb
    (hserving.dbid ▸ hdb rc₀ (List.mem_of_getElem? h₀)) h.realises h.length_eq hfuel
  have hlog : (n.served i c).log = n.log ++ (n.conn rc).requests i done :=
    Node.log_served hanswers.calls hanswers.dbid
  refine ⟨n.served i c, ms', as ++ as', ?_, ⟨hanswers.realises, ?_, ?_, ?_, ?_⟩,
    hlog ▸ List.prefix_append .., List.prefix_append ..⟩
  · unfold Node.step
    dsimp only
    rw [hrc]
    dsimp only
    rw [hread]
  · rw [hlog, List.map_append]
    exact Keyspaces.answerAll_append h.spec (hanswers.spec i)
  · exact List.length_set.trans h.length
  · intro call hcall
    rw [hlog, List.mem_append] at hcall
    rcases hcall with hcall | hcall
    · exact h.dbids call hcall
    · obtain ⟨hconn, hcall⟩ := Conn.conn_of_mem_requests hcall
      exact ⟨rc₀, by rw [hconn, h₀], hcall.trans hserving.dbid⟩
  · intro j rc₁ rc' h₁ hrc'
    have hget : (n.clients.set i c.rc)[j]? = some rc' := hrc'
    by_cases hj : j = i
    · subst hj
      rw [List.getElem?_set_self (List.getElem?_eq_some_iff.mp hrc).1] at hget
      cases hget
      cases h₀.symm.trans h₁
      rw [Function.update_self]
      exact hserving'
    · rw [List.getElem?_set_ne (Ne.symm hj)] at hget
      have hother := h.serving j rc₁ rc' h₁ hget
      rw [Function.update_of_ne hj]
      exact hother.of_served hproto hemb hj (hother.dbid ▸ hdb rc₁ (List.mem_of_getElem? h₁)) hlog
        h.length_eq hanswers.length_eq hanswers.realises

/-- **Every run keeps the invariant**, and there is a run for every list of events. -/
theorem Node.Consistent.run (hproto : L.AppendsProto) (hemb : L.EmbedsSds)
    (hdb : ∀ rc ∈ clients, rc.dbid < dbNum) {fuel : Nat}
    (hfuel : ∀ i < clients.length, (pipelines i).length < fuel) {rest : Nat → Bytes}
    {es : List NodeEvent} (h : n.Consistent L E stack hL dbNum clients pipelines
      (fun i ↦ received i es ++ rest i) ms as) :
    ∃ n' ms' as', n.run (machine L E stack) fuel es = some n' ∧
      n'.Consistent L E stack hL dbNum clients pipelines rest ms' as' := by
  induction es generalizing n ms as with
  | nil => exact ⟨n, ms, as, rfl, h⟩
  | cons e es ih =>
      obtain ⟨n', ms', as', hstep, h'⟩ : ∃ n' ms' as', n.step (machine L E stack) fuel e = some n' ∧
          n'.Consistent L E stack hL dbNum clients pipelines (fun i ↦ received i es ++ rest i) ms' as' := by
        cases e with
        | tick clock => exact ⟨_, ms, as, rfl, h.tick hproto hemb hdb clock⟩
        | read i chunk =>
            cases hrc : n.clients[i]? with
            | none =>
                refine ⟨n, ms, as, Node.step_read_none hrc, h.of_eq fun j rc₀ h₀ ↦ ⟨rfl, ?_⟩⟩
                have hne : j ≠ i := by
                  rintro rfl
                  exact (List.getElem?_eq_none_iff.mp hrc).not_gt
                    (h.length ▸ (List.getElem?_eq_some_iff.mp h₀).1)
                rw [received_read_of_ne hne]
            | some rc =>
                have hlt : i < clients.length := h.length ▸ (List.getElem?_eq_some_iff.mp hrc).1
                obtain ⟨n', ms', as', hstep, h', -⟩ := h.read hproto hemb hdb
                  (received i es ++ rest i) (by rw [received_read_self, List.append_assoc])
                  (Nat.lt_add_left _ (hfuel i hlt)) (List.getElem?_eq_getElem hlt) hrc
                refine ⟨n', ms', as', hstep, ?_⟩
                convert h' using 1
                funext j
                by_cases hj : j = i
                · rw [hj, Function.update_self]
                · rw [Function.update_of_ne hj, received_read_of_ne hj]
      obtain ⟨n'', ms'', as'', hrun, hfinal⟩ := ih h'
      exact ⟨n'', ms'', as'', Node.run_cons_eq_some.mpr ⟨_, hstep, hrun⟩, hfinal⟩

end Nodes

/-- A client between two requests that has read everything. -/
structure RedisClient.AtRest (rc : RedisClient) : Prop where
  isReset : rc.IsReset
  argv : rc.argv ≠ .wild
  read : rc.qbPos = rc.querybuf.length
  isOpen : rc.Open

theorem RedisClient.AtRest.unread_eq (h : rc.AtRest) : rc.unread = [] := by
  rw [RedisClient.unread, h.read, List.drop_length]

variable (E stack) in
/-- A connection on which nothing has arrived. -/
theorem Node.serving_start (hL : L.StrictString2ll) (hproto : L.AppendsProto) (hemb : L.EmbedsSds)
    {n : Node} (hreal : n.server.Realises L dbNum ms) (hlog : n.log = []) {rc : RedisClient}
    (hrest : rc.AtRest) (hdb : rc.dbid < dbNum) (i : Nat) {pipeline : List (List Bytes)}
    (hpipeline : ∀ args ∈ pipeline, Sendable args ∧ Safe args) :
    n.Serving L E stack hL [] i pipeline (encodeAll pipeline) rc rc := by
  obtain ⟨hreq, hargc, hmbl, hbl⟩ := hrest.isReset
  have hsafe : ∀ args ∈ pipeline, Safe args := fun args hargs ↦ (hpipeline args hargs).2
  have hsend : ∀ args ∈ pipeline, Sendable args := fun args hargs ↦ (hpipeline args hargs).1
  refine ⟨rfl, ?_, .count, pipeline, ?_, hsafe,
    ⟨⟨hmbl, hbl, hargc, hrest.argv⟩, hrest.read.le, hrest.isOpen, .inl ⟨hreq, rfl⟩, hsend,
      serves_of_safe hproto hemb hdb hsafe hreal, rfl, ?_⟩, ?_⟩
  · unfold Node.sentTo
    rw [hlog]
    exact (List.append_nil _).symm
  · unfold Node.callsOf
    rw [hlog]
    rfl
  · show Streams _ .count pipeline (rc.unread ++ _)
    rw [hrest.unread_eq]
    exact streams_encodeAll hL hsend
  · rw [hrest.unread_eq]
    exact multibulkStep_nil _ _ _

variable (E stack) in
/-- Before anything has arrived. -/
theorem Node.consistent_start (hL : L.StrictString2ll) (hproto : L.AppendsProto) (hemb : L.EmbedsSds)
    {hz : Int} (hhz : hz ≠ 0) (clock : Clock) {clients : List RedisClient}
    (hclients : ∀ rc ∈ clients, rc.AtRest ∧ rc.dbid < dbNum) {pipelines : Nat → List (List Bytes)}
    (hpipelines : ∀ i, ∀ args ∈ pipelines i, Sendable args ∧ Safe args) :
    Node.Consistent L E stack hL dbNum clients pipelines (fun i ↦ encodeAll (pipelines i))
      { server := startRedisServer dbNum hz clock, clients := clients } (fun _ ↦ .empty) [] := by
  have hreal := startRedisServer_realises L dbNum hhz clock
  refine ⟨hreal, rfl, rfl, by simp, ?_⟩
  intro i rc₀ rc h₀ hrc
  cases h₀.symm.trans hrc
  obtain ⟨hrest, hdb⟩ := hclients rc₀ (List.mem_of_getElem? h₀)
  exact Node.serving_start E stack hL hproto hemb hreal rfl hrest hdb i (hpipelines i)

theorem safe_set {k v : Bytes} (hk : (0 : UInt8) ∉ k) : Safe [ascii "set", k, v] :=
  ⟨ascii "set", [k, v], rfl, ⟨.set, by decide, by decide⟩, fun h ↦ absurd h (by decide),
    fun _ k' v' h ↦ by cases h; exact hk⟩

theorem safe_get (k : Bytes) : Safe [ascii "get", k] :=
  ⟨ascii "get", [k], rfl, ⟨.get, by decide, by decide⟩, fun h ↦ absurd h (by decide),
    fun h ↦ absurd h (by decide)⟩

theorem idle_atRest : RedisClient.idle.AtRest := ⟨by decide, by decide, rfl, ⟨rfl, rfl⟩⟩

end LatteRedis
