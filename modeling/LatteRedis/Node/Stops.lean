import LatteRedis.Client.Progress
import LatteRedis.Node.AnyBytes

/-!
# What stops the server

The server runs in one process, and a fault in the service of one connection ends the service
of all.  `stops_iff` lists the bytes that do this to a server which has loaded no module:
bytes behind a multibulk request for a command that does not exist, a `MODULE` without a
subcommand, and a `SET` of a key that is not there while the part in front of its first NUL
is.  No other bytes do, in whatever pieces they arrive and whatever has happened before.

Going round the loop for ever is not a fault.  That is the matter of `Client.InlineLines`.
-/

namespace LatteRedis

open ByteString Incremental Resp Expiring

variable {L : LatteC} {E : Extension} {stack : Nat → Int} {dbNum : Nat} {server : Server}
  {ms : Keyspaces}

/-! ## Requests without an answer -/

theorem Keyspace.set_eq_none_iff {t : Int} {k v : Bytes} {m : Keyspace} :
    m.set t k v = none ↔ m.reap t k k = none ∧ (m.reap t k (cString k)).isSome := by
  unfold Keyspace.set
  dsimp only
  split
  · next hkey =>
      refine iff_of_false (by simp) fun h ↦ ?_
      rw [h.1] at hkey
      cases hkey
  · next hkey =>
      rw [Option.not_isSome_iff_eq_none] at hkey
      split
      · next hstring => exact iff_of_true rfl ⟨hkey, hstring⟩
      · next hstring => exact iff_of_false (by simp) fun h ↦ hstring h.2

theorem Keyspace.answer_eq_none_iff {t : Int} {name : Bytes} {operands : List Bytes} {m : Keyspace} :
    m.answer L t name operands = none ↔
      (Verb.named name = some .module ∧ operands = []) ∨
        ∃ k v, Verb.named name = some .set ∧ operands = [k, v] ∧ m.reap t k k = none ∧
          (m.reap t k (cString k)).isSome := by
  unfold Keyspace.answer
  cases Verb.named name with
  | none => simp
  | some verb =>
      cases verb with
      | quit | info => simp
      | module => rcases operands with _ | ⟨_, _ | ⟨_, _⟩⟩ <;> simp
      | ping | expire | get => rcases operands with _ | ⟨_, _ | ⟨_, _ | ⟨_, _⟩⟩⟩ <;> simp
      | set =>
          rcases operands with _ | ⟨k, _ | ⟨v, _ | ⟨_, _⟩⟩⟩
          · simp
          · simp
          · dsimp only
            rw [Keyspace.set_eq_none_iff]
            simp
          · simp

/-- A request that loads a module has an answer, and its handler returns. -/
theorem Request.LoadsModule.execute (hproto : L.AppendsProto) {r : Request} (h : r.LoadsModule)
    (hreal : server.Realises L dbNum ms) (m : Keyspace) :
    (∃ p, r.execute L E server = .ok p) ∧ m.answer L r.clock.mstime r.name r.operands ≠ none := by
  obtain ⟨hname, sub, path, rest, hops, -⟩ := h
  have hverb : Verb.named r.name = some .module := by
    unfold Verb.named
    rw [hname]
    decide
  constructor
  · rw [Request.execute_eq, commandManagerLookup_verb hreal.commands, hverb]
    refine (moduleCommand_ok_iff hproto (r.called_holds Verb.module.command)).mpr ?_
    rw [hops]
    exact List.cons_ne_nil _ _
  · rw [Ne, Keyspace.answer_eq_none_iff, hverb, hops]
    simp

/-- **A handler stops the server exactly if the request has no answer.** -/
theorem Request.execute_error_iff (hproto : L.AppendsProto) (hemb : L.EmbedsSds) {r : Request}
    (hdb : r.client.dbid < dbNum) (hreal : server.Realises L dbNum ms) :
    (∃ f, r.execute L E server = .error f) ↔
      (ms r.client.dbid).answer L r.clock.mstime r.name r.operands = none := by
  by_cases hload : r.LoadsModule
  · obtain ⟨⟨p, hp⟩, hanswer⟩ := hload.execute (E := E) hproto hreal (ms r.client.dbid)
    refine iff_of_false ?_ hanswer
    rintro ⟨f, hf⟩
    cases hp.symm.trans hf
  · have hrefines := Request.execute_realises (E := E) hproto
      (r := r) ⟨hdb, hload, fun i o ↦ r.sends hemb⟩ hreal
    constructor
    · rintro ⟨f, hf⟩
      rw [hf] at hrefines
      cases hanswer : (ms r.client.dbid).answer L r.clock.mstime r.name r.operands with
      | none => rfl
      | some p =>
          rw [hanswer] at hrefines
          obtain ⟨q, hq, -⟩ := hrefines.eq_ok
          cases hq
    · intro hanswer
      cases hrun : r.execute L E server with
      | error f => exact ⟨f, rfl⟩
      | ok p =>
          obtain ⟨q, hq, -⟩ := hrefines.eq_some hrun
          rw [hanswer] at hq
          cases hq

/-! ## One iteration -/

variable {c : Conn Server}

variable (stack c) in
/-- The reset behind a handler returns, so it is the handler that stops the server. -/
theorem processCommandAndResetClient_error_iff {r : Request} (hclient : r.client = c.rc)
    (hclock : r.clock = c.server.clock) :
    (∃ f, processCommandAndResetClient (machine L E stack) c = .error f) ↔
      ∃ f, r.execute L E c.server = .error f := by
  have hholds : c.rc.Holds (r.name :: r.operands) := hclient ▸ r.holds
  obtain ⟨o, ho, htext, hcontent⟩ := hholds.argvAt (i := 0) rfl
  have harrives : r.arrives c.server = c.server := by
    unfold Request.arrives
    rw [hclock]
  have hcalled : ∀ cmd, r.called cmd = { c.rc with cmd := .live cmd, lastcmd := .live cmd } := by
    intro cmd
    unfold Request.called
    rw [hclient]
  rw [Request.execute_eq, harrives]
  unfold processCommandAndResetClient
  rw [processCommand_eq ho (htext.2.trans (congrArg _ hcontent))]
  cases hlookup : commandManagerLookup c.server r.name with
  | none =>
      rw [show (machine L E stack).backend.lookup c.server r.name = _ from hlookup]
      refine iff_of_false ?_ ?_ <;>
      · rintro ⟨f, hf⟩
        cases hf
  | some cmd =>
      rw [show (machine L E stack).backend.lookup c.server r.name = _ from hlookup]
      dsimp only
      rw [hcalled]
      cases hrun : cmd.proc.run L E c.server { c.rc with cmd := .live cmd, lastcmd := .live cmd } with
      | error f =>
          rw [show (machine L E stack).backend.proc cmd c.server
            { c.rc with cmd := .live cmd, lastcmd := .live cmd } = _ from hrun]
          exact iff_of_true ⟨f, rfl⟩ ⟨f, rfl⟩
      | ok p =>
          obtain ⟨server, rc₁⟩ := p
          have hframe := CommandProc.run_sameParser hrun
          have hreset : resetRedisClient rc₁ = .ok _ := resetRedisClient_ok
            (by rw [hframe]; simp) (by rw [hframe]; exact hholds.args_eq.1)
          rw [show (machine L E stack).backend.proc cmd c.server
            { c.rc with cmd := .live cmd, lastcmd := .live cmd } = _ from hrun]
          refine iff_of_false ?_ ?_
          · rintro ⟨f, hf⟩
            simp only [Except.map, Run.ok_bind, commandProcessed, if_true] at hf
            rw [hreset] at hf
            cases hf
          · rintro ⟨f, hf⟩
            cases hf

/-- Why the next iteration is the last one. -/
inductive Conn.Doomed (M : Machine Server) (ms : Keyspaces) (c : Conn Server) : Prop
  | /-- The request in front of the bytes was a multibulk one for a command that does not
    exist. -/
    unknown (hstuck : Stuck c.rc) {name : Bytes} {operands : List Bytes}
      (hholds : c.rc.Holds (name :: operands)) (hname : Verb.named name = none)
  | /-- The bytes complete a `MODULE` without a subcommand. -/
    bareModule {rc : RedisClient} {k : Nat} {name : Bytes}
      (hparse : parseRequest M c.selected = .ok (0, { c with rc := rc, inlineCalls := k }))
      (hholds : rc.Holds [name]) (hname : Verb.named name = some .module)
  | /-- The bytes complete a `SET` of a key that is not there, but its C string is. -/
    blockedSet {rc : RedisClient} {k : Nat} {name key v : Bytes}
      (hparse : parseRequest M c.selected = .ok (0, { c with rc := rc, inlineCalls := k }))
      (hholds : rc.Holds [name, key, v]) (hname : Verb.named name = some .set)
      (hmissing : (ms c.rc.dbid).reap c.server.clock.mstime key key = none)
      (hpresent : ((ms c.rc.dbid).reap c.server.clock.mstime key (cString key)).isSome)

/-- The bytes complete a request: then the iteration is the last one if that request has no
answer. -/
theorem Conn.doomed_iff {M : Machine Server} {rc : RedisClient} {k : Nat} {name : Bytes}
    {operands : List Bytes}
    (hparse : parseRequest M c.selected = .ok (0, { c with rc := rc, inlineCalls := k }))
    (hholds : rc.Holds (name :: operands)) :
    c.Doomed M ms ↔ (ms c.rc.dbid).answer L c.server.clock.mstime name operands = none := by
  rw [Keyspace.answer_eq_none_iff]
  constructor
  · intro h
    cases h with
    | unknown hstuck => cases hparse.symm.trans hstuck.parseRequest
    | bareModule hparse' hholds' hname =>
        cases hparse.symm.trans hparse'
        cases hholds.args_eq.2.symm.trans hholds'.args_eq.2
        exact .inl ⟨hname, rfl⟩
    | blockedSet hparse' hholds' hname hmissing hpresent =>
        cases hparse.symm.trans hparse'
        cases hholds.args_eq.2.symm.trans hholds'.args_eq.2
        exact .inr ⟨_, _, hname, rfl, hmissing, hpresent⟩
  · rintro (⟨hname, rfl⟩ | ⟨key, v, hname, rfl, hmissing, hpresent⟩)
    · exact .bareModule hparse hholds hname
    · exact .blockedSet hparse hholds hname hmissing hpresent

/-- No request is complete. -/
theorem Conn.not_doomed {M : Machine Server} {code : Int} {rc : RedisClient} {k : Nat}
    (hparse : parseRequest M c.selected = .ok (code, { c with rc := rc, inlineCalls := k }))
    (h : code ≠ 0 ∨ rc.argc = 0) : ¬ c.Doomed M ms := by
  have hnone : ∀ {rc' : RedisClient} {k' : Nat} {name : Bytes} {operands : List Bytes},
      parseRequest M c.selected = .ok (0, { c with rc := rc', inlineCalls := k' }) →
      ¬ rc'.Holds (name :: operands) := by
    intro rc' k' name operands hparse' hholds
    cases hparse.symm.trans hparse'
    have hargc := hholds.argc_eq
    rcases h with hne | hzero
    · exact hne rfl
    · omega
  intro hdoomed
  cases hdoomed with
  | unknown hstuck => cases hparse.symm.trans hstuck.parseRequest
  | bareModule hparse' hholds => exact hnone hparse' hholds
  | blockedSet hparse' hholds => exact hnone hparse' hholds

/-- **One iteration stops the server exactly for these reasons.** -/
theorem Standing.loopBody_error_iff (hL : L.StrictString2ll) (hproto : L.AppendsProto) (hemb : L.EmbedsSds)
    (h : Standing c.rc) (hcmd : c.rc.cmd ≠ .wild) (hdb : c.rc.dbid < dbNum)
    (hreal : c.server.Realises L dbNum ms) :
    (∃ f, loopBody (machine L E stack) c = .error f) ↔
      c.rc.unread ≠ [] ∧ c.rc.Open ∧ c.Doomed (machine L E stack) ms := by
  by_cases hopen : c.rc.unread ≠ [] ∧ c.rc.Open
  · obtain ⟨hu, hreply, hasap⟩ := hopen
    rw [loopBody_eq hu hreply hasap]
    rw [and_iff_right hu, and_iff_right (show c.rc.Open from ⟨hreply, hasap⟩)]
    rcases h.parses E stack hL hproto hu with
      ⟨code, rc, k, hp, ⟨hdbid, hcmd'⟩, -, ⟨rfl, -⟩ | ⟨rfl, hfilled⟩⟩ |
      ⟨hstuck, name, operands, hholds, hname⟩
    · rw [hp, Run.ok_bind]
      refine iff_of_false ?_ (Conn.not_doomed hp (.inl (by decide)))
      rintro ⟨f, hf⟩
      cases hf
    · rw [hp, Run.ok_bind]
      dsimp only
      rw [if_neg (by decide)]
      by_cases hargc : rc.argc = 0
      · rw [if_pos hargc]
        refine iff_of_false ?_ (Conn.not_doomed hp (.inr hargc))
        rw [resetRedisClient_ok (hcmd'.symm ▸ hcmd) (by
          rw [RedisClient.args_of_argc_eq_zero hargc, hargc]
          rfl)]
        rintro ⟨f, hf⟩
        cases hf
      · rw [if_neg hargc]
        obtain ⟨name, operands, hholds⟩ := hfilled.holds.resolve_left hargc
        let r : Request := ⟨rc, name, operands, c.server.clock, hholds⟩
        rw [Conn.doomed_iff (L := L) hp hholds, ← hdbid,
          ← Request.execute_error_iff (E := E) (r := r) hproto hemb (hdbid.symm ▸ hdb) hreal,
          ← processCommandAndResetClient_error_iff stack { c with rc := rc, inlineCalls := k }
            (r := r) rfl rfl]
        -- behind the request the iteration only looks at what it returned
        cases processCommandAndResetClient (machine L E stack)
          { c with rc := rc, inlineCalls := k } with
        | error f => exact iff_of_true ⟨f, rfl⟩ ⟨f, rfl⟩
        | ok p =>
            refine iff_of_false ?_ ?_
            · rintro ⟨f, hf⟩
              obtain ⟨code, c'⟩ := p
              rw [Run.ok_bind] at hf
              dsimp only at hf
              split at hf <;> cases hf
            · rintro ⟨f, hf⟩
              cases hf
    · rw [hstuck.parseRequest]
      exact iff_of_true ⟨_, rfl⟩ (.unknown hstuck hholds hname)
  · refine iff_of_false ?_ fun ⟨hu, hop, _⟩ ↦ hopen ⟨hu, hop⟩
    rintro ⟨f, hf⟩
    unfold loopBody at hf
    split at hf
    · cases hf
    · next hu =>
        split at hf
        · cases hf
        · next hclosed =>
            rw [not_not, ← unread_ne_nil_iff] at hu
            rw [not_or, Bool.not_eq_true, Bool.not_eq_true] at hclosed
            exact hopen ⟨hu, hclosed⟩

/-! ## Reads -/

section Loop

variable {σ : Type} {M : Machine σ} {c c' : Conn σ} {f : Fault}

/-- Iterations made are iterations the loop need not make. -/
theorem Iterated.redisProcessInputBuffer_eq {k : Nat} (h : Iterated M c k c') (fuel : Nat) :
    redisProcessInputBuffer M (k + fuel) c = redisProcessInputBuffer M fuel c' := by
  induction h generalizing fuel with
  | zero => rw [Nat.zero_add]
  | succ _ hbody ih => rw [Nat.add_assoc, Nat.add_comm 1 fuel, ih, redisProcessInputBuffer, hbody]

/-- A call that stops the server has got to the iteration that does. -/
theorem redisProcessInputBuffer_faulted_iff :
    (∃ fuel, redisProcessInputBuffer M fuel c = .faulted f c') ↔
      ∃ k, Iterated M c k c' ∧ loopBody M c' = .error f := by
  constructor
  · rintro ⟨fuel, h⟩
    induction fuel generalizing c with
    | zero => cases h
    | succ fuel ih =>
        rw [redisProcessInputBuffer] at h
        split at h
        · next hbody =>
            cases h
            exact ⟨0, .zero, hbody⟩
        · cases h
        · next hbody =>
            obtain ⟨k, hrun, hlast⟩ := ih h
            exact ⟨k + 1, hrun.cons hbody, hlast⟩
  · rintro ⟨k, hrun, hlast⟩
    exact ⟨k + 1, by rw [hrun.redisProcessInputBuffer_eq, redisProcessInputBuffer, hlast]⟩

theorem serveRead_faulted_iff {chunk : Bytes} :
    (∃ fuel, serveRead M fuel chunk c = .faulted f c') ↔
      ∃ k, Iterated M (deliver chunk c) k c' ∧ loopBody M c' = .error f := by
  rw [← redisProcessInputBuffer_faulted_iff]
  refine exists_congr fun fuel ↦ ?_
  unfold serveRead
  split
  · next hcall =>
      rw [hcall]
      exact iff_of_false (by simp) (by simp)
  · exact Iff.rfl

end Loop

/-- Round the loop, as long as no module is loaded. -/
theorem Standing.iterated (hL : L.StrictString2ll) (hproto : L.AppendsProto) (hemb : L.EmbedsSds)
    (h : Standing c.rc) (hdb : c.rc.dbid < dbNum) (hreal : c.server.Realises L dbNum ms) {k : Nat}
    {c' : Conn Server} (hrun : Iterated (machine L E stack) c k c')
    (hloads : ∀ args ∈ c'.calls, ¬ Loads args) :
    ∃ done ps ms', Heard L dbNum c ms done ps c' ms' ∧ Standing c'.rc := by
  induction hrun with
  | zero =>
      obtain ⟨ps, hheard⟩ := Heard.of_rebuffed c c hreal rfl rfl rfl id (.refl _)
      exact ⟨[], ps, ms, hheard, h⟩
  | succ _ hbody ih =>
      obtain ⟨done, ps, ms₁, hheard, hstanding⟩ :=
        ih fun args hargs ↦ hloads args ((loopBody_calls hbody).subset hargs)
      obtain ⟨done', ps', ms', hheard', hstanding'⟩ := hstanding.iterate hL hproto hemb
        (hheard.dbid.symm ▸ hdb) hheard.realises hbody hloads
      exact ⟨done ++ done', ps ++ ps', ms', hheard.trans hheard', hstanding'⟩

/-- The iterations of a read, behind any run. -/
theorem Node.Withstands.iterated {hL : L.StrictString2ll} {clients : List RedisClient}
    {honest : Nat → Prop} {pipelines : Nat → List (List Bytes)} {future : Nat → Bytes} {n : Node}
    {as : List Answer} (hproto : L.AppendsProto) (hemb : L.EmbedsSds)
    (hclients : ∀ rc ∈ clients, rc.dbid < dbNum ∧ rc.cmd ≠ .wild)
    (h : n.Withstands L E stack hL dbNum clients honest pipelines future ms as) {i : Nat}
    {rc : RedisClient} (hrc : n.clients[i]? = some rc) {chunk : Bytes} {k : Nat} {c : Conn Server}
    (hiter : Iterated (machine L E stack) (deliver chunk (n.conn rc)) k c)
    (hloads : ∀ call ∈ (n.conn rc).requests i c.calls, ¬ call.request.LoadsModule) :
    ∃ ms' as', Keyspaces.answerAll L (fun _ ↦ .empty)
        ((n.log ++ (n.conn rc).requests i c.calls).map Call.request) = some (ms', as') ∧
      ((∃ f, loopBody (machine L E stack) c = .error f) ↔
        c.rc.unread ≠ [] ∧ c.rc.Open ∧ c.Doomed (machine L E stack) ms') := by
  obtain ⟨rc₀, h₀⟩ : ∃ rc₀, clients[i]? = some rc₀ :=
    ⟨_, List.getElem?_eq_getElem (h.length ▸ (List.getElem?_eq_some_iff.mp hrc).1)⟩
  obtain ⟨hlt, hlive⟩ := hclients rc₀ (List.mem_of_getElem? h₀)
  obtain ⟨hstanding, hdbid, hcmd, -⟩ := h.stands i rc₀ rc h₀ hrc
  have hdeliver : Standing (deliver chunk (n.conn rc)).rc :=
    Standing.deliver (c := n.conn rc) hstanding chunk
  have hdb : (deliver chunk (n.conn rc)).rc.dbid < dbNum := lt_of_eq_of_lt hdbid hlt
  obtain ⟨done, ps, ms', hheard, hstanding'⟩ := hdeliver.iterated hL hproto hemb hdb h.realises hiter
    fun args hargs hload ↦ hloads _ (List.mem_map_of_mem hargs) (Loads.loadsModule hload)
  obtain rfl : c.calls = done := hheard.calls
  refine ⟨ms', as ++ ps.filterMap Piece.answer?, ?_, ?_⟩
  · rw [List.map_append]
    exact Keyspaces.answerAll_append h.spec (hheard.spec i)
  · exact hstanding'.loopBody_error_iff hL hproto hemb (hheard.cmd (hcmd hlive)) (hheard.dbid ▸ hdb)
      hheard.realises

/-- An iteration behind any run of a server that has just started. -/
theorem Node.loopBody_error_iff {hz : Int} {clock : Clock} {clients : List RedisClient}
    {es : List NodeEvent} {fuel : Nat} {n : Node} {i : Nat} {rc : RedisClient} {chunk : Bytes}
    {k : Nat} {c : Conn Server} (hL : L.StrictString2ll) (hproto : L.AppendsProto)
    (hemb : L.EmbedsSds) (hhz : hz ≠ 0)
    (hclients : ∀ rc ∈ clients, rc.AtRest ∧ rc.dbid < dbNum ∧ rc.cmd ≠ .wild)
    (hrun : Node.run (machine L E stack) fuel
      { server := startRedisServer dbNum hz clock, clients := clients } es = some n)
    (hrc : n.clients[i]? = some rc)
    (hiter : Iterated (machine L E stack) (deliver chunk (n.conn rc)) k c)
    (hloads : ∀ call ∈ n.log ++ (n.conn rc).requests i c.calls, ¬ call.request.LoadsModule) :
    ∃ ms as, Keyspaces.answerAll L (fun _ ↦ .empty)
        ((n.log ++ (n.conn rc).requests i c.calls).map Call.request) = some (ms, as) ∧
      ((∃ f, loopBody (machine L E stack) c = .error f) ↔
        c.rc.unread ≠ [] ∧ c.rc.Open ∧ c.Doomed (machine L E stack) ms) := by
  obtain ⟨ms₁, as₁, hbefore⟩ := Node.Withstands.of_run hL hproto hemb hhz
    (fun rc hrc ↦ ⟨(hclients rc hrc).1, (hclients rc hrc).2.1⟩) hrun
    fun call hcall ↦ hloads call (List.mem_append_left _ hcall)
  exact hbefore.iterated hproto hemb (fun rc hrc ↦ (hclients rc hrc).2) hrc hiter
    fun call hcall ↦ hloads call (List.mem_append_right _ hcall)

/-- The client behind the line `MODULE`. -/
def moduleParsed : RedisClient :=
  { RedisClient.idle with
    querybuf := ascii "MODULE" ++ crlf, qbPos := 8, reqType := protoReqInline, argc := 1
    argv := .live ⟨1, [latteObjectNew (ascii "MODULE")]⟩, argvLenSum := 6 }

end LatteRedis
