import LatteRedis.Keyspace.RefCounts

/-!
# Connections that are closed (`redis_client_delete`)

A connection may be closed at any moment, in the middle of a request too.  The function the
library calls then is one line, `zfree`: the references in the argument vector are neither
used nor given up.  A `Ledger` is a `State` whose connections may be closed, with a note of
the references that went with them.

Nothing else suffers from it: the count of every object is the number of its holders and of
these notes (`count_eq_holders_and_gone`).  So nothing that is held is ever freed, what a
closed connection had in its argument vector is never freed, and a connection that is closed
between two requests leaves nothing behind.
-/

namespace LatteRedis.Counted

open ByteString RefCount

/-- A server, its connections, and the references that went with connections. -/
structure Ledger extends State where
  gone : List ObjId := []

/-- What can happen to a server whose connections may be closed. -/
inductive LedgerEvent where
  | step (e : Event)
  | disconnect (i : Nat)

variable (L : LatteC)

/-- One step; `redis_client_delete` frees the client and looks at nothing in it. -/
def Ledger.step (l : Ledger) : LedgerEvent → Except Fault (Option Ledger)
  | .step e => do
      let st? ← l.toState.step L e
      return st?.map fun st ↦ { l with toState := st }
  | .disconnect i =>
      .ok (l.clients[i]?.map fun c ↦
        { l with clients := l.clients.eraseIdx i, gone := l.gone ++ c.slots })

def Ledger.run : List LedgerEvent → Ledger → Except Fault (Option Ledger)
  | [], l => .ok (some l)
  | e :: events, l => do
      match ← l.step L e with
      | none => return none
      | some l => l.run events

variable {L}

/-- What holds between two requests. -/
structure Ledger.Sound (l : Ledger) : Prop where
  refines : ∃ server, Refines (l.argvs + l.gone) l.server server
  faithful : ∀ c ∈ l.clients, c.Faithful l.server.heap

theorem State.Sound.ledger {st : State} (h : st.Sound) : (⟨st, []⟩ : Ledger).Sound := by
  refine ⟨?_, h.faithful⟩
  obtain ⟨server, hrefines⟩ := h.refines
  exact ⟨server, by rwa [Multiset.coe_nil, add_zero]⟩

/-! ## Steps -/

section Steps

variable {l : Ledger} {i : Nat} {c c' : Client}

/-- What the others hold, and what this connection holds. -/
theorem Ledger.argvs_split (hc : l.clients[i]? = some c) :
    ∃ rest, l.argvs = rest + (c.argv : Multiset ObjId) ∧ ∀ c' : Client,
      (l.setClient i c').argvs = rest + (c'.argv : Multiset ObjId) :=
  sum_map_split (f := fun c : Client ↦ (c.argv : Multiset ObjId)) hc

theorem Ledger.Sound.setClient (h : l.Sound) (hc : l.clients[i]? = some c) (hargv : c'.argv = c.argv)
    (hfaithful : c'.Faithful l.server.heap) :
    ({ l with toState := l.setClient i c' } : Ledger).Sound := by
  obtain ⟨rest, hsum, hset⟩ := Ledger.argvs_split hc
  refine ⟨?_, fun c₁ hc₁ ↦ ?_⟩
  · obtain ⟨server, hrefines⟩ := h.refines
    refine ⟨server, ?_⟩
    show Refines ((l.setClient i c').argvs + l.gone) l.server server
    rw [hset c', hargv, ← hsum]
    exact hrefines
  · rcases List.mem_or_eq_of_mem_set hc₁ with hc₁ | rfl
    · exact h.faithful c₁ hc₁
    · exact hfaithful

/-- A connection is served: what it does to the counts it does to its own references. -/
theorem Ledger.Sound.serve (h : l.Sound) (hc : l.clients[i]? = some c) {s : Server}
    (hb : loopBody L l.server c = .ok (some (s, c'))) :
    ({ l with toState := { l.setClient i c' with server := s } } : Ledger).Sound := by
  obtain ⟨rest, hsum, hset⟩ := Ledger.argvs_split hc
  obtain ⟨server, hrefines⟩ := h.refines
  have hc₀ := h.faithful c (List.mem_of_getElem? hc)
  rw [hsum, add_comm rest, add_assoc] at hrefines
  have hloop : _ ∨ Run.Related _ _ (LatteRedis.loopBody (machine L .absent fun _ ↦ 0)
      { rc := c.rc, server := server }) := loopBody_refines hrefines hc₀ rfl
  rcases hloop with hnone | hrel
  · rw [hb] at hnone
    cases hnone
  · rw [hb] at hrel
    obtain ⟨it, -, r, hr, hsettled⟩ := hrel.ok_eq
    cases hr
    refine ⟨⟨it.conn.server, ?_⟩, fun c₁ hc₁ ↦ ?_⟩
    · show Refines ((l.setClient i c').argvs + l.gone) s it.conn.server
      rw [hset c', add_comm rest, add_assoc]
      exact hsettled.refines
    · rcases List.mem_or_eq_of_mem_set hc₁ with hc₁ | rfl
      · exact (h.faithful c₁ hc₁).mono hsettled.keeps
      · exact hsettled.faithful

/-- A new connection holds nothing. -/
theorem Ledger.Sound.connect (h : l.Sound) {rc : RedisClient} (hargc : rc.argc = 0) :
    ({ l with clients := l.clients ++ [{ rc := rc }] } : Ledger).Sound := by
  refine ⟨?_, fun c hc ↦ ?_⟩
  · have hargvs : (⟨l.server, l.clients ++ [{ rc := rc }]⟩ : State).argvs = l.argvs := by
      simp [State.argvs]
    obtain ⟨server, hrefines⟩ := h.refines
    exact ⟨server, by rwa [hargvs]⟩
  · rcases List.mem_append.mp hc with hc | hc
    · exact h.faithful c hc
    · rw [List.mem_singleton.mp hc]
      refine ⟨.inl hargc, ?_⟩
      rw [RedisClient.args_of_argc_eq_zero hargc]
      exact .nil

/-- A connection is closed: its references are held by nobody, and the heap is as it was. -/
theorem Ledger.Sound.disconnect (h : l.Sound) (hc : l.clients[i]? = some c) :
    ({ l with clients := l.clients.eraseIdx i, gone := l.gone ++ c.slots } : Ledger).Sound := by
  have hslots := (h.faithful c (List.mem_of_getElem? hc)).slots_eq
  refine ⟨?_, fun c₁ hc₁ ↦ h.faithful c₁ (List.mem_of_mem_eraseIdx hc₁)⟩
  obtain ⟨server, hrefines⟩ := h.refines
  refine ⟨server, ?_⟩
  have hsplit : l.argvs = (⟨l.server, l.clients.eraseIdx i⟩ : State).argvs + (c.argv : Multiset ObjId) := by
    obtain ⟨hlt, rfl⟩ := List.getElem?_eq_some_iff.mp hc
    have hperm := (List.getElem_cons_eraseIdx_perm hlt).map fun c : Client ↦ (c.argv : Multiset ObjId)
    rw [State.argvs, ← hperm.sum_eq, List.map_cons, List.sum_cons, add_comm]
    rfl
  show Refines ((⟨l.server, l.clients.eraseIdx i⟩ : State).argvs + (l.gone ++ c.slots : List ObjId))
    l.server server
  rw [hslots, ← Multiset.coe_add, add_comm (l.gone : Multiset ObjId), ← add_assoc, ← hsplit]
  exact hrefines

/-- **A step.** -/
theorem Ledger.Sound.step {l' : Ledger} {e : LedgerEvent} (h : l.Sound)
    (hstep : l.step L e = .ok (some l')) : l'.Sound ∧ l.gone <+: l'.gone := by
  cases e with
  | disconnect i =>
      obtain ⟨c, hc, rfl⟩ := Option.map_eq_some_iff.mp (Except.ok.inj hstep)
      exact ⟨h.disconnect hc, List.prefix_append ..⟩
  | step e =>
      obtain ⟨st?, hst, hmap⟩ := Run.bind_eq_ok.mp hstep
      obtain ⟨st, rfl, rfl⟩ := Option.map_eq_some_iff.mp (Except.ok.inj hmap)
      refine ⟨?_, List.prefix_rfl⟩
      cases e with
      | connect rc =>
          have hsome := Except.ok.inj hst
          split at hsome
          · next hargc =>
              cases hsome
              exact h.connect hargc
          · cases hsome
      | read i chunk =>
          obtain ⟨c, hc, rfl⟩ := Option.map_eq_some_iff.mp (Except.ok.inj hst)
          have hfaithful := h.faithful c (List.mem_of_getElem? hc)
          exact h.setClient hc rfl ⟨hfaithful.whole, hfaithful.argv⟩
      | consume i =>
          obtain ⟨c, hc, rfl⟩ := Option.map_eq_some_iff.mp (Except.ok.inj hst)
          have hfaithful := h.faithful c (List.mem_of_getElem? hc)
          exact h.setClient hc rfl ⟨hfaithful.whole, hfaithful.argv⟩
      | serve i =>
          dsimp only [State.step] at hst
          split at hst
          · cases hst
          · next c hc =>
              obtain ⟨r, hb, hst⟩ := Run.bind_eq_ok.mp hst
              cases r with
              | none => cases hst
              | some r =>
                  cases hst
                  exact h.serve hc hb
      | tick clock =>
          cases hst
          obtain ⟨server, hrefines⟩ := h.refines
          refine ⟨⟨{ server with clock := clock }, ?_, hrefines.balanced, hrefines.dbs⟩, h.faithful⟩
          have hsettings := hrefines.settings
          unfold Server.settings at hsettings ⊢
          cases server
          cases hsettings
          rfl

end Steps

theorem Ledger.Sound.run {events : List LedgerEvent} {l l' : Ledger} (h : l.Sound)
    (hrun : l.run L events = .ok (some l')) : l'.Sound ∧ l.gone <+: l'.gone := by
  induction events generalizing l with
  | nil =>
      cases hrun
      exact ⟨h, List.prefix_rfl⟩
  | cons e events ih =>
      obtain ⟨l₁, hstep, hrun⟩ := Run.bind_eq_ok.mp hrun
      cases l₁ with
      | none => cases hrun
      | some l₁ =>
          obtain ⟨h₁, hgone₁⟩ := h.step hstep
          obtain ⟨h', hgone⟩ := ih h₁ hrun
          exact ⟨h', hgone₁.trans hgone⟩

/-! ## Counts -/

theorem State.count_argvs {st : State} (h : ∀ c ∈ st.clients, c.Faithful st.server.heap) (o : ObjId) :
    st.argvs.count o = st.argvSlots o := by
  rw [State.argvs, State.argvSlots, count_sum_map]
  congr 1
  apply List.map_congr_left
  intro c hc
  rw [(h c hc).slots_eq, Multiset.coe_count]

theorem State.count_held (st : State) (o : ObjId) : st.server.held.count o = st.dbEntries o := by
  rw [Server.held, State.dbEntries, count_sum_map]
  simp only [count_values]

theorem Ledger.run_append (L : LatteC) (before after : List LedgerEvent) (l : Ledger) :
    l.run L (before ++ after) = l.run L before >>= fun l? ↦ l?.elim (.ok none) (Ledger.run L after) := by
  induction before generalizing l with
  | nil => rfl
  | cons e before ih =>
      show l.step L e >>= _ = (l.step L e >>= _) >>= _
      cases l.step L e with
      | error f => rfl
      | ok l? =>
          cases l? with
          | none => rfl
          | some l₁ => exact ih l₁

/-- **Closed connections.**  Connections come, send anything, are served in any order and are
closed at any moment.  In every state between two steps the count of an object is the number
of the argument slots of open connections and of the database entries that hold it, and of
the slots that held it when their connection was closed.  The last ones stay: an object that
went with a connection is never freed. -/
theorem count_eq_holders_and_gone (dbNum : Nat) (commands : List RedisCommand) (hz : Int)
    (maxmemoryPolicy : BitVec 32) (clock : Clock) (events : List LedgerEvent) (l : Ledger)
    (hrun : Ledger.run L events ⟨.start dbNum commands hz maxmemoryPolicy clock, []⟩ = .ok (some l)) :
    (∀ o, l.server.heap.count o = l.argvSlots o + l.dbEntries o + l.gone.count o) ∧
      ∀ before after, events = before ++ after → ∃ l₁, Ledger.run L before
          ⟨.start dbNum commands hz maxmemoryPolicy clock, []⟩ = .ok (some l₁) ∧
        l₁.gone <+: l.gone ∧ ∀ o ∈ l₁.gone, l.server.heap.count o ≠ 0 := by
  have hstart := (State.sound_start dbNum commands hz maxmemoryPolicy clock).ledger
  have hcount : ∀ o, l.server.heap.count o = l.argvSlots o + l.dbEntries o + l.gone.count o := by
    intro o
    obtain ⟨hsound, -⟩ := hstart.run hrun
    obtain ⟨server, hrefines⟩ := hsound.refines
    rw [hrefines.balanced o, Multiset.count_add, Multiset.count_add, Multiset.coe_count,
      State.count_argvs hsound.faithful, State.count_held, Nat.add_right_comm]
  refine ⟨hcount, ?_⟩
  rintro before after rfl
  rw [Ledger.run_append] at hrun
  obtain ⟨l?, hbefore, hafter⟩ := Run.bind_eq_ok.mp hrun
  cases l? with
  | none => cases hafter
  | some l₁ =>
      obtain ⟨h₁, -⟩ := hstart.run hbefore
      obtain ⟨-, hgone⟩ := h₁.run hafter
      refine ⟨l₁, hbefore, hgone, ?_⟩
      intro o ho hzero
      have hmem := List.count_pos_iff.mpr (hgone.subset ho)
      rw [hcount o] at hzero
      omega

/-- A connection is closed in the middle of a request, another one behind a `SET`. -/
def closedEarly : List LedgerEvent :=
  [ .step (.connect .idle), .step (.connect .idle)
  , .step (.read 0 (ascii "*3\r\n$3\r\nSET\r\n$1\r\nk\r\n")), .step (.serve 0)
  , .step (.read 1 (ascii "*3\r\n$3\r\nSET\r\n$1\r\nk\r\n$1\r\nv\r\n")), .step (.serve 1)
  , .disconnect 0, .disconnect 0 ]

theorem count_eq_holders_and_gone_closedEarly :
    ∃ l, Ledger.run LatteC.sample closedEarly
        ⟨.start 16 (redisCommandTable ++ latteModuleCommands) 10 0 ⟨0, 0, 0⟩, []⟩ = .ok (some l) ∧
      l.gone = [0, 1] ∧ l.server.heap.count 1 = 1 ∧ l.argvSlots 1 + l.dbEntries 1 = 0 := by
  have h : (Ledger.run LatteC.sample closedEarly
      ⟨.start 16 (redisCommandTable ++ latteModuleCommands) 10 0 ⟨0, 0, 0⟩, []⟩).toOption.join.any
        fun l ↦ l.gone = [0, 1] ∧ l.server.heap.count 1 = 1 := by
    decide +kernel
  cases hrun : Ledger.run LatteC.sample closedEarly
      ⟨.start 16 (redisCommandTable ++ latteModuleCommands) 10 0 ⟨0, 0, 0⟩, []⟩ with
  | error f => rw [hrun] at h; cases h
  | ok l? =>
      cases l? with
      | none => rw [hrun] at h; cases h
      | some l =>
          rw [hrun] at h
          obtain ⟨hgone, hone⟩ := of_decide_eq_true h
          obtain ⟨hcount, -⟩ := count_eq_holders_and_gone 16 (redisCommandTable ++ latteModuleCommands) 10
            0 ⟨0, 0, 0⟩ closedEarly l hrun
          refine ⟨l, rfl, hgone, hone, ?_⟩
          have := hcount 1
          rw [hone, hgone] at this
          have hgoneOne : [0, 1].count 1 = 1 := by decide
          omega

end LatteRedis.Counted
