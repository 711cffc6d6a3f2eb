import LatteRedis.Client.Procs
import LatteRedis.Client.ProtocolError
import LatteRedis.Slowlog.Manager

/-!
# Accounting for commands (`redis_client_command_end`)

After every read the library calls `exec` once, which is `redis_client_handle`, and then
`end` once, which is `redis_client_command_end`: the client goes to the slow log, and
`metric_stat_numcommands` is increased.  Commands are executed in a loop inside `exec`,
and the loop resets the client after each of them.  So what the slow log is given is never
an executed command: it is a client with no arguments, or one in the middle of the next
request, or one whose request named no command.

`Session` puts a connection and the two accounts together, with a record of the clients
command procs were called with and of those the slow log was given.
-/

namespace LatteRedis

open ByteString

/-- The fields of the server that `redis_client_command_end` changes. -/
structure CommandStats where
  slowlogManager : SlowlogManager
  metricStatNumcommands : Int := 0

def redisClientCommandEnd (L : LatteC) (stats : CommandStats) (c : TimedClient) :
    Except Fault CommandStats := do
  let (_, m) ← slowlogManagerPushIfNeeded L stats.slowlogManager c
  return { slowlogManager := m, metricStatNumcommands := stats.metricStatNumcommands + 1 }

variable {σ : Type} (M : Machine σ)

/-! ## Sessions -/

/-- A read, and the times the library takes around it. -/
structure Read where
  chunk : Bytes
  timing : Timing

structure Session (σ : Type) where
  conn : Conn σ
  stats : CommandStats
  /-- The clients command procs were called with. -/
  executed : List RedisClient := []
  /-- The clients the slow log was given. -/
  handed : List RedisClient := []

/-- One read: `exec`, then `end`.  The result is `none` if the bound on the iterations was
too small. -/
def serveReadAccounted (fuel : Nat) (r : Read) (s : Session σ) :
    Except Fault (Option (Session σ)) :=
  match serveRead M fuel r.chunk s.conn with
  | .faulted f _ => .error f
  | .running _ => .ok none
  | .returned _ c => do
      let stats ← redisClientCommandEnd M.lib s.stats { r.timing with rc := c.rc }
      return some {
        conn := c
        stats := stats
        executed := s.executed ++ procClients M fuel (deliver r.chunk s.conn)
        handed := s.handed ++ [c.rc] }

def serveReadsAccounted (fuel : Nat) : List Read → Session σ → Except Fault (Option (Session σ))
  | [], s => .ok (some s)
  | r :: reads, s => do
      match ← serveReadAccounted M fuel r s with
      | none => return none
      | some s => serveReadsAccounted fuel reads s

/-- The command a client stands for: `argc`, the block `argv` points to, and `lastcmd`. -/
def RedisClient.request (rc : RedisClient) : Int × Ptr Argv × Ptr RedisCommand :=
  (rc.argc, rc.argv, rc.lastcmd)

/-- Between `s` and `s'` every executed command was counted once, and what the slow log
was given were executed commands, each at most once. -/
def Accounted (s s' : Session σ) : Prop :=
  s'.stats.metricStatNumcommands - s.stats.metricStatNumcommands =
      (s'.executed.length : Int) - s.executed.length ∧
    List.Subperm ((s'.handed.drop s.handed.length).map RedisClient.request)
      ((s'.executed.drop s.executed.length).map RedisClient.request)

instance (s s' : Session σ) : Decidable (Accounted s s') := inferInstanceAs (Decidable (_ ∧ _))

/-! ## Clients between commands -/

/-- No command was executed with the arguments the client holds now: it holds none, or not
all of them have arrived, or they name no command. -/
inductive RedisClient.Unexecuted (rc : RedisClient) : Prop
  | empty (hargc : rc.argc = 0) (hmbl : rc.multiBulkLen = 0)
  | bulks (hreq : rc.reqType = protoReqMultibulk) {a : Argv} (hargv : rc.argv = .live a)
      (hsum : rc.argc + rc.multiBulkLen = a.slots) (hpos : 0 < rc.multiBulkLen)
  | unknown (hlast : rc.lastcmd = .null) (hmbl : rc.multiBulkLen = 0)

/-- A client as a command proc sees it: every slot of the vector is filled. -/
def RedisClient.Executed (rc : RedisClient) : Prop :=
  rc.argc ≠ 0 ∧ (∃ a, rc.argv = .live a ∧ rc.argc = a.slots) ∧ ∃ cmd, rc.lastcmd = .live cmd

/-- What the slow log is given is not what was executed. -/
theorem RedisClient.Unexecuted.request_ne {rc rc' : RedisClient} (h : rc.Unexecuted)
    (h' : rc'.Executed) : rc.request ≠ rc'.request := by
  obtain ⟨hne, ⟨a, hargv, hfull⟩, cmd, hcmd⟩ := h'
  intro heq
  obtain ⟨hargc', hargv', hlast'⟩ : rc.argc = rc'.argc ∧ rc.argv = rc'.argv ∧
      rc.lastcmd = rc'.lastcmd := by
    simpa [RedisClient.request] using heq
  cases h with
  | empty hargc hmbl => exact hne (hargc' ▸ hargc)
  | bulks hreq hlive hsum hpos =>
      rw [hargv', hargv] at hlive
      cases hlive
      omega
  | unknown hlast hmbl =>
      rw [hlast', hcmd] at hlast
      cases hlast

/-- The slots of the vector are the arguments there are and those still missing. -/
def RedisClient.Filling (rc : RedisClient) : Prop :=
  ∃ a, rc.argv = .live a ∧ rc.argc + rc.multiBulkLen = a.slots

variable {L : LatteC}

theorem processInlineBuffer_request {unixtime linefeedChars : Int} {rc rc' : RedisClient}
    {code : Int} (h : processInlineBuffer L unixtime linefeedChars rc = .ok (code, rc')) :
    rc'.lastcmd = rc.lastcmd ∧ rc'.multiBulkLen = rc.multiBulkLen ∧
      (code ≠ 0 → rc'.argc = rc.argc) ∧
      (code = 0 → rc'.argc = 0 ∨ ∃ a, rc'.argv = .live a ∧ rc'.argc = a.slots) := by
  obtain ⟨rfl, rfl | ⟨_, _, rfl⟩ | ⟨_, _, rfl⟩⟩ | ⟨rfl, t, qbPos, args, hstore⟩ :=
    processInlineBuffer_ends h
  · exact ⟨rfl, rfl, fun _ ↦ rfl, fun h ↦ absurd h (by decide)⟩
  · exact ⟨rfl, rfl, fun _ ↦ rfl, fun h ↦ absurd h (by decide)⟩
  · exact ⟨rfl, rfl, fun _ ↦ rfl, fun h ↦ absurd h (by decide)⟩
  · obtain rfl | rfl := storeInlineArgs_ends hstore
    · exact ⟨rfl, rfl, fun h ↦ absurd rfl h, fun _ ↦ .inl rfl⟩
    · exact ⟨rfl, rfl, fun h ↦ absurd rfl h, fun _ ↦ .inr ⟨_, rfl, rfl⟩⟩

/-- The count line is read with no arguments; it makes room for all of them. -/
theorem readMultibulkLen_request {rc : RedisClient} {f : Flow} (h : readMultibulkLen L rc = .ok f)
    (hmbl : rc.multiBulkLen = 0) :
    f.client.lastcmd = rc.lastcmd ∧ f.client.reqType = rc.reqType ∧
      ((∃ code rc', f = .ret code rc' ∧ rc'.argc = 0 ∧ rc'.multiBulkLen = 0) ∨
        ∃ rc', f = .next rc' ∧ rc'.Filling ∧ 0 < rc'.multiBulkLen) := by
  obtain ⟨hargc, rfl | ⟨_, rfl, _, _, rfl⟩ | ⟨newline, -, rfl | ⟨ll, hpos, rfl⟩⟩⟩ :=
    readMultibulkLen_ends h
  · exact ⟨rfl, rfl, .inl ⟨_, _, rfl, hargc, hmbl⟩⟩
  · exact ⟨rfl, rfl, .inl ⟨_, _, rfl, hargc, hmbl⟩⟩
  · exact ⟨rfl, rfl, .inl ⟨_, _, rfl, hargc, hmbl⟩⟩
  · refine ⟨rfl, rfl, .inr ⟨_, rfl, ⟨_, rfl, ?_⟩, hpos⟩⟩
    show rc.argc + ll = (ll.toNat : Int)
    omega

theorem readBulkLen_request (rc : RedisClient) :
    (readBulkLen L rc).client.request = rc.request := by
  obtain h | ⟨_, h, _, _, rfl⟩ | ⟨newline, ll, -, -, h | h⟩ := readBulkLen_ends L rc
  all_goals
    rw [h]
    rfl

theorem readBulkArg_request {rc : RedisClient} {f : Flow} (h : readBulkArg L rc = .ok f)
    (hfill : rc.Filling) :
    f = .brk rc ∨ ∃ rc', f = .next rc' ∧ rc'.Filling ∧ rc'.lastcmd = rc.lastcmd ∧
      rc'.reqType = rc.reqType ∧ rc'.multiBulkLen = rc.multiBulkLen - 1 := by
  obtain rfl | ⟨-, o, rc₁, hpush, hf⟩ := readBulkArg_ends h
  · exact .inl rfl
  · right
    obtain ⟨a, hargv, hsum⟩ := hfill
    obtain ⟨a', hargv', -, -, rfl⟩ := pushArg_ends hpush
    obtain rfl : a' = a := by
      rw [hargv] at hargv'
      cases hargv'
      rfl
    have hpushed : rc.argc + 1 + (rc.multiBulkLen - 1) = a'.slots := by omega
    obtain ⟨-, rfl⟩ | rfl := hf
    · exact ⟨_, rfl, ⟨_, rfl, hpushed⟩, rfl, rfl, rfl⟩
    · exact ⟨_, rfl, ⟨_, rfl, hpushed⟩, rfl, rfl, rfl⟩

/-- The loop fills the vector, and is through exactly when it is full. -/
theorem multibulkLoop_request (n : Nat) {rc rc' : RedisClient} {code : Int}
    (hn : rc.multiBulkLen = n) (hfill : rc.Filling)
    (h : multibulkLoop L n rc = .ok (code, rc')) :
    rc'.lastcmd = rc.lastcmd ∧ rc'.reqType = rc.reqType ∧ rc'.Filling ∧
      ((code = 0 ∧ rc'.multiBulkLen = 0) ∨ (code ≠ 0 ∧ 0 < rc'.multiBulkLen)) := by
  induction n generalizing rc with
  | zero =>
      cases h
      have hzero : rc'.multiBulkLen = 0 := hn
      exact ⟨rfl, rfl, hfill, .inl ⟨by rw [multibulkCode, if_pos hzero], hzero⟩⟩
  | succ n ih =>
      -- the client behind the length line, if that is read at all
      have hlen : ∃ f : Flow, (if rc.bulkLen = -1 then readBulkLen L rc else .next rc) = f ∧
          f.client.request = rc.request ∧ f.client.reqType = rc.reqType ∧
          f.client.multiBulkLen = rc.multiBulkLen ∧
          ∀ code rc', f = .ret code rc' → code = -1 := by
        split
        · obtain ⟨hreq, hmbl, hcode⟩ := readBulkLen_client (L := L) rc
          exact ⟨_, rfl, readBulkLen_request rc, hreq, hmbl, hcode⟩
        · exact ⟨_, rfl, rfl, rfl, rfl, fun _ _ h ↦ by cases h⟩
      obtain ⟨f, hf, hrequest, hreq, hmbl, hcode⟩ := hlen
      have hfields : f.client.argc = rc.argc ∧ f.client.argv = rc.argv ∧
          f.client.lastcmd = rc.lastcmd := by
        simpa [RedisClient.request] using hrequest
      have hfill' : f.client.Filling := by
        rw [RedisClient.Filling, hfields.2.1, hfields.1, hmbl]
        exact hfill
      rw [multibulkLoop, hf] at h
      -- a call that leaves the loop here leaves it before the last argument
      have hleave : 0 < f.client.multiBulkLen := by omega
      cases f with
      | ret code' rc₁ =>
          cases h
          refine ⟨hfields.2.2, hreq, hfill', .inr ⟨?_, hleave⟩⟩
          rw [hcode _ _ rfl]
          decide
      | brk rc₁ =>
          cases h
          refine ⟨hfields.2.2, hreq, hfill', .inr ⟨?_, hleave⟩⟩
          rw [multibulkCode, if_neg (show ¬rc'.multiBulkLen = 0 from hleave.ne')]
          decide
      | next rc₁ =>
          obtain ⟨f₂, harg, h⟩ := Run.bind_eq_ok.mp h
          rcases readBulkArg_request harg hfill' with rfl | ⟨rc₂, rfl, hfill₂, hlast₂, hreq₂, hmbl₂⟩
          · cases h
            refine ⟨hfields.2.2, hreq, hfill', .inr ⟨?_, hleave⟩⟩
            rw [multibulkCode, if_neg (show ¬rc'.multiBulkLen = 0 from hleave.ne')]
            decide
          · have hmbl' : rc₁.multiBulkLen = rc.multiBulkLen := hmbl
            obtain ⟨hlast, hreq', hrest⟩ := ih (by omega) hfill₂ h
            exact ⟨hlast.trans (hlast₂.trans hfields.2.2), hreq'.trans (hreq₂.trans hreq), hrest⟩

/-- What a call of the multibulk parser leaves: the request that is still being read, or a
full vector, or no arguments at all. -/
theorem processMultibulkBuffer_request {rc rc' : RedisClient} {code : Int} (h : rc.Unexecuted)
    (hreq : rc.reqType = protoReqMultibulk) (hp : processMultibulkBuffer L rc = .ok (code, rc')) :
    rc'.lastcmd = rc.lastcmd ∧ (code ≠ 0 → rc'.Unexecuted) ∧ (code = 0 → rc'.multiBulkLen = 0 ∧
      (rc'.argc = 0 ∨ ∃ a, rc'.argv = .live a ∧ rc'.argc = a.slots)) := by
  -- both ways into the loop
  have hloop : ∀ {rc₁}, rc₁.lastcmd = rc.lastcmd → rc₁.reqType = rc.reqType → rc₁.Filling →
      0 < rc₁.multiBulkLen →
      multibulkLoop L rc₁.multiBulkLen.toNat rc₁ = .ok (code, rc') →
      rc'.lastcmd = rc.lastcmd ∧ (code ≠ 0 → rc'.Unexecuted) ∧ (code = 0 → rc'.multiBulkLen = 0 ∧
        (rc'.argc = 0 ∨ ∃ a, rc'.argv = .live a ∧ rc'.argc = a.slots)) := by
    intro rc₁ hlast₁ hreq₁ hfill₁ hpos₁ hl
    obtain ⟨hlast, hreq', ⟨a, hargv, hsum⟩, hcode⟩ :=
      multibulkLoop_request _ (by omega) hfill₁ hl
    refine ⟨hlast.trans hlast₁, ?_, ?_⟩
    · intro hne
      obtain ⟨hzero, -⟩ | ⟨-, hpos⟩ := hcode
      · exact absurd hzero hne
      · exact .bulks (hreq'.trans (hreq₁.trans hreq)) hargv hsum hpos
    · intro hzero
      obtain ⟨-, hmbl⟩ | ⟨hne, -⟩ := hcode
      · exact ⟨hmbl, .inr ⟨a, hargv, by omega⟩⟩
      · exact absurd hzero hne
  unfold processMultibulkBuffer at hp
  by_cases hmbl : rc.multiBulkLen = 0
  · rw [if_pos hmbl] at hp
    obtain ⟨f, hlen, hp⟩ := Run.bind_eq_ok.mp hp
    obtain ⟨hlast₁, hreq₁, ⟨code₁, rc₁, rfl, hargc₁, hmbl₁⟩ | ⟨rc₁, rfl, hfill₁, hpos₁⟩⟩ :=
      readMultibulkLen_request hlen hmbl
    · cases hp
      exact ⟨hlast₁, fun _ ↦ .empty hargc₁ hmbl₁, fun _ ↦ ⟨hmbl₁, .inl hargc₁⟩⟩
    · simp only [if_pos hpos₁] at hp
      exact hloop hlast₁ hreq₁ hfill₁ hpos₁ hp
  · rw [if_neg hmbl, Run.ok_bind] at hp
    cases h with
    | empty hargc hmbl' => exact absurd hmbl' hmbl
    | bulks hreq hargv hsum hpos =>
        simp only [if_pos hpos] at hp
        exact hloop rfl rfl ⟨_, hargv, hsum⟩ hpos hp
    | unknown hlast hmbl' => exact absurd hmbl' hmbl

variable {M}

theorem parseRequest_request {c c₁ : Conn σ} {code : Int} (h : c.rc.Unexecuted)
    (hp : parseRequest M c.selected = .ok (code, c₁)) :
    c₁.rc.lastcmd = c.rc.lastcmd ∧ c₁.calls = c.calls ∧ (code ≠ 0 → c₁.rc.Unexecuted) ∧
      (code = 0 → c₁.rc.multiBulkLen = 0 ∧
        (c₁.rc.argc = 0 ∨ ∃ a, c₁.rc.argv = .live a ∧ c₁.rc.argc = a.slots)) := by
  have hselected : c.selected.rc.Unexecuted := by
    cases h with
    | empty hargc hmbl => exact .empty hargc hmbl
    | bulks hreq hargv hsum hpos =>
        refine .bulks ?_ hargv hsum hpos
        show selectReqType c.rc = protoReqMultibulk
        rw [selectReqType, if_neg (by rw [hreq]; decide), hreq]
    | unknown hlast hmbl => exact .unknown hlast hmbl
  unfold parseRequest at hp
  split at hp
  · next hinline =>
      obtain ⟨⟨code₁, rc₁⟩, hparse, hp⟩ := Run.bind_eq_ok.mp hp
      cases hp
      obtain ⟨hlast, hmbl', hargc', hdone⟩ := processInlineBuffer_request hparse
      -- an inline request is read in one piece, so nothing of a multibulk one is there
      have hmbl : c.selected.rc.multiBulkLen = 0 := by
        cases hselected with
        | empty _ hmbl => exact hmbl
        | bulks hreq => rw [hreq] at hinline; cases hinline
        | unknown _ hmbl => exact hmbl
      refine ⟨hlast, rfl, fun hne ↦ ?_, fun hzero ↦ ⟨hmbl'.trans hmbl, hdone hzero⟩⟩
      cases hselected with
      | empty hargc _ => exact .empty ((hargc' hne).trans hargc) (hmbl'.trans hmbl)
      | bulks hreq => rw [hreq] at hinline; cases hinline
      | unknown hlast' _ => exact .unknown (hlast.trans hlast') (hmbl'.trans hmbl)
  · split at hp
    · next hmulti =>
        obtain ⟨⟨code₁, rc₁⟩, hparse, hp⟩ := Run.bind_eq_ok.mp hp
        cases hp
        obtain ⟨hlast, hmore, hdone⟩ := processMultibulkBuffer_request hselected hmulti hparse
        exact ⟨hlast, rfl, hmore, hdone⟩
    · cases hp

/-! ## One iteration -/

/-- Executing a request: the proc is called with the client `call` is given, and what is
left was not executed. -/
theorem processCommandAndResetClient_request {c c' : Conn σ} {code : Int}
    (hmbl : c.rc.multiBulkLen = 0) (h : processCommandAndResetClient M c = .ok (code, c')) :
    c'.rc.Unexecuted ∧ c'.calls =
      c.calls ++ (calledClient M c).toList.map fun rc ↦ rc.args.map LatteObject.content := by
  obtain ⟨-, o, name, ho, hname, hcases⟩ := processCommandAndResetClient_cases h
  rw [calledClient_eq ho hname]
  obtain ⟨hlookup, rfl⟩ | ⟨cmd, server, rc₁, rc₂, hlookup, -, hreset, rfl⟩ := hcases
  · rw [hlookup]
    exact ⟨.unknown rfl hmbl, by simp⟩
  · rw [hlookup]
    obtain ⟨-, hargc', hmbl', -⟩ := resetRedisClient_isReset hreset
    exact ⟨.empty hargc' hmbl', rfl⟩

theorem calledClient_executed {c : Conn σ} {rc : RedisClient} (hargc : c.rc.argc ≠ 0)
    (hfull : ∃ a, c.rc.argv = .live a ∧ c.rc.argc = a.slots) (h : calledClient M c = some rc) :
    rc.Executed := by
  unfold calledClient at h
  split at h
  · obtain ⟨cmd, -, rfl⟩ := Option.map_eq_some_iff.mp h
    exact ⟨hargc, hfull, cmd, rfl⟩
  · cases h

/-- The iteration calls a proc with a full vector, if it calls one, and leaves a client no
command was executed with; the record agrees with the one the connection keeps. -/
theorem loopBody_request {c : Conn σ} {it : Iter σ} (h : c.rc.Unexecuted)
    (hb : loopBody M c = .ok it) :
    it.conn.rc.Unexecuted ∧ (∀ rc, procClient M c = some rc → rc.Executed) ∧
      it.conn.calls =
        c.calls ++ (procClient M c).toList.map fun rc ↦ rc.args.map LatteObject.content := by
  obtain ⟨hclosed, rfl⟩ | ⟨⟨hu, hreply, hasap⟩, code, c₁, hp, hrest⟩ := loopBody_cases hb
  · rw [procClient_of_closed hclosed]
    exact ⟨h, by simp, by simp [Iter.conn]⟩
  · rw [procClient_of_parse hu hreply hasap hp]
    obtain ⟨-, hcalls, hmore, hdone⟩ := parseRequest_request h hp
    obtain ⟨hne, rfl⟩ | ⟨rfl, hargc, rc, hreset, rfl⟩ | ⟨rfl, hargc, code₂, c₂, hexec, rfl⟩ := hrest
    · rw [if_pos (.inl hne)]
      exact ⟨hmore hne, by simp, by simp [Iter.conn, hcalls]⟩
    · rw [if_pos (.inr hargc)]
      obtain ⟨-, hargc', hmbl', -⟩ := resetRedisClient_isReset hreset
      exact ⟨.empty hargc' hmbl', by simp, by simp [Iter.conn, hcalls]⟩
    · rw [if_neg (show ¬((0 : Int) ≠ 0 ∨ c₁.rc.argc = 0) by simp [hargc])]
      obtain ⟨hmbl, hzero | hfull⟩ := hdone rfl
      · exact absurd hzero hargc
      · obtain ⟨hleft, hcalls₂⟩ := processCommandAndResetClient_request hmbl hexec
        rw [Iter.conn_ite, ← hcalls]
        exact ⟨hleft, fun rc hrc ↦ calledClient_executed hargc hfull hrc, hcalls₂⟩

/-! ## Reads -/

/-- The same over all iterations of a call. -/
theorem redisProcessInputBuffer_request {n : Nat} {c c' : Conn σ} {ret : Int}
    (h : c.rc.Unexecuted) (hcall : redisProcessInputBuffer M n c = .returned ret c') :
    c'.rc.Unexecuted ∧ (∀ rc ∈ procClients M n c, rc.Executed) ∧
      c'.calls = c.calls ++ (procClients M n c).map fun rc ↦ rc.args.map LatteObject.content := by
  induction n generalizing c with
  | zero => cases hcall
  | succ n ih =>
      rw [redisProcessInputBuffer] at hcall
      rw [procClients]
      split at hcall
      · cases hcall
      · next ret' c₁ hb =>
          cases hcall
          obtain ⟨hleft, hexec, hcalls⟩ := loopBody_request h hb
          simp only [hb, List.append_nil]
          exact ⟨hleft, fun rc hrc ↦ hexec rc (Option.mem_toList.mp hrc), hcalls⟩
      · next executed c₁ hb =>
          obtain ⟨hleft, hexec, hcalls⟩ := loopBody_request h hb
          obtain ⟨hleft', hexec', hcalls'⟩ := ih hleft hcall
          simp only [hb, List.map_append]
          refine ⟨hleft', fun rc hrc ↦ ?_, ?_⟩
          · rcases List.mem_append.mp hrc with hrc | hrc
            · exact hexec rc (Option.mem_toList.mp hrc)
            · exact hexec' rc hrc
          · rw [hcalls', ← List.append_assoc]
            exact congrArg (· ++ _) hcalls

theorem RedisClient.Unexecuted.dropConsumed {c : Conn σ} (h : c.rc.Unexecuted) (ret : Int) :
    (dropConsumed ret c).rc.Unexecuted := by
  unfold LatteRedis.dropConsumed
  split
  · cases h with
    | empty hargc hmbl => exact .empty hargc hmbl
    | bulks hreq hargv hsum hpos => exact .bulks hreq hargv hsum hpos
    | unknown hlast hmbl => exact .unknown hlast hmbl
  · exact h

theorem RedisClient.Unexecuted.deliver {c : Conn σ} (h : c.rc.Unexecuted) (chunk : Bytes) :
    (deliver chunk c).rc.Unexecuted := by
  cases h with
  | empty hargc hmbl => exact .empty hargc hmbl
  | bulks hreq hargv hsum hpos => exact .bulks hreq hargv hsum hpos
  | unknown hlast hmbl => exact .unknown hlast hmbl

/-- A read that is served: its procs are called with full vectors, one more command is
counted, and the slow log is given a client that was not executed. -/
theorem serveReadAccounted_cases {fuel : Nat} {r : Read} {s s' : Session σ}
    (h : s.conn.rc.Unexecuted) (hs : serveReadAccounted M fuel r s = .ok (some s')) :
    s'.conn.rc.Unexecuted ∧
      s'.stats.metricStatNumcommands = s.stats.metricStatNumcommands + 1 ∧
      s'.handed = s.handed ++ [s'.conn.rc] ∧
      ∃ procs : List RedisClient, s'.executed = s.executed ++ procs ∧ (∀ rc ∈ procs, rc.Executed) ∧
        s'.conn.calls = s.conn.calls ++ procs.map fun rc ↦ rc.args.map LatteObject.content := by
  unfold serveReadAccounted serveRead at hs
  cases hcall : redisProcessInputBuffer M fuel (deliver r.chunk s.conn) with
  | running c => rw [hcall] at hs; cases hs
  | faulted f c => rw [hcall] at hs; cases hs
  | returned ret c =>
      rw [hcall] at hs
      obtain ⟨stats, hend, hs⟩ := Run.bind_eq_ok.mp hs
      obtain ⟨⟨e, m⟩, -, hend⟩ := Run.bind_eq_ok.mp hend
      cases hend
      cases hs
      obtain ⟨hleft, hexec, hcalls⟩ := redisProcessInputBuffer_request (h.deliver r.chunk) hcall
      refine ⟨hleft.dropConsumed ret, rfl, rfl, _, rfl, hexec, ?_⟩
      refine Eq.trans ?_ hcalls
      dsimp only
      unfold dropConsumed
      split <;> rfl

/-- The same over a sequence of reads. -/
theorem serveReadsAccounted_cases {fuel : Nat} {reads : List Read} {s s' : Session σ}
    (h : s.conn.rc.Unexecuted) (hs : serveReadsAccounted M fuel reads s = .ok (some s')) :
    s'.stats.metricStatNumcommands = s.stats.metricStatNumcommands + reads.length ∧
      ∃ procs handed : List RedisClient, s'.executed = s.executed ++ procs ∧
        s'.handed = s.handed ++ handed ∧ handed.length = reads.length ∧
        (∀ rc ∈ procs, rc.Executed) ∧ (∀ rc ∈ handed, rc.Unexecuted) ∧
        s'.conn.calls = s.conn.calls ++ procs.map fun rc ↦ rc.args.map LatteObject.content := by
  induction reads generalizing s with
  | nil =>
      cases hs
      exact ⟨by simp, [], [], by simp⟩
  | cons r reads ih =>
      obtain ⟨s₁?, hread, hs⟩ := Run.bind_eq_ok.mp hs
      cases s₁? with
      | none => cases hs
      | some s₁ =>
          obtain ⟨hleft, hnum₁, hhanded₁, procs₁, hexecuted₁, hprocs₁, hcalls₁⟩ :=
            serveReadAccounted_cases h hread
          obtain ⟨hnum, procs, handed, hexecuted, hhanded, hlen, hprocs, hunexec, hcalls⟩ :=
            ih hleft hs
          refine ⟨?_, procs₁ ++ procs, s₁.conn.rc :: handed, ?_, ?_, ?_, ?_, ?_, ?_⟩
          · rw [hnum, hnum₁, List.length_cons]
            omega
          · rw [hexecuted, hexecuted₁, List.append_assoc]
          · rw [hhanded, hhanded₁, List.append_assoc]
            rfl
          · rw [List.length_cons, List.length_cons, hlen]
          · intro rc hrc
            rcases List.mem_append.mp hrc with hrc | hrc
            · exact hprocs₁ rc hrc
            · exact hprocs rc hrc
          · intro rc hrc
            rcases List.mem_cons.mp hrc with rfl | hrc
            · exact hleft
            · exact hunexec rc hrc
          · rw [hcalls, hcalls₁, List.map_append, List.append_assoc]

/-- **Accounting.**  Over reads that are served, commands are counted by the read, and the
slow log is given what was executed only if there are no reads at all. -/
theorem accounted_iff {fuel : Nat} {reads : List Read} {s s' : Session σ}
    (h : s.conn.rc.IsReset) (hs : serveReadsAccounted M fuel reads s = .ok (some s')) :
    s'.stats.metricStatNumcommands = s.stats.metricStatNumcommands + reads.length ∧
      s'.conn.calls = s.conn.calls ++
        (s'.executed.drop s.executed.length).map (fun rc ↦ rc.args.map LatteObject.content) ∧
      (Accounted s s' ↔ reads = []) := by
  obtain ⟨hnum, procs, handed, hexecuted, hhanded, hlen, hprocs, hunexec, hcalls⟩ :=
    serveReadsAccounted_cases (.empty h.2.1 h.2.2.1) hs
  have hprocs' : s'.executed.drop s.executed.length = procs := by
    rw [hexecuted, List.drop_left]
  have hhanded' : s'.handed.drop s.handed.length = handed := by
    rw [hhanded, List.drop_left]
  refine ⟨hnum, by rw [hprocs', hcalls], ?_, ?_⟩
  · rintro ⟨-, hsub⟩
    rw [hprocs', hhanded'] at hsub
    refine List.length_eq_zero_iff.mp (hlen ▸ ?_)
    refine List.length_eq_zero_iff.mpr (List.eq_nil_iff_forall_not_mem.mpr fun rc hrc ↦ ?_)
    -- a client that was handed over would have to be one of the executed ones
    obtain ⟨rc', hrc', heq⟩ := List.mem_map.mp (hsub.subset (List.mem_map_of_mem hrc))
    exact (hunexec rc hrc).request_ne (hprocs rc' hrc') heq.symm
  · rintro rfl
    cases hs
    exact ⟨by simp, by simp⟩

/-! ## One read, one command -/

/-- A server that was just started, and a client that has just connected to it. -/
def freshSession : Session Server where
  conn := freshConn
  stats := { slowlogManager := slowlogManagerNew 128 10000 }

/-- A read with a complete `PING`, served in five microseconds. -/
def pingRead : Read where
  chunk := ascii "*1\r\n$4\r\nPING\r\n"
  timing := { startTime := 0, endTime := 5 }

/-- The first bytes of a `PING`, and a second until the next ones. -/
def slowStart : Read where
  chunk := ascii "*1\r\n"
  timing := { startTime := 0, endTime := 1000000 }

/-- The read is served, and its command is not accounted for. -/
theorem pingRead_served :
    ∃ s', serveReadsAccounted sampleMachine 10 [pingRead] freshSession = .ok (some s') ∧
      ¬Accounted freshSession s' := by
  have h : (serveReadsAccounted sampleMachine 10 [pingRead] freshSession).toOption.join.any
      fun s' ↦ ¬Accounted freshSession s' := by
    decide +kernel
  cases hs : serveReadsAccounted sampleMachine 10 [pingRead] freshSession with
  | error f => rw [hs] at h; cases h
  | ok s? =>
      cases s? with
      | none => rw [hs] at h; cases h
      | some s' =>
          rw [hs] at h
          exact ⟨s', rfl, of_decide_eq_true h⟩

theorem accounted_iff_pingRead :
    freshSession.conn.rc.IsReset ∧
      ∃ s', serveReadsAccounted sampleMachine 10 [pingRead] freshSession = .ok (some s') ∧
        (Accounted freshSession s' ↔ [pingRead] = []) := by
  obtain ⟨s', hs, -⟩ := pingRead_served
  have hreset : freshSession.conn.rc.IsReset := by decide
  exact ⟨hreset, s', hs, (accounted_iff hreset hs).2.2⟩

/-- One read with one `PING`: the command is executed and counted, and the slow log is
given a client with no arguments.  A slow read that completes nothing is worse: the entry
is made of a command that was never looked up. -/
theorem not_accounted_pingRead :
    (∃ s', serveReadsAccounted sampleMachine 10 [pingRead] freshSession = .ok (some s') ∧
        ¬Accounted freshSession s') ∧
      (serveReadsAccounted sampleMachine 10 [slowStart] freshSession).map (fun _ ↦ ()) =
        .error .badPointer :=
  ⟨pingRead_served, by decide +kernel⟩

end LatteRedis
