import LatteRedis.Client.Iterations
import LatteRedis.Client.Pipeline
import LatteRedis.Command.Handlers

/-!
# The bookkeeping of the multibulk parser

A request may arrive in any number of reads, and six variables carry it from one call of
`process_multibulk_buffer` to the next.  No array write and no unsigned subtraction of the
parser is checked where it is made: all of them rest on `Bookkeeping`, which says how the
six variables belong together.

The invariant is made by the count line, since the assertion there lets no old argument
through, and kept by every iteration of the loop.  Between two requests nothing is known
of the vector, and nothing has to be (`Tracked`).
-/

namespace LatteRedis

open ByteString

variable {L : LatteC} {rc rc' : RedisClient}

/-- How the variables of the multibulk parser belong together. -/
structure Bookkeeping (rc : RedisClient) : Prop where
  /-- The arguments that are there and those that are missing fill the vector. -/
  slots : ∃ a, rc.argv = .live a ∧ rc.argc = a.vals.length ∧ rc.argc + rc.multiBulkLen = a.slots
  argvLenSum : rc.argvLenSum = (rc.args.map fun o ↦ o.content.length).sum
  bulkLen : rc.BulkLenInRange
  inBuffer : rc.InBuffer
  pending : 0 ≤ rc.multiBulkLen

/-- What is known of a client between two iterations of the outer loop. -/
structure Tracked (rc : RedisClient) : Prop where
  inBuffer : rc.InBuffer
  between : rc.multiBulkLen = 0 → rc.bulkLen = -1
  within : rc.multiBulkLen ≠ 0 → Bookkeeping rc

/-! ## One iteration -/

theorem RedisClient.BulkLenInRange.le (h : rc.BulkLenInRange) : -1 ≤ rc.bulkLen := by
  rcases h with h | ⟨h, -⟩ <;> omega

theorem RedisClient.args_congr (hargv : rc'.argv = rc.argv) (hargc : rc'.argc = rc.argc) :
    rc'.args = rc.args := by
  unfold RedisClient.args
  rw [hargv, hargc]

namespace Bookkeeping

/-- The invariant is about the vector, the counters and the place in the buffer. -/
theorem of_eq (h : Bookkeeping rc) (hargv : rc'.argv = rc.argv) (hargc : rc'.argc = rc.argc)
    (hsum : rc'.argvLenSum = rc.argvLenSum) (hmbl : rc'.multiBulkLen = rc.multiBulkLen)
    (hbl : rc'.BulkLenInRange) (hq : rc'.InBuffer) : Bookkeeping rc' := by
  refine ⟨?_, ?_, hbl, hq, ?_⟩
  · rw [hargv, hargc, hmbl]
    exact h.slots
  · rw [hsum, RedisClient.args_congr hargv hargc]
    exact h.argvLenSum
  · rw [hmbl]
    exact h.pending

theorem waits (h : Bookkeeping rc) (hw : Waits rc rc') : Bookkeeping rc' := by
  obtain ⟨k, hk⟩ := hw.consumed
  exact h.of_eq hw.argv hw.argc hw.argvLenSum hw.multiBulkLen (hw.bulkLen h.bulkLen) hk.inBuffer

theorem takes (h : Bookkeeping rc) (ht : Takes rc rc') (hne : rc.multiBulkLen ≠ 0) :
    Bookkeeping rc' := by
  obtain ⟨k, -, hk⟩ := ht.consumed
  obtain ⟨a, hargv, hargc, hslots⟩ := h.slots
  obtain ⟨a', o, hlive, -, -, hargv', hsum⟩ := ht.pushed
  cases hargv.symm.trans hlive
  have hold : rc.args = a.vals := RedisClient.args_of_full hargv hargc
  have htake : a.vals.take rc.argc.toNat = a.vals := List.take_of_length_le (by omega)
  rw [htake] at hargv'
  have hargc' : rc'.argc = (a.vals ++ [o]).length := by
    rw [ht.argc, hargc, List.length_append, List.length_singleton]
    rfl
  have hnew : rc'.args = a.vals ++ [o] := RedisClient.args_of_full hargv' hargc'
  have hpending := h.pending
  refine ⟨⟨_, hargv', hargc', ?_⟩, ?_, .inl ht.bulkLen, hk.inBuffer, ?_⟩
  · rw [ht.argc, ht.multiBulkLen]
    show _ = (a.slots : Int)
    omega
  · rw [hsum, hnew, h.argvLenSum, hold, List.map_append, List.sum_append]
    rfl
  · rw [ht.multiBulkLen]
    omega

/-- While an argument is missing, the slot for it is there. -/
theorem room (h : Bookkeeping rc) (hne : rc.multiBulkLen ≠ 0) :
    ∃ a, rc.argv = .live a ∧ 0 ≤ rc.argc ∧ rc.argc < a.slots := by
  obtain ⟨a, hargv, hargc, hslots⟩ := h.slots
  have hpending := h.pending
  exact ⟨a, hargv, by omega, by omega⟩

theorem pushArg_ok (h : Bookkeeping rc) (hne : rc.multiBulkLen ≠ 0) (o : LatteObject) :
    ∃ rc', rc.pushArg o = .ok rc' := by
  obtain ⟨a, hargv, hnonneg, hroom⟩ := h.room hne
  unfold RedisClient.pushArg
  rw [hargv]
  exact ⟨_, if_pos ⟨hnonneg, hroom⟩⟩

theorem iteration_ok (h : Bookkeeping rc) (hne : rc.multiBulkLen ≠ 0) :
    ∃ f, multibulkIteration L rc = .ok f := by
  obtain ⟨a, hargv, hnonneg, hroom⟩ := h.room hne
  exact multibulkIteration_ok h.inBuffer h.bulkLen.le hargv hnonneg hroom

/-- Behind the length line the invariant holds, too. -/
theorem knownBulkLen (h : Bookkeeping rc) (hk : knownBulkLen L rc = .next rc') :
    Bookkeeping rc' ∧ rc'.multiBulkLen = rc.multiBulkLen := by
  rcases knownBulkLen_cases (L := L) h.inBuffer h.bulkLen.le with
    ⟨rc₁, hk' | hk', -⟩ | ⟨rc₁, hk', hw, -⟩
  · cases hk.symm.trans hk'
  · cases hk.symm.trans hk'
  · cases hk.symm.trans hk'
    exact ⟨h.waits hw, hw.multiBulkLen⟩

/-- An iteration keeps the invariant.  If it goes on, the next length is unknown; if it
does not, the argument it was at is still missing and the call returns `-1`. -/
theorem iteration (h : Bookkeeping rc) (hne : rc.multiBulkLen ≠ 0) {f : Flow}
    (hit : multibulkIteration L rc = .ok f) :
    (∃ rc', (f = .brk rc' ∨ f = .ret (-1) rc') ∧ Bookkeeping rc' ∧ rc'.multiBulkLen ≠ 0) ∨
      ∃ rc', f = .next rc' ∧ Bookkeeping rc' ∧ rc'.bulkLen = -1 := by
  rcases multibulkIteration_cases h.inBuffer h.bulkLen.le hit with ⟨rc', hf, hw⟩ | ⟨rc', hf, ht⟩
  · exact .inl ⟨rc', hf, h.waits hw, by rw [hw.multiBulkLen]; exact hne⟩
  · exact .inr ⟨rc', hf, h.takes ht hne, ht.bulkLen⟩

end Bookkeeping

/-! ## One call -/

namespace Tracked

theorem of_bookkeeping (h : Bookkeeping rc) (hne : rc.multiBulkLen ≠ 0) : Tracked rc :=
  ⟨h.inBuffer, fun hzero ↦ absurd hzero hne, fun _ ↦ h⟩

theorem of_eq (h : Tracked rc) (hargv : rc'.argv = rc.argv) (hargc : rc'.argc = rc.argc)
    (hsum : rc'.argvLenSum = rc.argvLenSum) (hmbl : rc'.multiBulkLen = rc.multiBulkLen)
    (hbl : rc'.bulkLen = rc.bulkLen) (hflag : rc'.flag = rc.flag) (hq : rc'.InBuffer) :
    Tracked rc' := by
  refine ⟨hq, ?_, ?_⟩
  · rw [hmbl, hbl]
    exact h.between
  · rw [hmbl]
    intro hne
    have hbook := h.within hne
    refine hbook.of_eq hargv hargc hsum hmbl ?_ hq
    unfold RedisClient.BulkLenInRange RedisClient.isMaster
    rw [hbl, hflag]
    exact hbook.bulkLen

/-- In front of the loop: the call returns, or the count line has made a new vector. -/
theorem head (h : Tracked rc) {f : Flow} (hhead : multibulkHead L rc = .ok f) :
    (∃ code rc', f = .ret code rc' ∧ Tracked rc') ∨ ∃ rc', f = .next rc' ∧ Bookkeeping rc' := by
  have hq := h.inBuffer
  have hlen := hq.length_eq
  unfold multibulkHead at hhead
  split at hhead
  · next hzero =>
      have hbl := h.between hzero
      obtain ⟨hargc, rfl | ⟨rc', rfl, text, line, rfl⟩ | ⟨newline, hline, rfl | ⟨ll, hll, rfl⟩⟩⟩ :=
        readMultibulkLen_ends hhead
      · exact .inl ⟨_, rc, rfl, h⟩
      · exact .inl ⟨_, _, rfl, hq, fun _ ↦ hbl, fun hne ↦ absurd hzero hne⟩
      · refine .inl ⟨_, _, rfl, ?_, fun _ ↦ hbl, fun hne ↦ absurd hzero hne⟩
        show rc.qbPos + newline + 2 ≤ rc.querybuf.length
        omega
      · refine .inr ⟨_, rfl, ⟨_, rfl, hargc, ?_⟩, ?_, .inl hbl, ?_, hll.le⟩
        · show rc.argc + ll = (ll.toNat : Int)
          rw [hargc]
          omega
        · rw [RedisClient.args_of_argc_eq_zero (by exact hargc)]
          rfl
        · show rc.qbPos + newline + 2 ≤ rc.querybuf.length
          omega
  · next hne =>
      cases hhead
      exact .inr ⟨rc, rfl, h.within hne⟩

/-- Wherever the condition of the loop is evaluated, the invariant holds. -/
theorem inLoop (h : Tracked rc) (hin : InLoop L rc rc') :
    Bookkeeping rc' ∧ (rc'.multiBulkLen = 0 → rc'.bulkLen = -1) := by
  refine hin.invariant (I := fun rc' ↦ Bookkeeping rc' ∧ (rc'.multiBulkLen = 0 → rc'.bulkLen = -1))
    ?_ ?_
  · intro rc₁ hhead hpos
    rcases h.head hhead with ⟨_, _, hf, -⟩ | ⟨rc₂, hf, hbook⟩
    · cases hf
    · cases hf
      exact ⟨hbook, fun hzero ↦ absurd hzero hpos.ne'⟩
  · rintro rc₁ rc₂ ⟨hbook, -⟩ hne hit
    rcases hbook.iteration hne hit with ⟨_, hf | hf, -⟩ | ⟨rc₃, hf, hbook', hbl⟩
    · cases hf
    · cases hf
    · cases hf
      exact ⟨hbook', fun _ ↦ hbl⟩

theorem leavesLoop (h : Tracked rc) {code : Int} (hl : LeavesLoop L rc code rc') : Tracked rc' := by
  cases hl with
  | done hin hzero =>
      obtain ⟨hbook, hbl⟩ := h.inLoop hin
      exact ⟨hbook.inBuffer, hbl, fun hne ↦ absurd hzero hne⟩
  | ret hin hne hit | brk hin hne hit =>
      rcases (h.inLoop hin).1.iteration hne hit with ⟨rc₁, hf | hf, hbook, hne'⟩ | ⟨rc₁, hf, -⟩
      all_goals
        cases hf
        try exact of_bookkeeping hbook hne'

theorem processMultibulkBuffer (h : Tracked rc) {code : Int}
    (hp : processMultibulkBuffer L rc = .ok (code, rc')) : Tracked rc' := by
  rcases processMultibulkBuffer_leaves hp with hhead | hleaves
  · rcases h.head hhead with ⟨_, rc₁, hf, htracked⟩ | ⟨rc₁, hf, -⟩
    · cases hf
      exact htracked
    · cases hf
  · exact h.leavesLoop hleaves

end Tracked

/-! ## Whole runs -/

variable {σ : Type} {M : Machine σ} {c : Conn σ}

/-- What there is to parse is parsed as a multibulk request. -/
def StartsMultibulk (c : Conn σ) : Prop :=
  c.rc.unread ≠ [] → selectReqType c.rc = protoReqMultibulk

theorem parseRequest_of_startsMultibulk (hc : StartsMultibulk c) (hu : c.rc.unread ≠ []) {code : Int}
    {c' : Conn σ} (h : parseRequest M c.selected = .ok (code, c')) :
    ∃ rc', processMultibulkBuffer M.lib c.selected.rc = .ok (code, rc') ∧
      c' = { c.selected with rc := rc' } := by
  have hreq : c.selected.rc.reqType = protoReqMultibulk := hc hu
  unfold parseRequest at h
  rw [if_neg (by rw [hreq]; decide), if_pos hreq] at h
  obtain ⟨⟨code₁, rc'⟩, hp, h⟩ := Run.bind_eq_ok.mp h
  cases h
  exact ⟨rc', hp, rfl⟩

theorem Tracked.reset (h : Tracked rc) (hr : resetRedisClient rc = .ok rc') : Tracked rc' := by
  rw [resetRedisClient_ends hr]
  exact ⟨h.inBuffer, fun _ ↦ rfl, fun hne ↦ absurd rfl hne⟩

/-- Executing a request resets the client, or leaves it alone but for a note. -/
theorem Tracked.execute (h : Tracked c.rc) {code : Int} {c' : Conn σ}
    (hexec : processCommandAndResetClient M c = .ok (code, c')) : Tracked c'.rc := by
  obtain ⟨-, o, name, -, -, ⟨-, rfl⟩ | ⟨cmd, server, rc₁, rc₂, -, hproc, hreset, rfl⟩⟩ :=
    processCommandAndResetClient_cases hexec
  · exact h.of_eq rfl rfl rfl rfl rfl rfl h.inBuffer
  · have hframe := M.backend.frame hproc
    show Tracked rc₂
    rw [resetRedisClient_ends hreset]
    refine ⟨?_, fun _ ↦ rfl, fun hne ↦ absurd rfl hne⟩
    show rc₁.InBuffer
    rw [hframe]
    exact h.inBuffer

theorem Tracked.selected (h : Tracked c.rc) : Tracked c.selected.rc :=
  h.of_eq rfl rfl rfl rfl rfl rfl h.inBuffer

theorem Tracked.loopBody (h : Tracked c.rc) (hc : StartsMultibulk c) {it : Iter σ}
    (hb : loopBody M c = .ok it) : Tracked it.conn.rc := by
  obtain ⟨-, rfl⟩ | ⟨⟨hu, -, -⟩, code, c₁, hparse, hend⟩ := loopBody_cases hb
  · exact h
  · obtain ⟨rc₁, hp, rfl⟩ := parseRequest_of_startsMultibulk hc hu hparse
    have hparsed : Tracked rc₁ := h.selected.processMultibulkBuffer hp
    obtain ⟨-, rfl⟩ | ⟨-, -, rc, hreset, rfl⟩ | ⟨-, -, code₂, c₂, hexec, rfl⟩ := hend
    · exact hparsed
    · exact hparsed.reset hreset
    · rw [Iter.conn_ite]
      exact Tracked.execute (c := { c.selected with rc := rc₁ }) hparsed hexec

/-- However the bytes are cut into reads, a client that parses multibulk requests is in
order at the top of the loop. -/
theorem tracked_of_reach {c₀ : Conn σ} {p : Place} (h₀ : Tracked c₀.rc)
    (h : Reach M StartsMultibulk c₀ p c) : Tracked c.rc := by
  refine Reach.invariant (I := fun c ↦ Tracked c.rc) h₀ ?_ ?_ ?_ ?_ ?_ h
  · exact fun c s hc ↦ hc
  · exact fun c chunk hc ↦ hc.of_eq rfl rfl rfl rfl rfl rfl (hc.inBuffer.deliver chunk)
  · intro c ret hc
    have hq := hc.inBuffer.dropConsumed ret
    unfold dropConsumed at hq ⊢
    split at hq
    · rw [if_pos ‹_›]
      exact hc.of_eq rfl rfl rfl rfl rfl rfl hq
    · rw [if_neg ‹_›]
      exact hc
  · exact fun c executed c' hc hP hb ↦ hc.loopBody hP hb
  · exact fun c ret c' hc hP hb ↦ hc.loopBody hP hb

/-! ## Streams of commands

A run over the bytes of encoded commands is one in which everything is parsed as a multibulk
request: between two commands the next byte is the `*` of the next one, and in the middle of
a command the parser stays the same.  Nothing is asked of the server.  Behind a command that
is not registered the client is not reset, but no other request is parsed any more. -/

/-- The runs in which the bytes `bytes` arrive, in any reads; the first `Bytes` are those
that are still to come. -/
inductive Streaming (M : Machine σ) (c₀ : Conn σ) (bytes : Bytes) : Bytes → Place → Conn σ → Prop
  | start : Streaming M c₀ bytes bytes .idle c₀
  | server {rest c} (s : σ) : Streaming M c₀ bytes rest .idle c →
      Streaming M c₀ bytes rest .idle { c with server := s }
  | read {rest c} (chunk : Bytes) : Streaming M c₀ bytes (chunk ++ rest) .idle c →
      Streaming M c₀ bytes rest .top (deliver chunk c)
  | again {rest c executed c'} : Streaming M c₀ bytes rest .top c →
      loopBody M c = .ok (.again executed c') → Streaming M c₀ bytes rest .top c'
  | stop {rest c ret c'} : Streaming M c₀ bytes rest .top c →
      loopBody M c = .ok (.stop ret c') → Streaming M c₀ bytes rest .idle (dropConsumed ret c')

/-- The client is in the situation `s` of the decoder; what it has not consumed and the bytes
`rest` are the commands `cmds`. -/
structure Midstream (L : LatteC) (hL : L.StrictString2ll) (rest : Bytes) (rc : RedisClient)
    (s : Expect) (cmds : List (List Bytes)) : Prop where
  rep : Rep rc s
  inBuffer : rc.InBuffer
  reqType : (rc.reqType = 0 ∧ s = .count) ∨ rc.reqType = protoReqMultibulk
  sendable : ∀ args ∈ cmds, Sendable args
  stream : Streams (multibulk L hL rc.isMaster) s cmds (rc.unread ++ rest)

/-- The client keeps a request that is complete and was not executed. -/
def Stuck (rc : RedisClient) : Prop :=
  rc.reqType = protoReqMultibulk ∧ rc.multiBulkLen = 0 ∧ rc.argc ≠ 0

def OnStream (L : LatteC) (hL : L.StrictString2ll) (rest : Bytes) (rc : RedisClient) : Prop :=
  (∃ s cmds, Midstream L hL rest rc s cmds) ∨ Stuck rc

/-- The assertion in front of the count line. -/
theorem argc_eq_zero_of_processMultibulkBuffer {r : Int × RedisClient} (hzero : rc.multiBulkLen = 0)
    (h : processMultibulkBuffer L rc = .ok r) : rc.argc = 0 := by
  obtain ⟨f, hhead, -⟩ := Run.bind_eq_ok.mp h
  rw [if_pos hzero] at hhead
  exact (readMultibulkLen_ends hhead).1

section OnStream

variable {hL : M.lib.StrictString2ll} {rest : Bytes} {s : Expect} {cmds : List (List Bytes)}

theorem Midstream.of_eq {hL : L.StrictString2ll} (h : Midstream L hL rest rc s cmds)
    {rest' : Bytes} (hrep : Rep rc' s) (hq : rc'.InBuffer) (hreq : rc'.reqType = rc.reqType)
    (hmaster : rc'.isMaster = rc.isMaster) (hunread : rc'.unread ++ rest' = rc.unread ++ rest) :
    Midstream L hL rest' rc' s cmds := by
  refine ⟨hrep, hq, ?_, h.sendable, ?_⟩
  · rw [hreq]
    exact h.reqType
  · rw [hmaster, hunread]
    exact h.stream

theorem Stuck.startsMultibulk (h : Stuck c.rc) : StartsMultibulk c := by
  intro hu
  unfold selectReqType
  rw [if_neg (by rw [h.1]; decide), h.1]

theorem OnStream.startsMultibulk (h : OnStream M.lib hL rest c.rc) : StartsMultibulk c := by
  rcases h with ⟨s, cmds, h⟩ | h
  · intro hu
    cases cmds with
    | nil => exact absurd (List.append_eq_nil_iff.mp h.stream).1 hu
    | cons args cmds => exact (selectReqType_streams h.reqType h.stream hu).1
  · exact h.startsMultibulk

theorem OnStream.deliver {chunk : Bytes} (h : OnStream M.lib hL (chunk ++ rest) c.rc) :
    OnStream M.lib hL rest (deliver chunk c).rc := by
  rcases h with ⟨s, cmds, h⟩ | h
  · have hrep : Rep (LatteRedis.deliver chunk c).rc s := h.rep.of_eq rfl rfl rfl rfl
    refine .inl ⟨s, cmds, h.of_eq hrep (h.inBuffer.deliver chunk) rfl rfl ?_⟩
    rw [← List.append_assoc]
    exact congrArg (· ++ rest) (List.drop_append_of_le_length h.inBuffer)
  · exact .inr h

theorem OnStream.dropConsumed (h : OnStream M.lib hL rest c.rc) (ret : Int) :
    OnStream M.lib hL rest (dropConsumed ret c).rc := by
  unfold LatteRedis.dropConsumed
  split
  · rcases h with ⟨s, cmds, h⟩ | h
    · exact .inl ⟨s, cmds, h.of_eq (h.rep.of_eq rfl rfl rfl rfl) (Nat.zero_le _) rfl rfl rfl⟩
    · exact .inr h
  · exact h

/-- A command that has been read is executed, and the client is reset in front of the next
one; or it is not registered. -/
theorem OnStream.execute {args : List Bytes} (hloaded : Loaded c.rc args)
    (hreq : c.rc.reqType = protoReqMultibulk) (hargc : c.rc.argc ≠ 0) (hq : c.rc.InBuffer)
    (hcmds : ∀ args ∈ cmds, Sendable args) (hunread : c.rc.unread ++ rest = encodeAll cmds)
    {code : Int} {c' : Conn σ} (h : processCommandAndResetClient M c = .ok (code, c')) :
    OnStream M.lib hL rest c'.rc := by
  obtain ⟨-, o, name, -, -, ⟨-, rfl⟩ | ⟨cmd, server, rc₁, rc₂, -, hproc, hreset, rfl⟩⟩ :=
    processCommandAndResetClient_cases h
  · exact .inr ⟨hreq, hloaded.multiBulkLen, hargc⟩
  · have hframe := M.backend.frame hproc
    refine .inl ⟨.count, cmds, ?_⟩
    show Midstream M.lib hL rest rc₂ .count cmds
    rw [resetRedisClient_ends hreset, hframe]
    refine ⟨⟨rfl, rfl, rfl, hloaded.argv⟩, hq, .inl ⟨rfl, rfl⟩, hcmds, ?_⟩
    show Streams _ .count cmds (c.rc.unread ++ rest)
    rw [hunread]
    exact streams_encodeAll hL hcmds

theorem Stuck.loopBody (h : Stuck c.rc) {it : Iter σ} (hb : loopBody M c = .ok it) :
    it.conn = c := by
  obtain ⟨-, rfl⟩ | ⟨⟨hu, -, -⟩, code, c₁, hparse, -⟩ := loopBody_cases hb
  · rfl
  · obtain ⟨rc₁, hp, -⟩ := parseRequest_of_startsMultibulk h.startsMultibulk hu hparse
    obtain ⟨-, hzero, hargc⟩ := h
    have hargc' : c.selected.rc.argc = 0 := argc_eq_zero_of_processMultibulkBuffer hzero hp
    exact absurd hargc' hargc

theorem Midstream.loopBody (h : Midstream M.lib hL rest c.rc s cmds) {it : Iter σ}
    (hb : loopBody M c = .ok it) : OnStream M.lib hL rest it.conn.rc := by
  have hstarts : StartsMultibulk c := OnStream.startsMultibulk (.inl ⟨s, cmds, h⟩)
  obtain ⟨-, rfl⟩ | ⟨⟨hu, -, -⟩, code, c₁, hparse, hend⟩ := loopBody_cases hb
  · exact .inl ⟨s, cmds, h⟩
  · obtain ⟨rc₁, hp, rfl⟩ := parseRequest_of_startsMultibulk hstarts hu hparse
    cases cmds with
    | nil => exact absurd (List.append_eq_nil_iff.mp h.stream).1 hu
    | cons args cmds =>
        obtain ⟨hreq, hstar⟩ := selectReqType_streams h.reqType h.stream hu
        have hcmds : ∀ args ∈ cmds, Sendable args := fun args' hargs' ↦
          h.sendable args' (List.mem_cons_of_mem args hargs')
        have hrep : Rep c.selected.rc s := h.rep.of_eq rfl rfl rfl rfl
        rcases processMultibulkBuffer_streams hrep h.inBuffer hstar h.stream with
          ⟨s', rc', hp', hparsed, hq, hrep', hstream, -⟩ | ⟨rc', hp', hparsed, hq, hloaded, hunread⟩
        all_goals
          cases hp.symm.trans hp'
          have hreq' : rc₁.reqType = protoReqMultibulk := by
            rw [hparsed]
            exact hreq
        · obtain ⟨-, rfl⟩ | ⟨hcode, -⟩ | ⟨hcode, -⟩ := hend
          · exact .inl ⟨s', args :: cmds, hrep', hq, .inr hreq', h.sendable, hstream⟩
          · cases hcode
          · cases hcode
        · have hargc : rc₁.argc ≠ 0 := by
            rw [hloaded.argc]
            have hpos := List.length_pos_iff.mpr (h.sendable args (by simp)).ne_nil
            omega
          obtain ⟨hcode, -⟩ | ⟨-, hzero, -⟩ | ⟨-, -, code₂, c₂, hexec, rfl⟩ := hend
          · exact absurd rfl hcode
          · exact absurd hzero hargc
          · rw [Iter.conn_ite]
            exact OnStream.execute (c := { c.selected with rc := rc₁ }) hloaded hreq' hargc hq hcmds
              hunread hexec

theorem OnStream.loopBody (h : OnStream M.lib hL rest c.rc) {it : Iter σ}
    (hb : loopBody M c = .ok it) : OnStream M.lib hL rest it.conn.rc := by
  rcases h with ⟨s, cmds, h⟩ | h
  · exact h.loopBody hb
  · rw [h.loopBody hb]
    exact .inr h

/-- In a run over encoded commands everything is parsed as a multibulk request. -/
theorem Streaming.reach {c₀ : Conn σ} {p : Place} (hL : M.lib.StrictString2ll)
    (hreset : c₀.rc.IsReset) (hargv : c₀.rc.argv ≠ .wild)
    (hempty : c₀.rc.qbPos = c₀.rc.querybuf.length) (hcmds : ∀ args ∈ cmds, Sendable args)
    (h : Streaming M c₀ (encodeAll cmds) rest p c) :
    Reach M StartsMultibulk c₀ p c ∧ OnStream M.lib hL rest c.rc := by
  induction h with
  | start =>
      obtain ⟨hreq, hargc, hmbl, hbl⟩ := hreset
      have hunread : c₀.rc.unread = [] := by rw [RedisClient.unread, hempty, List.drop_length]
      refine ⟨.start, .inl ⟨.count, cmds, ⟨hmbl, hbl, hargc, hargv⟩, hempty.le, .inl ⟨hreq, rfl⟩,
        hcmds, ?_⟩⟩
      rw [hunread, List.nil_append]
      exact streams_encodeAll hL hcmds
  | server s _ ih => exact ⟨.server s ih.1, ih.2⟩
  | read chunk _ ih => exact ⟨.read chunk ih.1, ih.2.deliver⟩
  | again _ hb ih => exact ⟨.again ih.1 ih.2.startsMultibulk hb, ih.2.loopBody hb⟩
  | stop _ hb ih =>
      exact ⟨.stop ih.1 ih.2.startsMultibulk hb, (ih.2.loopBody hb).dropConsumed _⟩

end OnStream

/-! ## The invariant at every iteration -/

/-- **The bookkeeping of the parser.**  Take any run of a connection that starts between two
requests and in which whatever there is to parse is parsed as a multibulk request, cut into
reads in any way; by `Streaming.reach` the runs over encoded commands are of this kind.  In
any call of `process_multibulk_buffer` of this run, at every iteration of its loop:

* `argc + multi_bulk_len` is the number of slots of `argv`, `argv_len_sum` is the sum of the
  lengths of `argv[0..argc)`, `bulk_len` is `-1` or in the range for the client, and `qb_pos`
  is inside the buffer (`Bookkeeping`), also behind the length line;
* so the unsigned differences are the differences, and the write `argv[argc]` of the
  iteration is in bounds, whatever is written: the iteration returns. -/
theorem bookkeeping_of_reach (M : Machine σ) (c₀ : Conn σ)
    (h₀ : c₀.rc.multiBulkLen = 0 ∧ c₀.rc.bulkLen = -1 ∧ c₀.rc.qbPos ≤ c₀.rc.querybuf.length)
    (c : Conn σ) (h : Reach M StartsMultibulk c₀ .top c) (rc : RedisClient)
    (hin : InLoop M.lib c.selected.rc rc) (hne : rc.multiBulkLen ≠ 0) :
    Bookkeeping rc ∧ usub rc.querybuf.length rc.qbPos = rc.querybuf.length - rc.qbPos ∧
      (∀ rc₁, knownBulkLen M.lib rc = .next rc₁ → Bookkeeping rc₁ ∧
        usub rc₁.querybuf.length rc₁.qbPos = rc₁.querybuf.length - rc₁.qbPos ∧
        ∀ o, ∃ rc₂, rc₁.pushArg o = .ok rc₂) ∧
      ∃ f, multibulkIteration M.lib rc = .ok f := by
  obtain ⟨hmbl, hbl, hq⟩ := h₀
  have hstart : Tracked c₀.rc := ⟨hq, fun _ ↦ hbl, fun hne ↦ absurd hmbl hne⟩
  obtain ⟨hbook, -⟩ := (tracked_of_reach hstart h).selected.inLoop hin
  refine ⟨hbook, usub_of_le hbook.inBuffer, ?_, hbook.iteration_ok hne⟩
  intro rc₁ hknown
  obtain ⟨hbook₁, hmbl₁⟩ := hbook.knownBulkLen hknown
  exact ⟨hbook₁, usub_of_le hbook₁.inBuffer, hbook₁.pushArg_ok (by rw [hmbl₁]; exact hne)⟩

/-- A `PING` in two reads, the cut in the middle of its name. -/
theorem bookkeeping_of_reach_ping :
    let M := machine .sample .absent fun _ ↦ 1
    ∃ c rc, Streaming M freshConn (encodeAll [[ascii "PING"]]) [] .top c ∧
      InLoop M.lib c.selected.rc rc ∧ rc.multiBulkLen = 1 ∧ rc.bulkLen = 4 ∧
      rc.unread = ascii "PING\r\n" ∧ Bookkeeping rc := by
  have hbytes : encodeAll [[ascii "PING"]] =
      ascii "*1\r\n$4\r\nPI" ++ (ascii "NG\r\n" ++ []) := by decide
  have hstart : Streaming (machine .sample .absent fun _ ↦ 1) freshConn (encodeAll [[ascii "PING"]])
      (ascii "*1\r\n$4\r\nPI" ++ (ascii "NG\r\n" ++ [])) .idle freshConn := by
    rw [← hbytes]
    exact .start
  have hstream := Streaming.read (ascii "NG\r\n") (.stop (.read _ hstart) rfl)
  have hping : ∀ args ∈ [[ascii "PING"]], Sendable args := by
    rintro args (_ | ⟨_, ⟨⟩⟩)
    exact ⟨by decide, by decide, by decide⟩
  have hreach := (hstream.reach LatteC.sample_strict (by decide) (by decide) rfl hping).1
  exact ⟨_, _, hstream, .enter rfl (by decide), rfl, rfl, rfl,
    (bookkeeping_of_reach _ freshConn (by decide) _ hreach _ (.enter rfl (by decide)) (by decide)).1⟩

end LatteRedis
