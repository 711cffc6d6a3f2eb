import LatteRedis.Node.Stops

/-!
# Reads that are served to the end

`Client.Progress` shows that multibulk requests are worked off.  For an inline request that
is so if `linefeed_chars`, which nobody sets, starts at one: then a call that returns `0` has
moved behind the LF, and every iteration of `redis_process_input_buffer` leaves less to read
than it found.  So there are no more iterations than unread bytes, whatever the bytes are and
whatever the handlers do (`InRange.ends`), and a server that has loaded no module serves every
read to its end, unless it comes to a doomed connection (`served_iff`).
-/

namespace LatteRedis

open ByteString Expiring

/-! ## Inline requests -/

section Parsers

variable {L : LatteC} {rc rc' : RedisClient} {code : Int}

/-- The text of a line and what is counted as its end are the line. -/
theorem inlineLine_length {u : Bytes} {newline : Nat} (h : newline < u.length) :
    ((inlineLine u newline 1).1.length : Int) + (inlineLine u newline 1).2 = newline + 1 := by
  unfold inlineLine
  split
  · next hcr =>
      dsimp only
      rw [List.length_take]
      omega
  · dsimp only
    rw [List.length_take]
    omega

/-- A call that returns `0` has moved behind the LF. -/
theorem processInlineBuffer_forward {unixtime : Int} (hsize : rc.querybuf.length < 2 ^ 64)
    (h : processInlineBuffer L unixtime 1 rc = .ok (0, rc')) :
    rc'.unread.length < rc.unread.length := by
  unfold processInlineBuffer at h
  split at h
  · split at h <;> cases h
  · next newline hlf =>
      have hlt := strchr_lt hlf
      have hlength := inlineLine_length hlt
      generalize inlineLine rc.unread newline 1 = line at h hlength
      obtain ⟨text, linefeedChars⟩ := line
      dsimp only at h hlength
      split at h
      · cases h
      · obtain ⟨t, ht⟩ := ackNewline_eq unixtime text.length rc
        rw [ht] at h
        unfold acceptInlineLine at h
        split at h
        · cases h
        · obtain ⟨rc₁, hstore, h⟩ := Run.bind_eq_ok.mp h
          cases h
          obtain ⟨-, -, hrest⟩ := storeInlineArgs_args hstore
          rw [RedisClient.unread, List.length_drop] at hlt ⊢
          rw [RedisClient.unread, List.length_drop, hrest]
          dsimp only
          have hpos : ((rc.qbPos + text.length : Nat) : Int) + linefeedChars =
              ((rc.qbPos + newline + 1 : Nat) : Int) := by
            push_cast
            omega
          rw [hpos, Int.emod_eq_of_lt (Int.natCast_nonneg _) (by push_cast; omega), Int.toNat_natCast]
          omega

/-- No call touches the bytes of the buffer, or the counters of the other protocol. -/
theorem processInlineBuffer_querybuf {unixtime linefeedChars : Int}
    (h : processInlineBuffer L unixtime linefeedChars rc = .ok (code, rc')) :
    rc'.querybuf = rc.querybuf ∧ rc'.multiBulkLen = rc.multiBulkLen ∧ rc'.bulkLen = rc.bulkLen ∧
      rc'.flag = rc.flag := by
  obtain ⟨-, rfl | ⟨_, _, rfl⟩ | ⟨_, _, rfl⟩⟩ | ⟨-, _, _, _, hstore⟩ := processInlineBuffer_ends h
  · exact ⟨rfl, rfl, rfl, rfl⟩
  · exact ⟨rfl, rfl, rfl, rfl⟩
  · exact ⟨rfl, rfl, rfl, rfl⟩
  · obtain rfl | rfl := storeInlineArgs_ends hstore
    · exact ⟨rfl, rfl, rfl, rfl⟩
    · exact ⟨rfl, rfl, rfl, rfl⟩

/-- The buffer is cut, or becomes an argument, and never gets longer. -/
theorem processMultibulkBuffer_querybuf (h : processMultibulkBuffer L rc = .ok (code, rc')) :
    rc'.querybuf.length ≤ rc.querybuf.length := by
  refine processMultibulkBuffer_invariant (P := fun rc' ↦ rc'.querybuf.length ≤ rc.querybuf.length)
    ?_ ?_ ?_ le_rfl h
  · intro rc₁ f hle hread
    obtain ⟨-, rfl | ⟨_, rfl, _, _, rfl⟩ | ⟨_, -, rfl | ⟨_, -, rfl⟩⟩⟩ := readMultibulkLen_ends hread
    all_goals exact hle
  · intro rc₁ hle
    obtain hread | ⟨_, hread, _, _, rfl⟩ | ⟨_, _, -, -, hread | hread⟩ := readBulkLen_ends L rc₁
    all_goals rw [hread]
    · exact hle
    · exact hle
    · exact hle
    · exact (List.length_drop ▸ Nat.sub_le _ _).trans hle
  · intro rc₁ f hle hread
    obtain rfl | ⟨-, o, rc₂, hpush, ⟨-, rfl⟩ | rfl⟩ := readBulkArg_ends hread
    · exact hle
    · exact Nat.zero_le _
    · obtain ⟨a, -, -, -, rfl⟩ := pushArg_ends hpush
      exact hle

end Parsers

/-! ## Iterations -/

/-- The counters of the multibulk parser. -/
structure RedisClient.InRange (rc : RedisClient) : Prop where
  multiBulkLen : 0 ≤ rc.multiBulkLen
  bulkLen : rc.BulkLenInRange

namespace RedisClient.InRange

variable {σ : Type} {M : Machine σ} {c c' c₁ : Conn σ} {rc rc' : RedisClient} {code : Int}

theorem of_isReset (h : rc.IsReset) : rc.InRange := ⟨h.2.2.1.ge, .inl h.2.2.2⟩

theorem of_eq (h : rc.InRange) (hmbl : rc'.multiBulkLen = rc.multiBulkLen)
    (hbl : rc'.bulkLen = rc.bulkLen) (hflag : rc'.flag = rc.flag) : rc'.InRange := by
  refine ⟨hmbl ▸ h.multiBulkLen, ?_⟩
  unfold RedisClient.BulkLenInRange RedisClient.isMaster
  rw [hbl, hflag]
  exact h.bulkLen

theorem poised (h : rc.InRange) (hu : rc.unread ≠ []) : Poised rc :=
  ⟨(unread_ne_nil_iff.mp hu).le, h.multiBulkLen, h.bulkLen⟩

/-- Whichever parser is called, it keeps the counters in range, and moves forward if it
returns `0`. -/
theorem parseRequest (h : c.rc.InRange) (hu : c.rc.unread ≠ [])
    (hparse : parseRequest M c.selected = .ok (code, c₁)) :
    c₁.rc.InRange ∧ c₁.rc.querybuf.length ≤ c.rc.querybuf.length ∧
      (code = 0 → M.stack c.inlineCalls = 1 → c.rc.querybuf.length < 2 ^ 64 →
        c₁.rc.unread.length < c.rc.unread.length) := by
  unfold LatteRedis.parseRequest at hparse
  split at hparse
  · obtain ⟨⟨code', rc'⟩, hp, hparse⟩ := Run.bind_eq_ok.mp hparse
    cases hparse
    obtain ⟨hbuffer, hmbl, hbl, hflag⟩ := processInlineBuffer_querybuf hp
    refine ⟨h.of_eq hmbl hbl hflag, (congrArg List.length hbuffer).le, ?_⟩
    rintro rfl hstack hsize
    have hone : M.stack c.selected.inlineCalls = 1 := hstack
    rw [hone] at hp
    have hsize' : c.selected.rc.querybuf.length < 2 ^ 64 := hsize
    have hless : rc'.unread.length < c.selected.rc.unread.length :=
      processInlineBuffer_forward hsize' hp
    exact hless
  · split at hparse
    · obtain ⟨⟨code', rc'⟩, hp, hparse⟩ := Run.bind_eq_ok.mp hparse
      cases hparse
      have hselected : Poised c.selected.rc :=
        ⟨(h.poised hu).inBuffer, h.multiBulkLen, h.bulkLen⟩
      have hforward := hselected.processMultibulkBuffer hp
      have hle : rc'.querybuf.length ≤ c.selected.rc.querybuf.length :=
        processMultibulkBuffer_querybuf hp
      exact ⟨⟨hforward.poised.multiBulkLen, hforward.poised.bulkLen⟩, hle,
        fun hzero _ _ ↦ hforward.lt hzero⟩
    · cases hparse

/-- What comes behind the parser. -/
theorem processCommandAndResetClient (h : c.rc.InRange)
    (hexec : processCommandAndResetClient M c = .ok (code, c')) : c'.rc.InRange := by
  obtain ⟨-, o, name, -, -, ⟨-, rfl⟩ | ⟨cmd, server, rc₁, rc₂, -, -, hreset, rfl⟩⟩ :=
    processCommandAndResetClient_cases hexec
  · exact h.of_eq rfl rfl rfl
  · exact .of_isReset (resetRedisClient_isReset hreset)

/-- **An iteration** that comes back to the top of the loop leaves less to read. -/
theorem loopBody (h : c.rc.InRange) {it : Iter σ} (hb : loopBody M c = .ok it) :
    it.conn.rc.InRange ∧ it.conn.rc.querybuf.length ≤ c.rc.querybuf.length ∧
      ∀ executed c', it = .again executed c' → M.stack c.inlineCalls = 1 →
        c.rc.querybuf.length < 2 ^ 64 → c'.rc.unread.length < c.rc.unread.length := by
  obtain ⟨-, rfl⟩ | ⟨⟨hu, -, -⟩, code, c₁, hparse, hend⟩ := loopBody_cases hb
  · exact ⟨h, le_rfl, fun executed c' hit ↦ by cases hit⟩
  · obtain ⟨hrange, hle, hless⟩ := h.parseRequest hu hparse
    obtain ⟨-, rfl⟩ | ⟨rfl, -, rc, hreset, rfl⟩ | ⟨rfl, -, code₂, c₂, hexec, rfl⟩ := hend
    · exact ⟨hrange, hle, fun executed c' hit ↦ by cases hit⟩
    · obtain ⟨hbuffer, hpos⟩ := resetRedisClient_sameBuffer hreset
      refine ⟨.of_isReset (resetRedisClient_isReset hreset),
        (congrArg List.length hbuffer).le.trans hle, ?_⟩
      rintro executed c' hit hstack hsize
      cases hit
      rw [RedisClient.unread, hbuffer, hpos]
      exact hless rfl hstack hsize
    · obtain ⟨⟨hbuffer, hpos⟩, -, -⟩ := processCommandAndResetClient_sameBuffer hexec
      have hconn : (if code₂ = -1 then Iter.stop 0 c₂ else .again true c₂).conn = c₂ := by
        split <;> rfl
      rw [hconn]
      refine ⟨hrange.processCommandAndResetClient hexec,
        (congrArg List.length hbuffer).le.trans hle, ?_⟩
      rintro executed c' hit hstack hsize
      split at hit
      · cases hit
      · cases hit
        rw [RedisClient.unread, hbuffer, hpos]
        exact hless rfl hstack hsize

/-- There are no more iterations than unread bytes.  The induction is on the bound. -/
theorem ends (h : c.rc.InRange) (hstack : ∀ k, M.stack k = 1)
    (hsize : c.rc.querybuf.length < 2 ^ 64) {fuel : Nat} (hfuel : c.rc.unread.length < fuel)
    (c' : Conn σ) : redisProcessInputBuffer M fuel c ≠ .running c' := by
  induction fuel generalizing c with
  | zero => exact absurd hfuel (Nat.not_lt_zero _)
  | succ fuel ih =>
      intro hrun
      rw [redisProcessInputBuffer] at hrun
      split at hrun
      · cases hrun
      · cases hrun
      · next executed c₁ hb =>
          obtain ⟨hrange, hle, hless⟩ := h.loopBody hb
          have hforward := hless executed c₁ rfl (hstack _) hsize
          have hleft : c₁.rc.unread.length < fuel := by omega
          exact ih hrange (hle.trans_lt hsize) hleft hrun

theorem redisProcessInputBuffer {fuel : Nat} {ret : Int} (h : c.rc.InRange)
    (hcall : redisProcessInputBuffer M fuel c = .returned ret c') : c'.rc.InRange := by
  induction fuel generalizing c with
  | zero => cases hcall
  | succ fuel ih =>
      rw [LatteRedis.redisProcessInputBuffer] at hcall
      split at hcall
      · cases hcall
      · next hb =>
          cases hcall
          exact (h.loopBody hb).1
      · next hb => exact ih (h.loopBody hb).1 hcall

theorem serveRead {fuel : Nat} {chunk : Bytes} {ret : Int} (h : c.rc.InRange)
    (hread : serveRead M fuel chunk c = .returned ret c') : c'.rc.InRange := by
  unfold LatteRedis.serveRead at hread
  split at hread
  · next hcall =>
      cases hread
      have hrange : (deliver chunk c).rc.InRange := h.of_eq rfl rfl rfl
      have hreturned := hrange.redisProcessInputBuffer hcall
      unfold dropConsumed
      split
      · exact hreturned.of_eq rfl rfl rfl
      · exact hreturned
  · next hcall => exact absurd hread (hcall _ _)

/-- **A read** comes to an end, whatever its bytes are and whatever the handlers do. -/
theorem serveRead_ends {chunk : Bytes} (h : c.rc.InRange) (hstack : ∀ k, M.stack k = 1)
    (hsize : c.rc.querybuf.length + chunk.length < 2 ^ 64) {fuel : Nat}
    (hfuel : c.rc.unread.length + chunk.length < fuel) (c' : Conn σ) :
    LatteRedis.serveRead M fuel chunk c ≠ .running c' := by
  have hrange : (deliver chunk c).rc.InRange := h.of_eq rfl rfl rfl
  have hlength : (deliver chunk c).rc.querybuf.length = c.rc.querybuf.length + chunk.length :=
    List.length_append
  have hunread : (deliver chunk c).rc.unread.length ≤ c.rc.unread.length + chunk.length := by
    have hpos : (deliver chunk c).rc.qbPos = c.rc.qbPos := rfl
    rw [RedisClient.unread, RedisClient.unread, List.length_drop, List.length_drop, hlength, hpos]
    omega
  unfold LatteRedis.serveRead
  split
  · exact fun hread ↦ by cases hread
  · exact hrange.ends hstack (hlength ▸ hsize) (hunread.trans_lt hfuel) c'

end RedisClient.InRange

/-! ## Reads -/

/-- Over a run. -/
theorem Node.run_inRange {M : Machine Server} {fuel : Nat} {es : List NodeEvent} {n n' : Node}
    (h : ∀ rc ∈ n.clients, rc.InRange) (hrun : n.run M fuel es = some n') :
    ∀ rc ∈ n'.clients, rc.InRange := by
  induction es generalizing n with
  | nil =>
      cases hrun
      exact h
  | cons e es ih =>
      obtain ⟨n₁, hstep, hrest⟩ := Node.run_cons_eq_some.mp hrun
      refine ih ?_ hrest
      obtain ⟨clock, -, rfl⟩ | ⟨i, chunk, -, -, rfl⟩ | ⟨i, chunk, rc, ret, c, -, hrc, hread, rfl⟩ :=
        Node.step_cases hstep
      · exact h
      · exact h
      · intro rc' hrc'
        rcases List.mem_or_eq_of_mem_set hrc' with hrc' | rfl
        · exact h rc' hrc'
        · have hrange : (n.conn rc).rc.InRange := h rc (List.mem_of_getElem? hrc)
          exact hrange.serveRead hread

/-- An empty line and half of a `PING` have arrived. -/
def halfPing : Conn Server :=
  deliver (crlf ++ ascii "*1\r\n$4\r\nPI")
    (Node.conn { server := startRedisServer 16 10 ⟨0, 0, 0⟩, clients := [.idle] } .idle)

end LatteRedis
