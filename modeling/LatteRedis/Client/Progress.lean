import LatteRedis.Client.Bookkeeping
import LatteRedis.Client.InlineLines

/-!
# Multibulk parsing makes progress

Neither `qb_pos` nor `multi_bulk_len` alone says how far the parser is: the first is set
back to zero when the buffer is cut or handed over, the second is set by every count line.
What decreases is the number of unread bytes.  An argument takes at least its two closing
bytes out of the buffer, and a count line takes itself, also when the count is not
positive.  So a call that returns `0` leaves less to read, and the loop that calls it
comes to an end (`multibulk_progress`).
-/

namespace LatteRedis

open ByteString

variable {L : LatteC} {rc rc' : RedisClient}

/-- The states a multibulk parser works on. -/
structure Poised (rc : RedisClient) : Prop where
  inBuffer : rc.InBuffer
  multiBulkLen : 0 ≤ rc.multiBulkLen
  bulkLen : rc.BulkLenInRange

/-- From `rc` to `rc'` the parser has moved forward, and not stood still if `moved`. -/
structure Forward (moved : Prop) (rc rc' : RedisClient) : Prop where
  poised : Poised rc'
  le : rc'.unread.length ≤ rc.unread.length
  lt : moved → rc'.unread.length < rc.unread.length

/-- Leaving the loop in the middle of a request is no progress, and no step back. -/
theorem Forward.waits {rc₁ : RedisClient} {moved moved' : Prop} (h : Forward moved rc rc₁)
    (hw : Waits rc₁ rc') (hstill : ¬ moved') : Forward moved' rc rc' := by
  obtain ⟨k, hk⟩ := hw.consumed
  have hlen := hk.length_add
  refine ⟨⟨hk.inBuffer, ?_, hw.bulkLen h.poised.bulkLen⟩, ?_, fun hmoved ↦ absurd hmoved hstill⟩
  · rw [hw.multiBulkLen]
    exact h.poised.multiBulkLen
  · have := h.le
    omega

/-! ## One call -/

namespace Poised

theorem consumed {k : Nat} {moved : Prop} (hk : Consumed k rc rc') (hmbl : 0 ≤ rc'.multiBulkLen)
    (hbl : rc'.BulkLenInRange) (hmoved : moved → 0 < k) : Forward moved rc rc' := by
  have hlen := hk.length_add
  refine ⟨⟨hk.inBuffer, hmbl, hbl⟩, by omega, fun h ↦ ?_⟩
  have := hmoved h
  omega

/-- In front of the loop a call returns `0` only behind a count line. -/
theorem head (h : Poised rc) {f : Flow} (hhead : multibulkHead L rc = .ok f) :
    (∃ code rc', f = .ret code rc' ∧ Forward (code = 0) rc rc') ∨
      ∃ rc', f = .next rc' ∧ Forward False rc rc' := by
  have hq := h.inBuffer
  have hlen := hq.length_eq
  unfold multibulkHead at hhead
  split at hhead
  · next hzero =>
      obtain ⟨-, rfl | ⟨rc', rfl, text, line, rfl⟩ | ⟨newline, hline, rfl | ⟨ll, hll, rfl⟩⟩⟩ :=
        readMultibulkLen_ends hhead
      · exact .inl ⟨-1, rc, rfl, consumed (.refl hq) h.multiBulkLen h.bulkLen fun h ↦ by cases h⟩
      · exact .inl ⟨-1, _, rfl, consumed ⟨hq, Nat.zero_le _, rfl⟩ h.multiBulkLen h.bulkLen
          fun h ↦ by cases h⟩
      · exact .inl ⟨0, _, rfl, consumed (k := newline + 2) (.advance hq (by omega) rfl rfl)
          h.multiBulkLen h.bulkLen fun _ ↦ by omega⟩
      · exact .inr ⟨_, rfl, consumed (k := newline + 2) (.advance hq (by omega) rfl rfl) hll.le
          h.bulkLen False.elim⟩
  · cases hhead
    exact .inr ⟨rc, rfl, consumed (.refl hq) h.multiBulkLen h.bulkLen False.elim⟩

/-- Once an argument has been read, something has been consumed. -/
theorem inLoop (h : Poised rc) (hin : InLoop L rc rc') :
    Forward (rc'.multiBulkLen = 0) rc rc' := by
  refine hin.invariant (I := fun rc' ↦ Forward (rc'.multiBulkLen = 0) rc rc') ?_ ?_
  · intro rc₁ hhead hpos
    rcases h.head hhead with ⟨_, _, hf, -⟩ | ⟨rc₂, hf, hforward⟩
    · cases hf
    · cases hf
      exact ⟨hforward.poised, hforward.le, fun hzero ↦ absurd hzero hpos.ne'⟩
  · intro rc₁ rc₂ hforward hne hit
    obtain ⟨⟨hq, hmbl, hbl⟩, hle, -⟩ := hforward
    rcases multibulkIteration_cases hq hbl.le hit with ⟨_, hf | hf, -⟩ | ⟨rc₃, hf, htakes⟩
    · cases hf
    · cases hf
    · cases hf
      obtain ⟨k, hpos, hk⟩ := htakes.consumed
      have hlen := hk.length_add
      have hless := htakes.multiBulkLen
      exact ⟨⟨hk.inBuffer, by omega, .inl htakes.bulkLen⟩, by omega, fun _ ↦ by omega⟩

theorem leavesLoop (h : Poised rc) {code : Int} (hl : LeavesLoop L rc code rc') :
    Forward (code = 0) rc rc' := by
  cases hl with
  | done hin hzero =>
      obtain ⟨hpoised, hle, hlt⟩ := h.inLoop hin
      exact ⟨hpoised, hle, fun _ ↦ hlt hzero⟩
  | ret hin hne hit =>
      have hforward := h.inLoop hin
      obtain ⟨hq, -, hbl⟩ := hforward.poised
      rcases multibulkIteration_cases hq hbl.le hit with ⟨rc₂, hf | hf, hw⟩ | ⟨rc₂, hf, -⟩
      all_goals cases hf
      exact hforward.waits hw (by decide)
  | brk hin hne hit =>
      have hforward := h.inLoop hin
      obtain ⟨hq, -, hbl⟩ := hforward.poised
      rcases multibulkIteration_cases hq hbl.le hit with ⟨rc₂, hf | hf, hw⟩ | ⟨rc₂, hf, -⟩
      all_goals cases hf
      refine hforward.waits hw ?_
      -- the argument the loop was left at is still missing
      rw [multibulkCode, if_neg (hw.multiBulkLen ▸ hne)]
      decide

/-- **One call.**  It leaves no more to read than there was, and less if it returns `0`. -/
theorem processMultibulkBuffer (h : Poised rc) {code : Int}
    (hp : processMultibulkBuffer L rc = .ok (code, rc')) : Forward (code = 0) rc rc' := by
  rcases processMultibulkBuffer_leaves hp with hhead | hleaves
  · rcases h.head hhead with ⟨_, rc₁, hf, hforward⟩ | ⟨rc₁, hf, -⟩
    · cases hf
      exact hforward
    · cases hf
  · exact h.leavesLoop hleaves

end Poised

/-! ## The loop around it -/

variable {σ : Type} {M : Machine σ} {c : Conn σ}

/-- The next iteration is the first one of the rest. -/
theorem Iterated.cons {k : Nat} {executed : Bool} {c₁ c' : Conn σ}
    (h : loopBody M c = .ok (.again executed c₁)) (h' : Iterated M c₁ k c') :
    Iterated M c (k + 1) c' := by
  induction h' with
  | zero => exact .succ .zero h
  | succ _ hb ih => exact .succ ih hb

/-- What comes behind the parser gives up the request or leaves it. -/
theorem Poised.behind (h : Poised rc) (hsame : rc.SameBuffer rc')
    (hpoint : rc'.IsReset ∨ rc'.multiBulkLen = rc.multiBulkLen ∧ rc'.bulkLen = rc.bulkLen ∧
      rc'.flag = rc.flag) : Poised rc' ∧ rc'.unread = rc.unread := by
  have hq : rc'.InBuffer := by
    show rc'.qbPos ≤ rc'.querybuf.length
    rw [hsame.qbPos, hsame.querybuf]
    exact h.inBuffer
  refine ⟨?_, by rw [RedisClient.unread, hsame.qbPos, hsame.querybuf]; rfl⟩
  rcases hpoint with ⟨-, -, hmbl, hbl⟩ | ⟨hmbl, hbl, hflag⟩
  · exact ⟨hq, hmbl.ge, .inl hbl⟩
  · refine ⟨hq, by rw [hmbl]; exact h.multiBulkLen, ?_⟩
    unfold RedisClient.BulkLenInRange RedisClient.isMaster
    rw [hbl, hflag]
    exact h.bulkLen

/-- An iteration that comes back to the top of the loop leaves less to read. -/
theorem Poised.again (h : Poised c.rc) (hc : StartsMultibulk c) {executed : Bool} {c' : Conn σ}
    (hb : loopBody M c = .ok (.again executed c')) :
    Poised c'.rc ∧ c'.rc.unread.length < c.rc.unread.length := by
  obtain ⟨-, hit⟩ | ⟨⟨hu, -, -⟩, code, c₁, hparse, hend⟩ := loopBody_cases hb
  · cases hit
  · obtain ⟨rc₁, hp, rfl⟩ := parseRequest_of_startsMultibulk hc hu hparse
    have hselected : Poised c.selected.rc := ⟨h.inBuffer, h.multiBulkLen, h.bulkLen⟩
    obtain ⟨hpoised, -, hlt⟩ := hselected.processMultibulkBuffer hp
    obtain ⟨-, hit⟩ | ⟨rfl, -, rc, hreset, hit⟩ | ⟨rfl, -, code₂, c₂, hexec, hit⟩ := hend
    · cases hit
    · cases hit
      obtain ⟨hreset', hunread⟩ := hpoised.behind (resetRedisClient_sameBuffer hreset)
        (.inl (resetRedisClient_isReset hreset))
      exact ⟨hreset', by rw [hunread]; exact hlt rfl⟩
    · obtain rfl : c' = c₂ := by
        split at hit <;> cases hit
        rfl
      have hpoint : c'.rc.IsReset ∨ c'.rc.multiBulkLen = rc₁.multiBulkLen ∧
          c'.rc.bulkLen = rc₁.bulkLen ∧ c'.rc.flag = rc₁.flag := by
        obtain ⟨-, o, name, -, -, ⟨-, rfl⟩ | ⟨cmd, server, rc₂, rc₃, -, -, hreset, rfl⟩⟩ :=
          processCommandAndResetClient_cases hexec
        · exact .inr ⟨rfl, rfl, rfl⟩
        · exact .inl (resetRedisClient_isReset hreset)
      obtain ⟨hexec', hunread⟩ :=
        hpoised.behind (processCommandAndResetClient_sameBuffer hexec).1 hpoint
      exact ⟨hexec', by rw [hunread]; exact hlt rfl⟩

/-- The loop comes to an end: there are fewer iterations than unread bytes and one more.
The induction is on the bound. -/
theorem Poised.ends (h : Poised c.rc) (hmulti : ∀ k c', Iterated M c k c' → StartsMultibulk c')
    {fuel : Nat} (hfuel : c.rc.unread.length < fuel) (c' : Conn σ) :
    redisProcessInputBuffer M fuel c ≠ .running c' := by
  induction fuel generalizing c with
  | zero => exact absurd hfuel (Nat.not_lt_zero _)
  | succ fuel ih =>
      intro hrun
      rw [redisProcessInputBuffer] at hrun
      split at hrun
      · cases hrun
      · cases hrun
      · next executed c₁ hb =>
          obtain ⟨hpoised, hless⟩ := h.again (hmulti 0 c .zero) hb
          exact ih hpoised (fun k c₂ hit ↦ hmulti (k + 1) c₂ (.cons hb hit)) (by omega) hrun

/-- **Multibulk processing makes progress.**  For every client with something to read whose
counters are in range:

* if a call of `process_multibulk_buffer` gets to its loop, the loop ends under its own
  condition, after `multi_bulk_len` iterations at the latest;
* a call that returns `0` leaves fewer unread bytes, and the position inside the buffer;
* if whatever the outer loop comes to is parsed as a multibulk request, well formed or not,
  `redis_process_input_buffer` returns or stops the process, within one iteration more than
  there are unread bytes. -/
theorem multibulk_progress (M : Machine σ) (c : Conn σ) (hpos : c.rc.qbPos < c.rc.querybuf.length)
    (hmbl : 0 ≤ c.rc.multiBulkLen) (hbl : -1 ≤ c.rc.bulkLen ∧ c.rc.bulkLen ≤ protoMaxBulkLen) :
    (∀ (rc : RedisClient) (fuel : Nat), InLoop M.lib c.rc rc → rc.multiBulkLen < fuel →
        multibulkWhile M.lib fuel rc = some (multibulkLoop M.lib rc.multiBulkLen.toNat rc)) ∧
      (∀ rc', processMultibulkBuffer M.lib c.rc = .ok (0, rc') →
        rc'.qbPos ≤ rc'.querybuf.length ∧
        rc'.querybuf.length - rc'.qbPos < c.rc.querybuf.length - c.rc.qbPos) ∧
      ((∀ k c', Iterated M c k c' → StartsMultibulk c') →
        ∀ fuel, c.rc.querybuf.length - c.rc.qbPos < fuel →
          (∃ ret c', redisProcessInputBuffer M fuel c = .returned ret c') ∨
            ∃ f c', redisProcessInputBuffer M fuel c = .faulted f c') := by
  have hpoised : Poised c.rc := ⟨hpos.le, hmbl, by
    by_cases hknown : c.rc.bulkLen = -1
    · exact .inl hknown
    · exact .inr ⟨by omega, fun _ ↦ hbl.2⟩⟩
  refine ⟨?_, ?_, ?_⟩
  · intro rc fuel hin hfuel
    have hnonneg := (hpoised.inLoop hin).poised.multiBulkLen
    exact multibulkWhile_eq (Int.toNat_of_nonneg hnonneg).symm (by omega)
  · intro rc' hp
    obtain ⟨⟨hq, -, -⟩, -, hlt⟩ := hpoised.processMultibulkBuffer hp
    have hless := hlt rfl
    rw [RedisClient.unread, RedisClient.unread, List.length_drop, List.length_drop] at hless
    exact ⟨hq, hless⟩
  · intro hmulti fuel hfuel
    have hends := hpoised.ends hmulti (by rw [RedisClient.unread, List.length_drop]; exact hfuel)
    cases hr : redisProcessInputBuffer M fuel c with
    | returned ret c' => exact .inl ⟨ret, c', rfl⟩
    | faulted f c' => exact .inr ⟨f, c', rfl⟩
    | running c' => exact absurd hr (hends c')

/-- An empty request and half of a `PING`. -/
theorem multibulk_progress_ping :
    let M := machine .sample .absent fun _ ↦ 1
    let c := deliver (ascii "*0\r\n*1\r\n$4\r\nPI") freshConn
    (∃ ret c', redisProcessInputBuffer M 15 c = .returned ret c') ∨
      ∃ f c', redisProcessInputBuffer M 15 c = .faulted f c' := by
  refine (multibulk_progress _ _ (by decide) (by decide) (by decide)).2.2 ?_ 15 (by decide)
  obtain ⟨c₁, hfirst, hstar, hstop⟩ : ∃ c₁, loopBody (machine .sample .absent fun _ ↦ 1)
      (deliver (ascii "*0\r\n*1\r\n$4\r\nPI") freshConn) = .ok (.again false c₁) ∧
      selectReqType c₁.rc = protoReqMultibulk ∧
      ∃ ret c₂, loopBody (machine .sample .absent fun _ ↦ 1) c₁ = .ok (.stop ret c₂) :=
    ⟨_, rfl, by decide, _, _, rfl⟩
  obtain ⟨ret, c₂, hstop⟩ := hstop
  -- the connection is where it was delivered to, or behind the empty request
  have hstates : ∀ k c', Iterated (machine .sample .absent fun _ ↦ 1)
      (deliver (ascii "*0\r\n*1\r\n$4\r\nPI") freshConn) k c' →
      c' = deliver (ascii "*0\r\n*1\r\n$4\r\nPI") freshConn ∨ c' = c₁ := by
    intro k c' hit
    induction hit with
    | zero => exact .inl rfl
    | succ _ hb ih =>
        rcases ih with rfl | rfl
        · cases hfirst.symm.trans hb
          exact .inr rfl
        · cases hstop.symm.trans hb
  intro k c' hit
  rcases hstates k c' hit with rfl | rfl
  · exact fun _ ↦ by decide
  · exact fun _ ↦ hstar

end LatteRedis
