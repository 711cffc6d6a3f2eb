import LatteRedis.Client.Chunking
import LatteRedis.Client.Isolation

/-!
# Protocol errors are not terminal

Every error exit of the two parsers replies `Protocol error`, calls `set_protocol_error`
and returns, with the malformed bytes still unread.  `set_protocol_error` writes a line
to the log.  It neither closes the connection nor skips the bytes, so the next read
parses them again.

`protocolError_repeats` is the consequence: after any protocol error, whatever led to it,
a read that brings no line terminator is answered with another error.  So no protocol
error ends the conversation (`protocolError_not_terminal`).
-/

namespace LatteRedis

open ByteString Incremental

variable {L : LatteC}

/-- `rc₂` is at the point `rc` is at, with the bytes `v` behind the unread ones. -/
structure ExtendsBy (v : Bytes) (rc rc₂ : RedisClient) : Prop where
  reqType : rc₂.reqType = rc.reqType
  argc : rc₂.argc = rc.argc
  multiBulkLen : rc₂.multiBulkLen = rc.multiBulkLen
  bulkLen : rc₂.bulkLen = rc.bulkLen
  isMaster : rc₂.isMaster = rc.isMaster
  inBuffer : rc.InBuffer
  inBuffer₂ : rc₂.InBuffer
  unread : rc₂.unread = rc.unread ++ v

theorem ExtendsBy.refl {rc : RedisClient} (h : rc.InBuffer) : ExtendsBy [] rc rc :=
  ⟨rfl, rfl, rfl, rfl, rfl, h, h, (List.append_nil _).symm⟩

/-! ## Errors repeat -/

/-- What the header tests of the parser see of a longer buffer. -/
theorem ExtendsBy.strchr_none {v : Bytes} {rc rc₂ : RedisClient} (h : ExtendsBy v rc rc₂)
    {b : UInt8} (hv : b ∉ v) (hs : strchr b rc.unread = none) : strchr b rc₂.unread = none := by
  rw [h.unread]
  exact strchr_append_of_notMem hs hv

theorem ExtendsBy.strchr_some {v : Bytes} {rc rc₂ : RedisClient} (h : ExtendsBy v rc rc₂)
    {b : UInt8} {p : Nat} (hs : strchr b rc.unread = some p) : strchr b rc₂.unread = some p := by
  rw [h.unread]
  exact strchr_append hs v

theorem ExtendsBy.usub_le {v : Bytes} {rc rc₂ : RedisClient} (h : ExtendsBy v rc rc₂) :
    usub rc.querybuf.length rc.qbPos ≤ usub rc₂.querybuf.length rc₂.qbPos := by
  rw [h.inBuffer.usub_eq, h.inBuffer₂.usub_eq, h.unread, List.length_append]
  omega

/-- A complete header line is the same line in the longer buffer. -/
theorem ExtendsBy.line {v : Bytes} {rc rc₂ : RedisClient} (h : ExtendsBy v rc rc₂) {p : Nat}
    (hp : ¬ ((p : Int) > rc.querybuf.length - rc.qbPos - 2)) :
    ¬ ((p : Int) > rc₂.querybuf.length - rc₂.qbPos - 2) ∧ rc₂.unread.head? = rc.unread.head? ∧
      rc₂.unread.take p = rc.unread.take p := by
  have hlen := h.inBuffer.length_eq
  have hlen₂ := h.inBuffer₂.length_eq
  rw [h.unread, List.length_append] at hlen₂
  refine ⟨by omega, ?_, ?_⟩
  · rw [h.unread, List.head?_append]
    cases hu : rc.unread with
    | nil => rw [hu, List.length_nil] at hlen; omega
    | cons b u => rfl
  · rw [h.unread, List.take_append_of_le_length (by omega)]

theorem readMultibulkLen_repeats {v : Bytes} {rc rc₂ rc' : RedisClient} {code : Int}
    (hext : ExtendsBy v rc rc₂) (hv : CR ∉ v) (h : readMultibulkLen L rc = .ok (.ret code rc'))
    (hne : rc'.protocolErrors ≠ rc.protocolErrors) :
    Errored L rc rc' ∧ code = -1 ∧
      ∃ rc₂', readMultibulkLen L rc₂ = .ok (.ret (-1) rc₂') ∧ Errored L rc₂ rc₂' := by
  unfold readMultibulkLen at h ⊢
  split at h
  · cases h
  · next hargc =>
      rw [if_neg (by rw [hext.argc]; exact hargc)]
      split at h
      · next hcr =>
          rw [hext.strchr_none hv hcr]
          split at h
          · next hlong =>
              cases h
              dsimp only
              rw [if_pos (Nat.lt_of_lt_of_le hlong hext.usub_le)]
              exact ⟨errored_protocolError .., rfl, _, rfl, errored_protocolError ..⟩
          · cases h
            exact absurd rfl hne
      · next p hcr =>
          rw [hext.strchr_some hcr]
          dsimp only at h ⊢
          split at h
          · cases h
            exact absurd rfl hne
          · next hp =>
              obtain ⟨hp₂, hhead, htake⟩ := hext.line hp
              rw [if_neg hp₂, hhead, htake]
              split at h
              · cases h
              · next hstar =>
                  rw [if_neg hstar]
                  split at h
                  · cases h
                    exact ⟨errored_protocolError .., rfl, _, rfl, errored_protocolError ..⟩
                  · split at h
                    · next hbig =>
                        cases h
                        rw [if_pos hbig]
                        exact ⟨errored_protocolError .., rfl, _, rfl, errored_protocolError ..⟩
                    · split at h
                      · next hauth => simp [authRequired] at hauth
                      · split at h
                        · cases h
                          exact absurd rfl hne
                        · obtain ⟨rc₁, -, h⟩ := Run.bind_eq_ok.mp h
                          cases h

theorem readBulkLen_repeats {v : Bytes} {rc rc₂ rc' : RedisClient} {code : Int}
    (hext : ExtendsBy v rc rc₂) (hv : CR ∉ v) (h : readBulkLen L rc = .ret code rc') :
    Errored L rc rc' ∧ code = -1 ∧ ∃ rc₂', readBulkLen L rc₂ = .ret (-1) rc₂' ∧ Errored L rc₂ rc₂' := by
  unfold readBulkLen at h ⊢
  split at h
  · next hcr =>
      rw [hext.strchr_none hv hcr]
      split at h
      · next hlong =>
          cases h
          dsimp only
          rw [if_pos (Nat.lt_of_lt_of_le hlong hext.usub_le)]
          exact ⟨errored_protocolError .., rfl, _, rfl, errored_protocolError ..⟩
      · cases h
  · next p hcr =>
      rw [hext.strchr_some hcr]
      dsimp only at h ⊢
      split at h
      · cases h
      · next hp =>
          obtain ⟨hp₂, hhead, htake⟩ := hext.line hp
          rw [if_neg hp₂, hhead, htake]
          split at h
          · next hmark =>
              cases h
              rw [if_pos hmark]
              exact ⟨⟨_, _, rfl⟩, rfl, _, rfl, ⟨_, _, rfl⟩⟩
          · next hmark =>
              rw [if_neg hmark]
              split at h
              · cases h
                exact ⟨errored_protocolError .., rfl, _, rfl, errored_protocolError ..⟩
              · rw [hext.isMaster]
                split at h
                · next hbad =>
                    cases h
                    rw [if_pos hbad]
                    exact ⟨errored_protocolError .., rfl, _, rfl, errored_protocolError ..⟩
                · split at h
                  · next hauth => simp [authRequired] at hauth
                  · split at h <;> cases h

/-! ## Where the loop stops with an error -/

/-- What the count line can lead to, apart from a return. -/
theorem readMultibulkLen_flow {rc : RedisClient} {f : Flow} (hq : rc.InBuffer)
    (h : readMultibulkLen L rc = .ok f) :
    (∃ code rc', f = .ret code rc') ∨
      ∃ rc', f = .next rc' ∧ rc.ParsedInto rc' ∧ rc'.InBuffer ∧ rc'.bulkLen = rc.bulkLen := by
  have hlen := hq.length_eq
  obtain ⟨-, rfl | ⟨rc', rfl, -⟩ | ⟨newline, hline, rfl | ⟨ll, -, rfl⟩⟩⟩ := readMultibulkLen_ends h
  · exact .inl ⟨_, _, rfl⟩
  · exact .inl ⟨_, _, rfl⟩
  · exact .inl ⟨_, _, rfl⟩
  · exact .inr ⟨_, rfl, rfl, hq.advance (k := newline + 2) (by omega), rfl⟩

theorem readBulkLen_next {rc rc' : RedisClient} (hq : rc.InBuffer)
    (h : readBulkLen L rc = .next rc') :
    rc.ParsedInto rc' ∧ rc'.InBuffer ∧ rc'.multiBulkLen = rc.multiBulkLen ∧ 0 ≤ rc'.bulkLen := by
  have hlen := hq.length_eq
  obtain h' | ⟨_, h', -⟩ | ⟨newline, ll, hline, hpos, h' | h'⟩ := readBulkLen_ends L rc
  all_goals
    rw [h'] at h
    cases h
  · exact ⟨rfl, hq.advance (k := newline + 2) (by omega), rfl, hpos⟩
  · exact ⟨rfl, Nat.zero_le _, rfl, hpos⟩

theorem readBulkLen_brk {rc rc' : RedisClient} (h : readBulkLen L rc = .brk rc') : rc' = rc := by
  obtain h' | ⟨_, h', -⟩ | ⟨newline, ll, -, -, h' | h'⟩ := readBulkLen_ends L rc
  all_goals
    rw [h'] at h
    cases h
  rfl

theorem readBulkArg_keeps {rc : RedisClient} {f : Flow} (hq : rc.InBuffer) (hbl : 0 ≤ rc.bulkLen)
    (h : readBulkArg L rc = .ok f) :
    f = .brk rc ∨ ∃ rc', f = .next rc' ∧ rc.ParsedInto rc' ∧ rc'.InBuffer ∧
      rc'.multiBulkLen = rc.multiBulkLen - 1 ∧ rc'.bulkLen = -1 := by
  have hlen := hq.length_eq
  obtain rfl | ⟨hfull, o, rc₁, hpush, hf⟩ := readBulkArg_ends h
  · exact .inl rfl
  · right
    rw [hq.usub_eq] at hfull
    obtain ⟨a, -, -, -, rfl⟩ := pushArg_ends hpush
    obtain ⟨hpos, rfl⟩ | rfl := hf
    · exact ⟨_, rfl, rfl, hpos.le, rfl, rfl⟩
    · refine ⟨_, rfl, rfl, ?_, rfl, rfl⟩
      show rc.qbPos + rc.bulkLen.toNat + 2 ≤ rc.querybuf.length
      omega

/-- An error inside the loop comes from a length line. -/
theorem multibulkLoop_errored (n : Nat) {rc rc' : RedisClient} {code : Int} (hq : rc.InBuffer)
    (hbl : -1 ≤ rc.bulkLen) (hn : rc.multiBulkLen = n)
    (h : multibulkLoop L n rc = .ok (code, rc')) (hne : rc'.protocolErrors ≠ rc.protocolErrors) :
    ∃ rc₁, rc.ParsedInto rc₁ ∧ rc₁.InBuffer ∧ rc₁.bulkLen = -1 ∧ 0 < rc₁.multiBulkLen ∧
      readBulkLen L rc₁ = .ret code rc' := by
  induction n generalizing rc with
  | zero =>
      cases h
      exact absurd rfl hne
  | succ n ih =>
      -- what an iteration does once the length of the argument is known
      have harg : ∀ rc₁ : RedisClient, rc.ParsedInto rc₁ → rc₁.InBuffer →
          rc₁.multiBulkLen = n + 1 → 0 ≤ rc₁.bulkLen →
          multibulkLoop L (n + 1) rc₁ = .ok (code, rc') →
          ∃ rc₂, rc.ParsedInto rc₂ ∧ rc₂.InBuffer ∧ rc₂.bulkLen = -1 ∧ 0 < rc₂.multiBulkLen ∧
            readBulkLen L rc₂ = .ret code rc' := by
        intro rc₁ hparsed hq₁ hmbl hpos h
        rw [multibulkLoop_of_ne (by omega)] at h
        obtain ⟨f, hf, h⟩ := Run.bind_eq_ok.mp h
        rcases readBulkArg_keeps hq₁ hpos hf with rfl | ⟨rc₂, rfl, hparsed₂, hq₂, hmbl₂, hbl₂⟩
        · cases h
          exact absurd hparsed.protocolErrors_eq hne
        · obtain ⟨rc₃, hparsed₃, hrest⟩ := ih hq₂ (by omega) (by rw [hmbl₂, hmbl]; omega) h
            (by rw [(hparsed.trans hparsed₂).protocolErrors_eq]; exact hne)
          exact ⟨rc₃, (hparsed.trans hparsed₂).trans hparsed₃, hrest⟩
      by_cases hunknown : rc.bulkLen = -1
      · cases hread : readBulkLen L rc with
        | ret code₁ rc₁ =>
            rw [multibulkLoop, if_pos hunknown, hread] at h
            cases h
            exact ⟨rc, .refl rc, hq, hunknown, by omega, hread⟩
        | brk rc₁ =>
            rw [multibulkLoop, if_pos hunknown, hread] at h
            cases h
            rw [readBulkLen_brk hread] at hne
            exact absurd rfl hne
        | next rc₁ =>
            obtain ⟨hparsed, hq₁, hmbl, hpos⟩ := readBulkLen_next hq hread
            rw [multibulkLoop_of_next hunknown hread (by omega)] at h
            exact harg rc₁ hparsed hq₁ (by rw [hmbl, hn]; rfl) hpos h
      · exact harg rc (.refl rc) hq (by rw [hn]; rfl) (by omega) h

/-! ## Whole calls of the parsers

`Sticks parse rc rc'` says that `rc'` has been answered with an error, at a point from
which every longer buffer without a line terminator is answered with an error again. -/

/-- The bytes of a read that brings no line terminator. -/
def NoTerminator (v : Bytes) : Prop := CR ∉ v ∧ LF ∉ v

/-- A client that has been answered with an error, and will be again. -/
def Sticks (L : LatteC) (parse : RedisClient → Except Fault (Int × RedisClient))
    (rc rc' : RedisClient) : Prop :=
  ∃ rc₁, rc.ParsedInto rc₁ ∧ rc₁.InBuffer ∧ rc₁.unread ≠ [] ∧ Errored L rc₁ rc' ∧
    ∀ v rc₂, NoTerminator v → ExtendsBy v rc₁ rc₂ →
      ∃ rc₂', parse rc₂ = .ok (-1, rc₂') ∧ Errored L rc₂ rc₂'

theorem readBulkLen_unread {rc rc' : RedisClient} {code : Int} (hq : rc.InBuffer)
    (h : readBulkLen L rc = .ret code rc') : rc.unread ≠ [] := by
  intro hu
  unfold readBulkLen at h
  rw [hu, strchr_nil, hq.usub_eq, hu] at h
  cases h

/-- An error in the loop is found again at the same length line. -/
theorem multibulkLoop_sticks {rc rc₀ rc' : RedisClient} {code : Int} (hparsed : rc.ParsedInto rc₀)
    (hq : rc₀.InBuffer) (hbl : -1 ≤ rc₀.bulkLen) (hne : rc'.protocolErrors ≠ rc.protocolErrors)
    (h : (if rc₀.multiBulkLen > 0 then multibulkLoop L rc₀.multiBulkLen.toNat rc₀
      else .error (.assertion "rc->multibulklen")) = .ok (code, rc')) :
    code = -1 ∧ Sticks L (processMultibulkBuffer L) rc rc' := by
  split at h
  · obtain ⟨rc₁, hparsed₁, hq₁, hunknown, hpos₁, hread⟩ := multibulkLoop_errored _ hq hbl
      (by omega) h (by rw [hparsed.protocolErrors_eq]; exact hne)
    obtain ⟨herr, hcode, -⟩ := readBulkLen_repeats (.refl hq₁) (by simp) hread
    refine ⟨hcode, rc₁, hparsed.trans hparsed₁, hq₁, readBulkLen_unread hq₁ hread, herr, ?_⟩
    intro v rc₂ hv hext
    obtain ⟨-, -, rc₂', hread₂, herr₂⟩ := readBulkLen_repeats hext hv.1 hread
    refine ⟨rc₂', ?_, herr₂⟩
    have hpos₂ : 0 < rc₂.multiBulkLen := by rw [hext.multiBulkLen]; exact hpos₁
    obtain ⟨n, hn⟩ : ∃ n : Nat, rc₂.multiBulkLen.toNat = n + 1 :=
      ⟨rc₂.multiBulkLen.toNat - 1, by omega⟩
    unfold processMultibulkBuffer
    rw [if_neg (by omega), Run.ok_bind]
    simp only [if_pos hpos₂, hn]
    rw [multibulkLoop, if_pos (by rw [hext.bulkLen]; exact hunknown), hread₂]
  · cases h

theorem processMultibulkBuffer_sticks {rc rc' : RedisClient} {code : Int} (hq : rc.InBuffer)
    (hu : rc.unread ≠ []) (hbl : -1 ≤ rc.bulkLen)
    (h : processMultibulkBuffer L rc = .ok (code, rc'))
    (hne : rc'.protocolErrors ≠ rc.protocolErrors) :
    code = -1 ∧ Sticks L (processMultibulkBuffer L) rc rc' := by
  unfold processMultibulkBuffer at h
  obtain ⟨f, hf, h⟩ := Run.bind_eq_ok.mp h
  split at hf
  · next hmbl =>
      cases f with
      | ret code₁ rc₁ =>
          cases h
          obtain ⟨herr, hcode, -⟩ := readMultibulkLen_repeats (.refl hq) (by simp) hf hne
          refine ⟨hcode, rc, .refl rc, hq, hu, herr, ?_⟩
          intro v rc₂ hv hext
          obtain ⟨-, -, rc₂', hread₂, herr₂⟩ := readMultibulkLen_repeats hext hv.1 hf hne
          refine ⟨rc₂', ?_, herr₂⟩
          unfold processMultibulkBuffer
          rw [if_pos (by rw [hext.multiBulkLen]; exact hmbl), hread₂]
          rfl
      | brk rc₁ =>
          rcases readMultibulkLen_flow hq hf with ⟨_, _, h⟩ | ⟨_, h, -⟩ <;> cases h
      | next rc₁ =>
          rcases readMultibulkLen_flow hq hf with ⟨_, _, h'⟩ | ⟨rc₁', h', hparsed, hq₁, hbl₁⟩ <;>
            cases h'
          exact multibulkLoop_sticks hparsed hq₁ (by rw [hbl₁]; exact hbl) hne h
  · cases hf
    exact multibulkLoop_sticks (.refl rc) hq hbl hne h

theorem inlineLine_append {u : Bytes} {newline : Nat} (h : newline < u.length) (v : Bytes)
    (lf lf₂ : Int) : (inlineLine (u ++ v) newline lf₂).1 = (inlineLine u newline lf).1 := by
  unfold inlineLine
  rw [List.getElem?_append_left (by omega)]
  split <;> exact List.take_append_of_le_length (by omega)

theorem processInlineBuffer_sticks {unixtime linefeedChars : Int} {rc rc' : RedisClient} {code : Int}
    (hq : rc.InBuffer) (hu : rc.unread ≠ [])
    (h : processInlineBuffer L unixtime linefeedChars rc = .ok (code, rc'))
    (hne : rc'.protocolErrors ≠ rc.protocolErrors) (hreply : rc'.reply ≠ rc.reply)
    (unixtime₂ linefeedChars₂ : Int) :
    code = -1 ∧ Sticks L (processInlineBuffer L unixtime₂ linefeedChars₂) rc rc' := by
  unfold processInlineBuffer at h
  split at h
  · next hlf =>
      split at h
      · next hlong =>
          cases h
          refine ⟨rfl, rc, .refl rc, hq, hu, errored_protocolError .., ?_⟩
          intro v rc₂ hv hext
          unfold processInlineBuffer
          rw [hext.strchr_none hv.2 hlf]
          dsimp only
          rw [if_pos (Nat.lt_of_lt_of_le hlong hext.usub_le)]
          exact ⟨_, rfl, errored_protocolError ..⟩
      · cases h
        exact absurd rfl hne
  · next newline hlf =>
      dsimp only at h
      split at h
      · next hsplit =>
          cases h
          refine ⟨rfl, rc, .refl rc, hq, hu, errored_protocolError .., ?_⟩
          intro v rc₂ hv hext
          unfold processInlineBuffer
          rw [hext.strchr_some hlf, hext.unread]
          dsimp only
          rw [inlineLine_append (strchr_lt hlf) v linefeedChars linefeedChars₂, hsplit]
          exact ⟨_, rfl, errored_protocolError ..⟩
      · unfold acceptInlineLine at h
        split at h
        · cases h
          obtain ⟨t, ht⟩ := ackNewline_eq unixtime
            (inlineLine rc.unread newline linefeedChars).1.length rc
          rw [ht] at hreply
          exact absurd rfl hreply
        · obtain ⟨rc₁, hstore, h⟩ := Run.bind_eq_ok.mp h
          cases h
          obtain ⟨t, ht⟩ := ackNewline_eq unixtime
            (inlineLine rc.unread newline linefeedChars).1.length rc
          rw [ht] at hstore
          obtain rfl | rfl := storeInlineArgs_ends hstore <;> exact absurd rfl hne

/-! ## The length of the next argument

In every run it is `-1` or a length, which is what keeps the position inside the buffer. -/

theorem processMultibulkBuffer_bulkLen {rc rc' : RedisClient} {code : Int}
    (h : processMultibulkBuffer L rc = .ok (code, rc')) (hbl : -1 ≤ rc.bulkLen) :
    -1 ≤ rc'.bulkLen := by
  refine processMultibulkBuffer_invariant (P := fun rc ↦ -1 ≤ rc.bulkLen) ?_ ?_ ?_ hbl h
  · intro rc f hbl h
    obtain ⟨-, rfl | ⟨_, rfl, _, _, rfl⟩ | ⟨_, -, rfl | ⟨_, -, rfl⟩⟩⟩ := readMultibulkLen_ends h
    all_goals exact hbl
  · intro rc hbl
    obtain h | ⟨_, h, _, _, rfl⟩ | ⟨_, ll, -, hpos, h | h⟩ := readBulkLen_ends L rc
    all_goals rw [h]
    · exact hbl
    · exact hbl
    · exact Int.le_trans (by decide) hpos
    · exact Int.le_trans (by decide) hpos
  · intro rc f hbl h
    obtain rfl | ⟨-, _, _, -, ⟨-, rfl⟩ | rfl⟩ := readBulkArg_ends h
    · exact hbl
    · exact Int.le_refl (-1)
    · exact Int.le_refl (-1)

theorem processInlineBuffer_bulkLen {unixtime linefeedChars : Int} {rc rc' : RedisClient}
    {code : Int} (h : processInlineBuffer L unixtime linefeedChars rc = .ok (code, rc')) :
    rc'.bulkLen = rc.bulkLen := by
  obtain ⟨-, rfl | ⟨_, _, rfl⟩ | ⟨_, _, rfl⟩⟩ | ⟨-, _, _, _, hstore⟩ := processInlineBuffer_ends h
  · rfl
  · rfl
  · rfl
  · obtain rfl | rfl := storeInlineArgs_ends hstore <;> rfl

variable {σ : Type} {M : Machine σ}

theorem parseRequest_bulkLen {c c' : Conn σ} {code : Int} (h : parseRequest M c = .ok (code, c'))
    (hbl : -1 ≤ c.rc.bulkLen) : -1 ≤ c'.rc.bulkLen := by
  unfold parseRequest at h
  split at h
  · obtain ⟨⟨code₁, rc₁⟩, hp, h⟩ := Run.bind_eq_ok.mp h
    cases h
    rw [show _ = _ from processInlineBuffer_bulkLen hp]
    exact hbl
  · split at h
    · obtain ⟨⟨code₁, rc₁⟩, hp, h⟩ := Run.bind_eq_ok.mp h
      cases h
      exact processMultibulkBuffer_bulkLen hp hbl
    · cases h

theorem processCommandAndResetClient_bulkLen {c c' : Conn σ} {code : Int}
    (h : processCommandAndResetClient M c = .ok (code, c')) (hbl : -1 ≤ c.rc.bulkLen) :
    -1 ≤ c'.rc.bulkLen := by
  obtain ⟨-, o, name, -, -, ⟨-, rfl⟩ | ⟨cmd, server, rc₁, rc₂, -, -, hreset, rfl⟩⟩ :=
    processCommandAndResetClient_cases h
  · exact hbl
  · rw [show rc₂.bulkLen = -1 from (resetRedisClient_isReset hreset).2.2.2]

theorem loopBody_bulkLen {c : Conn σ} {it : Iter σ} (h : loopBody M c = .ok it)
    (hbl : -1 ≤ c.rc.bulkLen) : -1 ≤ it.conn.rc.bulkLen := by
  obtain ⟨-, rfl⟩ | ⟨-, code, c₁, hp, hrest⟩ := loopBody_cases h
  · exact hbl
  · have hbl₁ := parseRequest_bulkLen hp hbl
    obtain ⟨-, rfl⟩ | ⟨-, -, rc, hreset, rfl⟩ | ⟨-, -, code₂, c₂, hexec, rfl⟩ := hrest
    · exact hbl₁
    · show -1 ≤ rc.bulkLen
      rw [show rc.bulkLen = -1 from (resetRedisClient_isReset hreset).2.2.2]
    · have hbl₂ := processCommandAndResetClient_bulkLen hexec hbl₁
      split <;> exact hbl₂

theorem bulkLen_of_reach {P : Conn σ → Prop} {c₀ c : Conn σ} {p : Place} (h₀ : c₀.rc.IsReset)
    (h : Reach M P c₀ p c) : -1 ≤ c.rc.bulkLen := by
  refine Reach.invariant (I := fun c ↦ -1 ≤ c.rc.bulkLen) (by rw [h₀.2.2.2]) (fun _ _ h ↦ h)
    (fun _ _ h ↦ h) (fun c ret h ↦ ?_) (fun _ _ _ h _ hb ↦ loopBody_bulkLen hb h)
    (fun _ _ _ h _ hb ↦ loopBody_bulkLen hb h) h
  unfold dropConsumed
  split <;> exact h

/-! ## Later reads -/

/-- The next read, when the rest of the server has moved to `s` meanwhile. -/
def nextRead (ret : Int) (c : Conn σ) (s : σ) (chunk : Bytes) : Conn σ :=
  deliver chunk { dropConsumed ret c with server := s }

theorem dropConsumed_extends {v : Bytes} {ret : Int} {c : Conn σ} {s : σ} {rc₁ : RedisClient}
    (hq : rc₁.InBuffer) (herr : Errored L rc₁ c.rc) :
    ExtendsBy v rc₁ (nextRead ret c s v).rc := by
  obtain ⟨text, line, hrc⟩ := herr
  unfold nextRead deliver dropConsumed
  split
  · refine ⟨by rw [hrc]; rfl, by rw [hrc]; rfl, by rw [hrc]; rfl, by rw [hrc]; rfl,
      by rw [hrc]; rfl, hq, Nat.zero_le _, ?_⟩
    rw [hrc]
    rfl
  · refine ⟨by rw [hrc]; rfl, by rw [hrc]; rfl, by rw [hrc]; rfl, by rw [hrc]; rfl,
      by rw [hrc]; rfl, hq, ?_, ?_⟩
    · rw [hrc]
      exact hq.receive v
    · rw [hrc]
      exact hq.unread_receive v

/-- At the top of the loop in `c`, a parser replies a protocol error and leaves `c'`. -/
structure ProtocolErrorAt (M : Machine σ) (c c' : Conn σ) : Prop where
  unread : c.rc.unread ≠ []
  closeAfterReply : c.rc.closeAfterReply = false
  closeAsap : c.rc.closeAsap = false
  parsed : ∃ code, parseRequest M c.selected = .ok (code, c')
  logged : c'.rc.protocolErrors ≠ c.rc.protocolErrors
  replied : c'.rc.reply ≠ c.rc.reply

/-- The parser of the protocol a client is in. -/
def parserOf (M : Machine σ) (c : Conn σ) : RedisClient → Except Fault (Int × RedisClient) :=
  if c.rc.reqType = protoReqInline then
    processInlineBuffer M.lib (M.backend.unixtime c.server) (M.stack c.inlineCalls)
  else processMultibulkBuffer M.lib

/-- A request is parsed by the parser of its protocol. -/
theorem parseRequest_eq {c : Conn σ} (hreq : c.rc.reqType = protoReqInline ∨
    c.rc.reqType = protoReqMultibulk) {code : Int} {rc' : RedisClient}
    (h : parserOf M c c.rc = .ok (code, rc')) :
    ∃ n, parseRequest M c = .ok (code, { c with rc := rc', inlineCalls := n }) := by
  unfold parserOf at h
  unfold parseRequest
  split at h
  · next hinline =>
      rw [if_pos hinline, h]
      exact ⟨_, rfl⟩
  · next hinline =>
      rw [if_neg hinline, if_pos (hreq.resolve_left hinline), h]
      exact ⟨_, rfl⟩

/-- The parser of a later client in the same protocol errs where this one did. -/
theorem ProtocolErrorAt.sticks {c c' : Conn σ} (h : ProtocolErrorAt M c c')
    (hbl : -1 ≤ c.rc.bulkLen) :
    loopBody M c = .ok (.stop (exitCode c'.rc) c') ∧
      (c.selected.rc.reqType = protoReqInline ∨ c.selected.rc.reqType = protoReqMultibulk) ∧
      ∀ c₂ : Conn σ, c₂.rc.reqType = c.selected.rc.reqType →
        Sticks M.lib (parserOf M c₂) c.selected.rc c'.rc := by
  have hq : c.selected.rc.InBuffer := (unread_ne_nil_iff.mp h.unread).le
  obtain ⟨code, hparsed⟩ := h.parsed
  obtain ⟨hcode, hreq, hsticks⟩ : code = -1 ∧
      (c.selected.rc.reqType = protoReqInline ∨ c.selected.rc.reqType = protoReqMultibulk) ∧
      ∀ c₂ : Conn σ, c₂.rc.reqType = c.selected.rc.reqType →
        Sticks M.lib (parserOf M c₂) c.selected.rc c'.rc := by
    unfold parseRequest at hparsed
    split at hparsed
    · next hinline =>
        obtain ⟨⟨code₁, rc₁⟩, hp, heq⟩ := Run.bind_eq_ok.mp hparsed
        cases heq
        have hstick := processInlineBuffer_sticks hq h.unread hp h.logged h.replied
        refine ⟨(hstick 0 0).1, .inl hinline, ?_⟩
        intro c₂ hreq₂
        unfold parserOf
        rw [if_pos (hreq₂.trans hinline)]
        exact (hstick _ _).2
    · next hinline =>
        split at hparsed
        · next hmulti =>
            obtain ⟨⟨code₁, rc₁⟩, hp, heq⟩ := Run.bind_eq_ok.mp hparsed
            cases heq
            obtain ⟨hcode, hstick⟩ := processMultibulkBuffer_sticks hq h.unread hbl hp h.logged
            refine ⟨hcode, .inr hmulti, ?_⟩
            intro c₂ hreq₂
            unfold parserOf
            rw [if_neg (by rw [hreq₂]; exact hinline)]
            exact hstick
        · cases hparsed
  refine ⟨?_, hreq, hsticks⟩
  rw [loopBody_eq h.unread h.closeAfterReply h.closeAsap, hparsed, hcode]
  rfl

/-- After a protocol error, the next read that brings no line terminator is answered with
a protocol error. -/
theorem protocolError_repeats {c₀ c c' : Conn σ} (h₀ : c₀.rc.IsReset)
    (hreach : Reach M (fun _ ↦ True) c₀ .top c) (h : ProtocolErrorAt M c c') (s : σ) {chunk : Bytes}
    (hchunk : NoTerminator chunk) :
    ∃ ret c₂, loopBody M (nextRead (exitCode c'.rc) c' s chunk) = .ok (.stop ret c₂) ∧
      c₂.calls = c'.calls ∧ Errored M.lib (nextRead (exitCode c'.rc) c' s chunk).rc c₂.rc := by
  obtain ⟨-, hreq, hsticks⟩ := h.sticks (bulkLen_of_reach h₀ hreach)
  have hne : c.selected.rc.reqType ≠ 0 := by
    rcases hreq with h | h <;> rw [h] <;> decide
  -- the client of the next read, and what it shares with the one that was answered
  obtain ⟨c₁, hc₁⟩ : ∃ c₁, nextRead (exitCode c'.rc) c' s chunk = c₁ := ⟨_, rfl⟩
  have hkeep : c₁.calls = c'.calls ∧ c₁.rc.reqType = c'.rc.reqType ∧
      c₁.rc.closeAfterReply = c'.rc.closeAfterReply ∧ c₁.rc.closeAsap = c'.rc.closeAsap := by
    rw [← hc₁]
    unfold nextRead deliver dropConsumed
    split <;> exact ⟨rfl, rfl, rfl, rfl⟩
  have herrored : c'.rc.reqType = c.selected.rc.reqType ∧
      c'.rc.closeAfterReply = false ∧ c'.rc.closeAsap = false := by
    obtain ⟨rc₁, hparsed, -, -, ⟨text, line, hrc⟩, -⟩ := hsticks c.selected rfl
    rw [hrc, hparsed]
    exact ⟨rfl, h.closeAfterReply, h.closeAsap⟩
  have hreq₁ : c₁.rc.reqType = c.selected.rc.reqType := hkeep.2.1.trans herrored.1
  have hselected : c₁.selected = c₁ := by
    show { c₁ with rc := { c₁.rc with reqType := selectReqType c₁.rc } } = c₁
    rw [selectReqType, if_neg (by rw [hreq₁]; exact hne)]
  obtain ⟨rc₁, -, hq₁, hu₁, herr, hagain⟩ := hsticks c₁ hreq₁
  have hext : ExtendsBy chunk rc₁ c₁.rc := hc₁ ▸ dropConsumed_extends hq₁ herr
  obtain ⟨rc₂, hparse, herr₂⟩ := hagain chunk c₁.rc hchunk hext
  obtain ⟨n, hparse⟩ := parseRequest_eq (by rw [hreq₁]; exact hreq) hparse
  rw [hc₁, loopBody_eq (by rw [hext.unread]; simp [hu₁]) (hkeep.2.2.1.trans herrored.2.1)
    (hkeep.2.2.2.trans herrored.2.2), hselected, hparse]
  exact ⟨_, _, rfl, hkeep.1, herr₂⟩

/-- Nothing happens on the connection any more: no handler is called and no byte is
replied, whatever is read. -/
def Terminal (M : Machine σ) (c : Conn σ) : Prop :=
  ∀ p c', Reach M (fun _ ↦ True) c p c' →
    c'.calls = c.calls ∧ c'.rc.reply.out = c.rc.reply.out

theorem Errored.out_ne (hL : L.AppendsProto) {rc rc' : RedisClient} (h : Errored L rc rc') :
    rc'.reply.out ≠ rc.reply.out := by
  obtain ⟨text, line, rfl⟩ := h
  rw [setProtocolError_reply, out_addReplyErrorLength hL]
  intro h
  have := congrArg List.length h
  simp [errorLine, crlf] at this

theorem dropConsumed_kept (ret : Int) (c : Conn σ) :
    (dropConsumed ret c).calls = c.calls ∧ (dropConsumed ret c).rc.reply = c.rc.reply := by
  unfold dropConsumed
  split <;> exact ⟨rfl, rfl⟩

/-- **A protocol error is never terminal.**  In every run from a reset client, whichever
parser replies a protocol error and whatever has been read before, there is a later read
that is answered. -/
theorem protocolError_not_terminal (M : Machine σ) (hL : M.lib.AppendsProto) (c₀ c c' : Conn σ)
    (h₀ : c₀.rc.IsReset) (hreach : Reach M (fun _ ↦ True) c₀ .top c)
    (h : ProtocolErrorAt M c c') :
    loopBody M c = .ok (.stop (exitCode c'.rc) c') ∧
      ¬ Terminal M (dropConsumed (exitCode c'.rc) c') := by
  refine ⟨(h.sticks (bulkLen_of_reach h₀ hreach)).1, ?_⟩
  intro hterm
  have hchunk : NoTerminator [97] := by
    unfold NoTerminator
    decide
  obtain ⟨ret, c₂, hbody, -, herr⟩ := protocolError_repeats h₀ hreach h c'.server hchunk
  have hserver : (dropConsumed (exitCode c'.rc) c').server = c'.server := by
    unfold dropConsumed
    split <;> rfl
  have hnext : nextRead (exitCode c'.rc) c' c'.server [97] =
      deliver [97] (dropConsumed (exitCode c'.rc) c') := by
    rw [nextRead, ← hserver]
  rw [hnext] at hbody herr
  obtain ⟨-, hout⟩ := hterm _ _ (.stop (.read [97] .start) trivial hbody)
  rw [(dropConsumed_kept ret c₂).2] at hout
  exact herr.out_ne hL hout

/-- The malformed count line `*x`. -/
theorem protocolError_not_terminal_count :
    let M := machine .sample .absent fun _ ↦ 1
    let c := deliver (ascii "*x\r\n") freshConn
    ∃ c', ProtocolErrorAt M c c' ∧ loopBody M c = .ok (.stop (exitCode c'.rc) c') ∧
      ¬ Terminal M (dropConsumed (exitCode c'.rc) c') := by
  have herr : ∃ c', ProtocolErrorAt (machine .sample .absent fun _ ↦ 1)
      (deliver (ascii "*x\r\n") freshConn) c' :=
    ⟨_, by decide, rfl, rfl, ⟨-1, rfl⟩, by decide, by decide⟩
  obtain ⟨c', herr⟩ := herr
  exact ⟨c', herr, protocolError_not_terminal _ LatteC.sample_appends freshConn _ c' (by decide)
    (.read _ .start) herr⟩

set_option maxRecDepth 2048 in
/-- The count line `*x` is answered when it is read, and once more when the byte `a` is
read behind it. -/
theorem malformedCount_answered_twice :
    let M := machine .sample .absent fun _ ↦ 1
    let answer := ascii "-ERR Protocol error: invalid multibulk length\r\n"
    freshConn.rc.IsReset ∧
      ∃ c₁ c₂, serveRead M 1 (ascii "*x\r\n") freshConn = .returned 0 c₁ ∧
        c₁.rc.protocolErrors = ["invalid mbulk count"] ∧ c₁.rc.reply.out = answer ∧
        serveRead M 1 (ascii "a") c₁ = .returned 0 c₂ ∧ c₂.rc.reply.out = answer ++ answer := by
  exact ⟨by decide, _, _, rfl, rfl, rfl, rfl, rfl⟩

end LatteRedis
