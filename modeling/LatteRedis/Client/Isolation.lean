import LatteRedis.Command.Handlers

/-!
# Request isolation

Between two requests a client is reset: no request type, no arguments, nothing missing.
`process_command_and_reset_client` does the reset, but only when `process_command`
returned `0`; a request whose first argument names no command returns `-1` and leaves
the client as the parser left it.  The assertion at the head of
`process_multibulk_buffer` is then at the mercy of the next bytes.

`request_isolation` says that this is the only gap.  In every run in which each executed
request names a command, the client is reset after each of them, the parsers' assertions
hold, and the protocol of a request is the one its own first byte announces.
`unknownCommand_argc` is the shortest run that is not of this kind.
-/

namespace LatteRedis

open ByteString

/-- Where a client stands in its current request. -/
inductive RequestPhase (rc : RedisClient) : Prop
  | reset (h : rc.IsReset)
  | inline (hreq : rc.reqType = protoReqInline)
      (h : rc.argc = 0 ∧ rc.multiBulkLen = 0 ∧ rc.bulkLen = -1) {b : UInt8}
      (hb : rc.unread.head? = some b) (hne : b ≠ 42)
  | count (hreq : rc.reqType = protoReqMultibulk)
      (h : rc.argc = 0 ∧ rc.multiBulkLen = 0 ∧ rc.bulkLen = -1)
      (hb : rc.unread.head? = some 42)
  | bulks (hreq : rc.reqType = protoReqMultibulk) (h : 0 < rc.multiBulkLen)

/-- `rc'` is at the same point of the same request as `rc`. -/
def RedisClient.SamePoint (rc rc' : RedisClient) : Prop :=
  rc'.reqType = rc.reqType ∧ rc'.argc = rc.argc ∧ rc'.multiBulkLen = rc.multiBulkLen ∧
    rc'.bulkLen = rc.bulkLen ∧ rc'.unread = rc.unread

theorem RequestPhase.of_samePoint {rc rc' : RedisClient} (h : RequestPhase rc)
    (hs : rc.SamePoint rc') : RequestPhase rc' := by
  obtain ⟨hreq, hargc, hmbl, hbl, hunread⟩ := hs
  cases h with
  | reset h =>
      obtain ⟨h₁, h₂, h₃, h₄⟩ := h
      exact .reset ⟨hreq.trans h₁, hargc.trans h₂, hmbl.trans h₃, hbl.trans h₄⟩
  | inline h₁ h hb hne =>
      exact .inline (hreq.trans h₁) (by rw [hargc, hmbl, hbl]; exact h) (by rw [hunread]; exact hb) hne
  | count h₁ h hb =>
      exact .count (hreq.trans h₁) (by rw [hargc, hmbl, hbl]; exact h) (by rw [hunread]; exact hb)
  | bulks h₁ h => exact .bulks (hreq.trans h₁) (by rw [hmbl]; exact h)

/-- More bytes do not change the phase. -/
theorem RequestPhase.append {rc rc' : RedisClient} (h : RequestPhase rc) (chunk : Bytes)
    (heq : rc' = { rc with querybuf := rc.querybuf ++ chunk, readReploff := rc'.readReploff }) :
    RequestPhase rc' := by
  have hhead : ∀ b, rc.unread.head? = some b → rc'.unread.head? = some b := by
    intro b hb
    have hlt : rc.qbPos ≤ rc.querybuf.length := by
      by_contra hgt
      rw [RedisClient.unread, List.drop_eq_nil_of_le (by omega)] at hb
      cases hb
    rw [heq, RedisClient.unread, List.drop_append_of_le_length hlt, List.head?_append,
      show (rc.querybuf.drop rc.qbPos).head? = some b from hb]
    rfl
  cases h with
  | reset h => exact .reset (by rw [heq]; exact h)
  | inline h₁ h hb hne =>
      exact .inline (by rw [heq]; exact h₁) (by rw [heq]; exact h) (hhead _ hb) hne
  | count h₁ h hb => exact .count (by rw [heq]; exact h₁) (by rw [heq]; exact h) (hhead _ hb)
  | bulks h₁ h => exact .bulks (by rw [heq]; exact h₁) (by rw [heq]; exact h)

/-! ## What one call of a parser leaves behind -/

variable {L : LatteC}

theorem processInlineBuffer_point {unixtime linefeedChars : Int} {rc rc' : RedisClient} {code : Int}
    (h : processInlineBuffer L unixtime linefeedChars rc = .ok (code, rc')) (hcode : code ≠ 0) :
    rc.SamePoint rc' := by
  obtain ⟨-, rfl | ⟨_, _, rfl⟩ | ⟨_, _, rfl⟩⟩ | ⟨hzero, -⟩ := processInlineBuffer_ends h
  · exact ⟨rfl, rfl, rfl, rfl, rfl⟩
  · exact ⟨rfl, rfl, rfl, rfl, rfl⟩
  · exact ⟨rfl, rfl, rfl, rfl, rfl⟩
  · exact absurd hzero hcode

theorem storeInlineArgs_error {rc : RedisClient} {args : List Bytes} {f : Fault}
    (h : storeInlineArgs rc args = .error f) : f = .badPointer := by
  unfold storeInlineArgs RedisClient.newArgv at h
  split at h
  · cases h
  · cases ha : rc.argv with
    | wild => rw [ha] at h; cases h; rfl
    | null | live a => rw [ha] at h; cases h

/-- The inline parser can only stop at a vector it cannot free. -/
theorem processInlineBuffer_error {unixtime linefeedChars : Int} {rc : RedisClient} {f : Fault}
    (h : processInlineBuffer L unixtime linefeedChars rc = .error f) : f = .badPointer := by
  unfold processInlineBuffer at h
  split at h
  · split at h <;> cases h
  · dsimp only at h
    split at h
    · cases h
    · unfold acceptInlineLine at h
      split at h
      · cases h
      · cases hs : storeInlineArgs _ _ with
        | error f' =>
            rw [hs] at h
            cases h
            exact storeInlineArgs_error hs
        | ok rc₁ => rw [hs] at h; cases h

theorem readMultibulkLen_cases {rc : RedisClient} (hargc : rc.argc = 0)
    (hb : rc.unread.head? = some 42) :
    (∃ rc', readMultibulkLen L rc = .ok (.ret (-1) rc') ∧ rc.SamePoint rc') ∨
      (∃ rc', readMultibulkLen L rc = .ok (.ret 0 rc')) ∨
      (∃ rc', readMultibulkLen L rc = .ok (.next rc') ∧ rc'.reqType = rc.reqType ∧
        0 < rc'.multiBulkLen) ∨
      readMultibulkLen L rc = .error .badPointer := by
  unfold readMultibulkLen
  rw [if_neg (not_not.mpr hargc)]
  split
  · left
    split <;> exact ⟨_, rfl, rfl, rfl, rfl, rfl, rfl⟩
  · dsimp only
    split
    · exact .inl ⟨_, rfl, rfl, rfl, rfl, rfl, rfl⟩
    · rw [if_neg (not_not.mpr hb)]
      split
      · exact .inl ⟨_, rfl, rfl, rfl, rfl, rfl, rfl⟩
      · next ll _ =>
          split
          · exact .inl ⟨_, rfl, rfl, rfl, rfl, rfl, rfl⟩
          · rw [if_neg (by simp [authRequired])]
            split
            · exact .inr (.inl ⟨_, rfl⟩)
            · next hpos =>
                right; right
                unfold RedisClient.newArgv
                cases rc.argv with
                | wild => exact .inr rfl
                | null | live a => exact .inl ⟨_, rfl, rfl, Int.not_le.mp hpos⟩

theorem readBulkLen_client (rc : RedisClient) :
    (readBulkLen L rc).client.reqType = rc.reqType ∧
      (readBulkLen L rc).client.multiBulkLen = rc.multiBulkLen ∧
      ∀ code rc', readBulkLen L rc = .ret code rc' → code = -1 := by
  obtain h | ⟨_, h, _, _, rfl⟩ | ⟨_, _, -, -, h | h⟩ := readBulkLen_ends L rc
  all_goals rw [h]
  · exact ⟨rfl, rfl, fun _ _ h ↦ by cases h⟩
  · exact ⟨rfl, rfl, fun _ _ h ↦ by cases h; rfl⟩
  · exact ⟨rfl, rfl, fun _ _ h ↦ by cases h⟩
  · exact ⟨rfl, rfl, fun _ _ h ↦ by cases h⟩

theorem pushArg_cases (rc : RedisClient) (o : LatteObject) :
    rc.pushArg o = .error .badPointer ∨
      ∃ rc', rc.pushArg o = .ok rc' ∧ rc'.reqType = rc.reqType := by
  unfold RedisClient.pushArg
  cases rc.argv with
  | null | wild => exact .inl rfl
  | live a =>
      dsimp only
      split
      · exact .inr ⟨_, rfl, rfl⟩
      · exact .inl rfl

theorem readBulkArg_cases (rc : RedisClient) :
    readBulkArg L rc = .error .badPointer ∨ readBulkArg L rc = .ok (.brk rc) ∨
      ∃ rc', readBulkArg L rc = .ok (.next rc') ∧ rc'.reqType = rc.reqType ∧
        rc'.multiBulkLen = rc.multiBulkLen - 1 := by
  unfold readBulkArg
  split
  · exact .inr (.inl rfl)
  · split
    all_goals
      rcases pushArg_cases rc _ with h | ⟨rc', h, hreq⟩ <;> rw [h]
      · exact .inl rfl
      · exact .inr (.inr ⟨_, rfl, hreq, rfl⟩)

/-- The loop ends with a request or in the middle of one. -/
theorem multibulkLoop_cases (n : Nat) {rc : RedisClient} (hn : rc.multiBulkLen = n) :
    multibulkLoop L n rc = .error .badPointer ∨
      ∃ code rc', multibulkLoop L n rc = .ok (code, rc') ∧
        (code = 0 ∨ (code = -1 ∧ rc'.reqType = rc.reqType ∧ 0 < rc'.multiBulkLen)) := by
  induction n generalizing rc with
  | zero =>
      refine .inr ⟨0, rc, ?_, .inl rfl⟩
      rw [multibulkLoop, multibulkCode, if_pos (by simpa using hn)]
  | succ n ih =>
      -- the client behind the length line, if that is read at all
      have hlen : ∃ f : Flow, (if rc.bulkLen = -1 then readBulkLen L rc else .next rc) = f ∧
          f.client.reqType = rc.reqType ∧ f.client.multiBulkLen = n + 1 ∧
          ∀ code rc', f = .ret code rc' → code = -1 := by
        split
        · obtain ⟨hreq, hmbl, hcode⟩ := readBulkLen_client (L := L) rc
          exact ⟨_, rfl, hreq, by rw [hmbl, hn]; rfl, hcode⟩
        · exact ⟨_, rfl, rfl, by rw [Flow.client, hn]; rfl, fun _ _ h ↦ by cases h⟩
      obtain ⟨f, hf, hreq, hmbl, hcode⟩ := hlen
      rw [multibulkLoop, hf]
      cases f with
      | ret code rc' =>
          have hmbl' : rc'.multiBulkLen = n + 1 := hmbl
          exact .inr ⟨code, rc', rfl, .inr ⟨hcode _ _ rfl, hreq, by omega⟩⟩
      | brk rc' =>
          have hmbl' : rc'.multiBulkLen = n + 1 := hmbl
          refine .inr ⟨-1, rc', ?_, .inr ⟨rfl, hreq, by omega⟩⟩
          simp only [multibulkCode]
          rw [if_neg (by omega)]
      | next rc₁ =>
          have hreq₁ : rc₁.reqType = rc.reqType := hreq
          have hmbl₁ : rc₁.multiBulkLen = n + 1 := hmbl
          dsimp only
          rcases readBulkArg_cases (L := L) rc₁ with h | h | ⟨rc₂, h, hreq₂, hmbl₂⟩ <;> rw [h]
          · exact .inl rfl
          · refine .inr ⟨-1, rc₁, ?_, .inr ⟨rfl, hreq₁, by omega⟩⟩
            show Except.ok (multibulkCode rc₁, rc₁) = _
            rw [multibulkCode, if_neg (by omega)]
          · rw [← hreq₁, ← hreq₂]
            exact ih (by omega)

/-- A call of the multibulk parser in the middle of a request or at its beginning. -/
theorem processMultibulkBuffer_cases {rc : RedisClient}
    (h : (rc.argc = 0 ∧ rc.multiBulkLen = 0 ∧ rc.unread.head? = some 42) ∨ 0 < rc.multiBulkLen) :
    processMultibulkBuffer L rc = .error .badPointer ∨
      ∃ code rc', processMultibulkBuffer L rc = .ok (code, rc') ∧
        (code = 0 ∨ rc.SamePoint rc' ∨ (rc'.reqType = rc.reqType ∧ 0 < rc'.multiBulkLen)) := by
  -- both ways into the loop
  have hloop : ∀ rc₁ : RedisClient, rc₁.reqType = rc.reqType → 0 < rc₁.multiBulkLen →
      multibulkLoop L rc₁.multiBulkLen.toNat rc₁ = .error .badPointer ∨
      ∃ code rc', multibulkLoop L rc₁.multiBulkLen.toNat rc₁ = .ok (code, rc') ∧
        (code = 0 ∨ rc.SamePoint rc' ∨ (rc'.reqType = rc.reqType ∧ 0 < rc'.multiBulkLen)) := by
    intro rc₁ hreq hpos
    have hn : rc₁.multiBulkLen = (rc₁.multiBulkLen.toNat : Int) := by omega
    rcases multibulkLoop_cases (L := L) rc₁.multiBulkLen.toNat hn with
      h | ⟨code, rc', h, h' | ⟨-, hreq', hpos'⟩⟩
    · exact .inl h
    · exact .inr ⟨code, rc', h, .inl h'⟩
    · exact .inr ⟨code, rc', h, .inr (.inr ⟨hreq'.trans hreq, hpos'⟩)⟩
  unfold processMultibulkBuffer
  rcases h with ⟨hargc, hmbl, hb⟩ | hpos
  · rw [if_pos hmbl]
    rcases readMultibulkLen_cases (L := L) hargc hb with
      ⟨rc', h, hsame⟩ | ⟨rc', h⟩ | ⟨rc', h, hreq, hpos⟩ | h <;> rw [h]
    · exact .inr ⟨-1, rc', rfl, .inr (.inl hsame)⟩
    · exact .inr ⟨0, rc', rfl, .inl rfl⟩
    · rw [Run.ok_bind]
      simp only [if_pos hpos]
      exact hloop rc' hreq hpos
    · exact .inl rfl
  · rw [if_neg (by omega), Run.ok_bind]
    simp only [if_pos hpos]
    exact hloop rc rfl hpos

/-! ## One iteration -/

variable {σ : Type} {M : Machine σ}

/-- The request this iteration completes, if it completes one, names a command. -/
def NamesCommand (M : Machine σ) (c : Conn σ) : Prop :=
  ∀ c₁ o name, parseRequest M c.selected = .ok (0, c₁) → c₁.rc.argc ≠ 0 →
    c₁.rc.argvAt 0 = .ok o → o.ptr = .ok name → (M.backend.lookup c₁.server name).isSome

/-- The phase of a client once the protocol has been selected. -/
theorem RequestPhase.selected {rc : RedisClient} (h : RequestPhase rc) :
    (selectReqType rc = protoReqInline ∧ rc.multiBulkLen = 0 ∧ rc.unread.head? ≠ some 42 ∧
        rc.argc = 0 ∧ rc.bulkLen = -1) ∨
      (selectReqType rc = protoReqMultibulk ∧ rc.multiBulkLen = 0 ∧ rc.unread.head? = some 42 ∧
        rc.argc = 0 ∧ rc.bulkLen = -1) ∨
      (selectReqType rc = protoReqMultibulk ∧ 0 < rc.multiBulkLen) := by
  unfold selectReqType
  cases h with
  | reset h =>
      obtain ⟨hreq, hargc, hmbl, hbl⟩ := h
      rw [if_pos hreq]
      by_cases hb : rc.unread.head? = some 42
      · rw [if_pos hb]
        exact .inr (.inl ⟨rfl, hmbl, hb, hargc, hbl⟩)
      · rw [if_neg hb]
        exact .inl ⟨rfl, hmbl, hb, hargc, hbl⟩
  | inline hreq h hb hne =>
      obtain ⟨hargc, hmbl, hbl⟩ := h
      rw [if_neg (by rw [hreq]; decide)]
      refine .inl ⟨hreq, hmbl, ?_, hargc, hbl⟩
      rw [hb]
      exact fun h ↦ hne (Option.some.inj h)
  | count hreq h hb =>
      obtain ⟨hargc, hmbl, hbl⟩ := h
      rw [if_neg (by rw [hreq]; decide)]
      exact .inr (.inl ⟨hreq, hmbl, hb, hargc, hbl⟩)
  | bulks hreq h =>
      rw [if_neg (by rw [hreq]; decide)]
      exact .inr (.inr ⟨hreq, h⟩)

/-- Parsing stops the process only at a stray pointer, and a call that does not complete a
request leaves the client in it. -/
theorem parseRequest_phase {c : Conn σ} (h : RequestPhase c.rc) (hu : c.rc.unread ≠ []) :
    parseRequest M c.selected = .error .badPointer ∨
      ∃ code c₁, parseRequest M c.selected = .ok (code, c₁) ∧ (code ≠ 0 → RequestPhase c₁.rc) := by
  obtain ⟨b, hhead⟩ : ∃ b, c.rc.unread.head? = some b :=
    Option.isSome_iff_exists.mp (List.isSome_head?.mpr hu)
  unfold parseRequest
  rcases h.selected with ⟨hreq, hmbl, hb, hargc, hbl⟩ | hmulti
  · have hphase : RequestPhase c.selected.rc :=
      .inline hreq ⟨hargc, hmbl, hbl⟩ hhead fun h ↦ hb (h ▸ hhead)
    rw [if_pos (by exact hreq)]
    cases hp : processInlineBuffer M.lib (M.backend.unixtime c.selected.server)
        (M.stack c.selected.inlineCalls) c.selected.rc with
    | error f => rw [processInlineBuffer_error hp]; exact .inl rfl
    | ok r =>
        obtain ⟨code, rc₁⟩ := r
        exact .inr ⟨code, _, rfl, fun hcode ↦ hphase.of_samePoint (processInlineBuffer_point hp hcode)⟩
  · obtain ⟨hreq, hphase, hstart⟩ : selectReqType c.rc = protoReqMultibulk ∧
        RequestPhase c.selected.rc ∧ ((c.selected.rc.argc = 0 ∧ c.selected.rc.multiBulkLen = 0 ∧
          c.selected.rc.unread.head? = some 42) ∨ 0 < c.selected.rc.multiBulkLen) := by
      rcases hmulti with ⟨hreq, hmbl, hb, hargc, hbl⟩ | ⟨hreq, hpos⟩
      · exact ⟨hreq, .count hreq ⟨hargc, hmbl, hbl⟩ hb, .inl ⟨hargc, hmbl, hb⟩⟩
      · exact ⟨hreq, .bulks hreq hpos, .inr hpos⟩
    rw [if_neg (by rw [show c.selected.rc.reqType = _ from hreq]; decide), if_pos (by exact hreq)]
    rcases processMultibulkBuffer_cases (L := M.lib) hstart with
      h | ⟨code, rc₁, h, hpoint⟩ <;> rw [h]
    · exact .inl rfl
    · refine .inr ⟨code, _, rfl, ?_⟩
      intro hcode
      rcases hpoint with h0 | hsame | ⟨hreq', hpos⟩
      · exact absurd h0 hcode
      · exact hphase.of_samePoint hsame
      · exact .bulks (hreq'.trans hreq) hpos

/-- The executed request leaves a reset client exactly if it names a command. -/
theorem isReset_of_executed {c c' : Conn σ} {code : Int} (hargc : c.rc.argc ≠ 0)
    (h : processCommandAndResetClient M c = .ok (code, c')) :
    c'.rc.IsReset ↔ ∃ o name, c.rc.argvAt 0 = .ok o ∧ o.ptr = .ok name ∧
      (M.backend.lookup c.server name).isSome := by
  obtain ⟨-, o, name, ho, hname, ⟨hl, rfl⟩ | ⟨cmd, server, rc₁, rc₂, hl, -, hreset, rfl⟩⟩ :=
    processCommandAndResetClient_cases h
  · constructor
    · intro hr
      exact absurd hr.2.1 hargc
    · rintro ⟨o', name', ho', hname', hl'⟩
      rw [ho] at ho'
      cases ho'
      rw [hname] at hname'
      cases hname'
      rw [hl] at hl'
      cases hl'
  · exact ⟨fun _ ↦ ⟨o, name, ho, hname, by rw [hl]; rfl⟩, fun _ ↦ resetRedisClient_isReset hreset⟩

theorem namesCommand_iff {c c₁ : Conn σ} (hp : parseRequest M c.selected = .ok (0, c₁))
    (hargc : c₁.rc.argc ≠ 0) {o : LatteObject} {name : Bytes} (ho : c₁.rc.argvAt 0 = .ok o)
    (hname : o.ptr = .ok name) :
    NamesCommand M c ↔ (M.backend.lookup c₁.server name).isSome := by
  constructor
  · intro h
    exact h c₁ o name hp hargc ho hname
  · intro h c₂ o' name' hp' _ ho' hname'
    rw [hp] at hp'
    cases hp'
    rw [ho] at ho'
    cases ho'
    rw [hname] at hname'
    cases hname'
    exact h

theorem executed_iff {c c' : Conn σ} (h : loopBody M c = .ok (.again true c')) :
    c'.rc.IsReset ↔ NamesCommand M c := by
  obtain ⟨-, heq⟩ | ⟨-, code, c₁, hp, ⟨-, heq⟩ | ⟨-, -, rc, -, heq⟩ |
    ⟨rfl, hargc, code₂, c₂, hexec, heq⟩⟩ := loopBody_cases h
  · cases heq
  · cases heq
  · cases heq
  · obtain rfl : c' = c₂ := by
      split at heq <;> cases heq
      rfl
    obtain ⟨-, o, name, ho, hname, -⟩ := processCommandAndResetClient_cases hexec
    rw [isReset_of_executed hargc hexec, namesCommand_iff hp hargc ho hname]
    constructor
    · rintro ⟨o', name', ho', hname', hl⟩
      rw [ho] at ho'
      cases ho'
      rw [hname] at hname'
      cases hname'
      exact hl
    · exact fun hl ↦ ⟨o, name, ho, hname, hl⟩

/-- What an iteration leaves behind: a reset client if control comes back to the top of the
loop, a client in some phase if the call returns. -/
def Iter.Settled : Iter σ → Prop
  | .again _ c => c.rc.IsReset
  | .stop _ c => RequestPhase c.rc

theorem loopBody_settled {c : Conn σ} (hphase : RequestPhase c.rc) (hname : NamesCommand M c)
    {it : Iter σ} (h : loopBody M c = .ok it) : it.Settled := by
  obtain ⟨-, rfl⟩ | ⟨⟨hu, -, -⟩, code, c₁, hp, hrest⟩ := loopBody_cases h
  · exact hphase
  · obtain ⟨hcode, rfl⟩ | ⟨-, -, rc, hreset, rfl⟩ | ⟨rfl, hargc, code₂, c₂, hexec, rfl⟩ := hrest
    · rcases parseRequest_phase (M := M) hphase hu with he | ⟨code', c₁', hp', hkeep⟩
      · rw [hp] at he
        cases he
      · rw [hp] at hp'
        cases hp'
        exact hkeep hcode
    · exact resetRedisClient_isReset hreset
    · obtain ⟨-, o, name, ho, hptr, -⟩ := processCommandAndResetClient_cases hexec
      have hreset : c₂.rc.IsReset := (isReset_of_executed hargc hexec).mpr
        ⟨o, name, ho, hptr, (namesCommand_iff hp hargc ho hptr).mp hname⟩
      split
      · exact .reset hreset
      · exact hreset

/-! ## Whole runs -/

theorem requestPhase_of_reach {c₀ c : Conn σ} {p : Place} (h₀ : c₀.rc.IsReset)
    (h : Reach M (NamesCommand M) c₀ p c) : RequestPhase c.rc :=
  Reach.invariant (I := fun c ↦ RequestPhase c.rc) (.reset h₀)
    (fun _ _ h ↦ h)
    (fun _ chunk h ↦ h.append chunk rfl)
    (fun c ret h ↦ by
      unfold dropConsumed
      split
      · exact h.of_samePoint ⟨rfl, rfl, rfl, rfl, rfl⟩
      · exact h)
    (fun _ _ _ h hn hb ↦ .reset (loopBody_settled h hn hb))
    (fun _ _ _ h hn hb ↦ loopBody_settled h hn hb) h

/-- **Request isolation.**  In every run from a reset client in which each executed request
names a command, at the top of the loop:

* the iteration that executes a request leaves a reset client exactly if that request
  names a command;
* no assertion of the parsers fails;
* before the count line has been consumed the protocol is the one the next byte announces,
  which is the first byte of the request, and behind it the protocol is the multibulk one. -/
theorem request_isolation (M : Machine σ) (c₀ : Conn σ) (h₀ : c₀.rc.IsReset) (c : Conn σ)
    (h : Reach M (NamesCommand M) c₀ .top c) :
    (∀ c', loopBody M c = .ok (.again true c') → (c'.rc.IsReset ↔ NamesCommand M c)) ∧
      (∀ info, c.rc.unread ≠ [] → parseRequest M c.selected ≠ .error (.assertion info)) ∧
      (c.rc.multiBulkLen = 0 → selectReqType c.rc =
        if c.rc.unread.head? = some 42 then protoReqMultibulk else protoReqInline) ∧
      (c.rc.multiBulkLen ≠ 0 → selectReqType c.rc = protoReqMultibulk) := by
  have hphase := requestPhase_of_reach h₀ h
  refine ⟨fun c' hb ↦ executed_iff hb, fun info hu herr ↦ ?_, fun hmbl ↦ ?_, fun hmbl ↦ ?_⟩
  · rcases parseRequest_phase (M := M) hphase hu with he | ⟨code, c₁, hp, -⟩
    · rw [herr] at he
      cases he
    · rw [herr] at hp
      cases hp
  · rcases hphase.selected with ⟨hreq, -, hb, -⟩ | ⟨hreq, -, hb, -⟩ | ⟨-, hpos⟩
    · rw [hreq, if_neg hb]
    · rw [hreq, if_pos hb]
    · omega
  · rcases hphase.selected with ⟨-, h0, -⟩ | ⟨-, h0, -⟩ | ⟨hreq, -⟩
    · exact absurd h0 hmbl
    · exact absurd h0 hmbl
    · exact hreq

/-- A `PING`, at the top of the loop for the first time. -/
theorem request_isolation_ping :
    let M := machine .sample .absent fun _ ↦ 1
    let c := deliver (ascii "*1\r\n$4\r\nPING\r\n") freshConn
    (∀ c', loopBody M c = .ok (.again true c') → (c'.rc.IsReset ↔ NamesCommand M c)) ∧
      (∀ info, c.rc.unread ≠ [] → parseRequest M c.selected ≠ .error (.assertion info)) ∧
      (c.rc.multiBulkLen = 0 → selectReqType c.rc =
        if c.rc.unread.head? = some 42 then protoReqMultibulk else protoReqInline) ∧
      (c.rc.multiBulkLen ≠ 0 → selectReqType c.rc = protoReqMultibulk) :=
  request_isolation _ freshConn (by decide) _ (.read _ .start)

/-- A request for a command that does not exist, followed by a `PING`: the first leaves its
argument behind, and the second runs into the assertion. -/
theorem unknownCommand_argc :
    let M := machine .sample .absent fun _ ↦ 1
    freshConn.rc.IsReset ∧
      ∃ c, loopBody M (deliver (ascii "*1\r\n$3\r\nfoo\r\n*1\r\n$4\r\nPING\r\n") freshConn) =
          .ok (.again true c) ∧ ¬ c.rc.IsReset ∧
        loopBody M c = .error (.assertion "client argc ! = 0") := by
  refine ⟨by decide, _, rfl, by decide, rfl⟩

end LatteRedis
