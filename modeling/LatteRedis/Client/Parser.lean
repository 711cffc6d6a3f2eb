import LatteRedis.Client.Basic

/-!
# The two request parsers (second part of `client.c`)

`processInlineBuffer` and `processMultibulkBuffer` return what the C functions return,
`0` when the argument vector is complete and `-1` otherwise, together with the client
they leave behind.

Two points deserve care when comparing with the source.

* `linefeed_chars` is a local variable `process_inline_buffer` increments without
  having set it.  Its value on entry is an argument of the model.
* The loop `while (rc->multi_bulk_len)` decrements `multi_bulk_len` once in every
  iteration it does not leave, so `multibulkLoop` counts it down in its first argument.
-/

namespace LatteRedis

open ByteString

variable (L : LatteC)

/-! ## `process_inline_buffer` -/

/-- Stores the split line: a new vector when there are arguments, `argc` in any case. -/
def storeInlineArgs (rc : RedisClient) (args : List Bytes) : Except Fault RedisClient :=
  if args = [] then .ok { rc with argc := 0 }
  else do
    let rc ← rc.newArgv args.length
    return { rc with
      argv := .live { slots := args.length, vals := args.map latteObjectNew }
      argc := args.length
      argvLenSum := (args.map List.length).sum }

/-- The line up to its terminator and the value `linefeed_chars` has behind it: the
`\r\n` case moves `newline` back by one and counts one byte. -/
def inlineLine (u : Bytes) (newline : Nat) (linefeedChars : Int) : Bytes × Int :=
  if newline ≠ 0 ∧ u[newline - 1]? = some CR then (u.take (newline - 1), linefeedChars + 1)
  else (u.take newline, linefeedChars)

/-- A newline from a slave refreshes its last ACK time. -/
def ackNewline (unixtime : Int) (queryLen : Nat) (rc : RedisClient) : RedisClient :=
  if queryLen = 0 ∧ rc.getClientType = .slave then { rc with replAckTime := unixtime } else rc

/-- What happens to a line that could be split. -/
def acceptInlineLine (queryLen : Nat) (linefeedChars : Int) (args : List Bytes)
    (rc : RedisClient) : Except Fault (Int × RedisClient) :=
  if queryLen ≠ 0 ∧ rc.isMaster then
    .ok (-1, setProtocolError "Master using the inline protocol. Desync?" rc)
  else do
    let rc ← storeInlineArgs { rc with
      qbPos := (((rc.qbPos + queryLen : Nat) + linefeedChars) % 2 ^ 64).toNat } args
    return (0, rc)

def processInlineBuffer (unixtime linefeedChars : Int) (rc : RedisClient) :
    Except Fault (Int × RedisClient) :=
  match strchr LF rc.unread with
  | none =>
      if usub rc.querybuf.length rc.qbPos > protoInlineMaxSize then
        .ok (-1, protocolError L "Protocol error: too big inline request"
          "too big inline request" rc)
      else .ok (-1, rc)
  | some newline =>
      let (line, linefeedChars) := inlineLine rc.unread newline linefeedChars
      match L.sdsSplitArgs line with
      | none =>
          .ok (-1, protocolError L "Protocol error: unbalanced quotes in request"
            "unbalanced quotes in inline request" rc)
      | some args =>
          acceptInlineLine line.length linefeedChars args (ackNewline unixtime line.length rc)

/-! ## `process_multibulk_buffer` -/

/-- How a piece of a function body ends: by returning, by leaving the loop around it,
or by falling through. -/
inductive Flow where
  | ret (code : Int) (rc : RedisClient)
  | brk (rc : RedisClient)
  | next (rc : RedisClient)
deriving DecidableEq, Repr

/-- The client a piece of the multibulk parser hands on. -/
def Flow.client : Flow → RedisClient
  | .ret _ rc | .brk rc | .next rc => rc

/-- The count line, read when `multi_bulk_len` is zero. -/
def readMultibulkLen (rc : RedisClient) : Except Fault Flow :=
  if rc.argc ≠ 0 then .error (.assertion "client argc ! = 0")
  else match strchr CR rc.unread with
  | none =>
      if usub rc.querybuf.length rc.qbPos > protoInlineMaxSize then
        .ok (.ret (-1) (protocolError L "Protocol error: too big mbulk count string"
          "too big mbulk count string" rc))
      else .ok (.ret (-1) rc)
  | some newline =>
      if (newline : Int) > rc.querybuf.length - rc.qbPos - 2 then .ok (.ret (-1) rc)
      else if rc.unread.head? ≠ some 42 then .error (.assertion "querybuf[0] != '*'")
      else
        let invalid := .ok (.ret (-1) (protocolError L "Protocol error: invalid multibulk length"
          "invalid mbulk count" rc))
        match L.string2ll ((rc.unread.take newline).drop 1) with
        | none => invalid
        | some ll =>
            if ll > 1024 * 1024 then invalid
            else if ll > 10 ∧ authRequired rc then
              .ok (.ret (-1) (protocolError L "Protocol error: unauthenticated multibulk length"
                "unauth mbulk count" rc))
            else
              let rc := { rc with qbPos := rc.qbPos + newline + 2 }
              if ll ≤ 0 then .ok (.ret 0 rc)
              else do
                let rc ← { rc with multiBulkLen := ll }.newArgv ll.toNat
                return .next rc

/-- The length line of an argument, read when `bulk_len` is `-1`. -/
def readBulkLen (rc : RedisClient) : Flow :=
  match strchr CR rc.unread with
  | none =>
      if usub rc.querybuf.length rc.qbPos > protoInlineMaxSize then
        .ret (-1) (protocolError L "Protocol error: too big bulk count string"
          "too big bulk count string" rc)
      else .brk rc
  | some newline =>
      if (newline : Int) > rc.querybuf.length - rc.qbPos - 2 then .brk rc
      else if rc.unread.head? ≠ some 36 then
        .ret (-1) (setProtocolError "expected $ but got something else" { rc with
          reply := addReplyErrorFormat L rc.reply
            (ascii "Protocol error: expected '$', got '" ++ rc.unread.head?.toList ++ ascii "'") })
      else
        let invalid := .ret (-1) (protocolError L "Protocol error: invalid bulk length"
          "invalid bulk length" rc)
        match L.string2ll ((rc.unread.take newline).drop 1) with
        | none => invalid
        | some ll =>
            if ll < 0 ∨ (¬ rc.isMaster ∧ ll > protoMaxBulkLen) then invalid
            else if ll > 16384 ∧ authRequired rc then
              .ret (-1) (protocolError L "Protocol error: unauthenticated bulk length"
                "unauth bulk length" rc)
            else
              let rc := { rc with qbPos := rc.qbPos + newline + 2 }
              -- a large argument is brought to the front of the buffer, so that the
              -- buffer itself can become the argument
              let rc := if ll ≥ L.protoMbulkBigArg ∧
                  (usub rc.querybuf.length rc.qbPos : Int) ≤ ll + 2 then
                { rc with querybuf := rc.unread, qbPos := 0 } else rc
              .next { rc with bulkLen := ll }

/-- The bytes of an argument, handed over with the buffer or copied out of it. -/
def readBulkArg (rc : RedisClient) : Except Fault Flow :=
  if (usub rc.querybuf.length rc.qbPos : Int) < rc.bulkLen + 2 then .ok (.brk rc)
  else if rc.qbPos = 0 ∧ rc.bulkLen ≥ L.protoMbulkBigArg ∧
      (rc.querybuf.length : Int) = rc.bulkLen + 2 then do
    let rc₁ ← rc.pushArg (latteObjectNew (rc.querybuf.take rc.bulkLen.toNat))
    return .next { rc₁ with
      argvLenSum := rc.argvLenSum + rc.bulkLen.toNat
      querybuf := []
      bulkLen := -1
      multiBulkLen := rc.multiBulkLen - 1 }
  else do
    let rc₁ ← rc.pushArg (L.stringObjectNew (rc.unread.take rc.bulkLen.toNat))
    return .next { rc₁ with
      argvLenSum := rc.argvLenSum + rc.bulkLen.toNat
      qbPos := rc.qbPos + rc.bulkLen.toNat + 2
      bulkLen := -1
      multiBulkLen := rc.multiBulkLen - 1 }

/-- The return value behind the loop. -/
def multibulkCode (rc : RedisClient) : Int := if rc.multiBulkLen = 0 then 0 else -1

def multibulkLoop : Nat → RedisClient → Except Fault (Int × RedisClient)
  | 0, rc => .ok (multibulkCode rc, rc)
  | n + 1, rc =>
      match (if rc.bulkLen = -1 then readBulkLen L rc else .next rc) with
      | .ret code rc => .ok (code, rc)
      | .brk rc => .ok (multibulkCode rc, rc)
      | .next rc => do
          match ← readBulkArg L rc with
          | .ret code rc => return (code, rc)
          | .brk rc => return (multibulkCode rc, rc)
          | .next rc => multibulkLoop n rc

def processMultibulkBuffer (rc : RedisClient) : Except Fault (Int × RedisClient) := do
  match ← (if rc.multiBulkLen = 0 then readMultibulkLen L rc else .ok (.next rc)) with
  | .ret code rc => return (code, rc)
  | .brk rc | .next rc =>
      if rc.multiBulkLen > 0 then multibulkLoop L rc.multiBulkLen.toNat rc
      else .error (.assertion "rc->multibulklen")

/-! ## How the pieces end

Each piece of a parser can do few things to the client. -/

/-- `rc'` is `rc` after an error reply and a line in the log. -/
def Errored (L : LatteC) (rc rc' : RedisClient) : Prop :=
  ∃ text line, rc' = setProtocolError line { rc with reply := addReplyErrorLength L rc.reply text }

theorem errored_protocolError (L : LatteC) (reply errstr : String) (rc : RedisClient) :
    Errored L rc (protocolError L reply errstr rc) := ⟨_, _, rfl⟩

variable {L} {rc rc' : RedisClient}

theorem newArgv_ends {slots : Nat} (h : rc.newArgv slots = .ok rc') :
    rc' = { rc with argv := .live ⟨slots, []⟩, argvLenSum := 0 } := by
  unfold RedisClient.newArgv at h
  split at h <;> cases h
  rfl

theorem ackNewline_eq (unixtime : Int) (n : Nat) (rc : RedisClient) :
    ∃ t, ackNewline unixtime n rc = { rc with replAckTime := t } := by
  unfold ackNewline
  split
  · exact ⟨_, rfl⟩
  · exact ⟨rc.replAckTime, rfl⟩

theorem storeInlineArgs_ends {args : List Bytes} (h : storeInlineArgs rc args = .ok rc') :
    rc' = { rc with argc := 0 } ∨ rc' = { rc with
      argv := .live ⟨args.length, args.map latteObjectNew⟩, argc := args.length
      argvLenSum := (args.map List.length).sum } := by
  unfold storeInlineArgs at h
  split at h
  · cases h
    exact .inl rfl
  · obtain ⟨rc₁, hnew, h⟩ := Run.bind_eq_ok.mp h
    cases h
    rw [newArgv_ends hnew]
    exact .inr rfl

/-- A line is missing, wrong, not to be sent by a master, or split into arguments. -/
theorem processInlineBuffer_ends {unixtime linefeedChars : Int} {code : Int}
    (h : processInlineBuffer L unixtime linefeedChars rc = .ok (code, rc')) :
    code = -1 ∧ (rc' = rc ∨ Errored L rc rc' ∨
        ∃ line t, rc' = setProtocolError line { rc with replAckTime := t }) ∨
      code = 0 ∧ ∃ t qbPos args,
        storeInlineArgs { rc with replAckTime := t, qbPos := qbPos } args = .ok rc' := by
  unfold processInlineBuffer at h
  split at h
  · split at h
    · cases h
      exact .inl ⟨rfl, .inr (.inl (errored_protocolError ..))⟩
    · cases h
      exact .inl ⟨rfl, .inl rfl⟩
  · next newline _ =>
      dsimp only at h
      split at h
      · cases h
        exact .inl ⟨rfl, .inr (.inl (errored_protocolError ..))⟩
      · obtain ⟨t, ht⟩ := ackNewline_eq unixtime
          (inlineLine rc.unread newline linefeedChars).1.length rc
        rw [ht] at h
        unfold acceptInlineLine at h
        split at h
        · cases h
          exact .inl ⟨rfl, .inr (.inr ⟨_, t, rfl⟩)⟩
        · obtain ⟨rc₁, hstore, h⟩ := Run.bind_eq_ok.mp h
          cases h
          exact .inr ⟨rfl, t, _, _, hstore⟩

theorem pushArg_ends {o : LatteObject} (h : rc.pushArg o = .ok rc') :
    ∃ a, rc.argv = .live a ∧ 0 ≤ rc.argc ∧ rc.argc < a.slots ∧ rc' = { rc with
      argv := .live { a with vals := a.vals.take rc.argc.toNat ++ [o] }, argc := rc.argc + 1 } := by
  unfold RedisClient.pushArg at h
  split at h
  · next a hargv =>
      split at h
      · next hroom =>
          cases h
          exact ⟨a, hargv, hroom.1, hroom.2, rfl⟩
      · cases h
  · cases h

/-- A count line is missing, wrong, or read; behind it there is no request, or room for one. -/
theorem readMultibulkLen_ends {f : Flow} (h : readMultibulkLen L rc = .ok f) :
    rc.argc = 0 ∧ (f = .ret (-1) rc ∨ (∃ rc', f = .ret (-1) rc' ∧ Errored L rc rc') ∨
      ∃ newline : Nat, (newline : Int) ≤ rc.querybuf.length - rc.qbPos - 2 ∧
        (f = .ret 0 { rc with qbPos := rc.qbPos + newline + 2 } ∨
          ∃ ll : Int, 0 < ll ∧ f = .next { rc with
            qbPos := rc.qbPos + newline + 2, multiBulkLen := ll
            argv := .live ⟨ll.toNat, []⟩, argvLenSum := 0 })) := by
  unfold readMultibulkLen at h
  split at h
  · cases h
  · next hargc =>
      refine ⟨not_not.mp hargc, ?_⟩
      split at h
      · split at h
        · cases h
          exact .inr (.inl ⟨_, rfl, errored_protocolError ..⟩)
        · cases h
          exact .inl rfl
      · next newline _ =>
          dsimp only at h
          split at h
          · cases h
            exact .inl rfl
          · next hline =>
              right
              split at h
              · cases h
              · split at h
                · cases h
                  exact .inl ⟨_, rfl, errored_protocolError ..⟩
                · next ll _ =>
                    split at h
                    · cases h
                      exact .inl ⟨_, rfl, errored_protocolError ..⟩
                    · split at h
                      · cases h
                        exact .inl ⟨_, rfl, errored_protocolError ..⟩
                      · right
                        refine ⟨newline, Int.not_lt.mp hline, ?_⟩
                        split at h
                        · cases h
                          exact .inl rfl
                        · next hpos =>
                            obtain ⟨rc₁, hnew, h⟩ := Run.bind_eq_ok.mp h
                            cases h
                            exact .inr ⟨ll, Int.not_le.mp hpos, by rw [newArgv_ends hnew]⟩

/-- A length line is missing, wrong, or read; then the buffer may be moved to its front. -/
theorem readBulkLen_ends (L : LatteC) (rc : RedisClient) :
    readBulkLen L rc = .brk rc ∨
      (∃ rc', readBulkLen L rc = .ret (-1) rc' ∧ Errored L rc rc') ∨
      ∃ (newline : Nat) (ll : Int), (newline : Int) ≤ rc.querybuf.length - rc.qbPos - 2 ∧ 0 ≤ ll ∧
        (readBulkLen L rc = .next { rc with qbPos := rc.qbPos + newline + 2, bulkLen := ll } ∨
          readBulkLen L rc = .next { rc with
            querybuf := rc.querybuf.drop (rc.qbPos + newline + 2), qbPos := 0, bulkLen := ll }) := by
  unfold readBulkLen
  split
  · split
    · exact .inr (.inl ⟨_, rfl, errored_protocolError ..⟩)
    · exact .inl rfl
  · next newline _ =>
      split
      · exact .inl rfl
      · next hline =>
          right
          split
          · exact .inl ⟨_, rfl, _, _, rfl⟩
          · dsimp only
            split
            · exact .inl ⟨_, rfl, errored_protocolError ..⟩
            · next ll _ =>
                split
                · exact .inl ⟨_, rfl, errored_protocolError ..⟩
                · next hgood =>
                    have hpos : 0 ≤ ll := Int.not_lt.mp fun hlt ↦ hgood (.inl hlt)
                    split
                    · exact .inl ⟨_, rfl, errored_protocolError ..⟩
                    · refine .inr ⟨newline, ll, Int.not_lt.mp hline, hpos, ?_⟩
                      split
                      · exact .inr rfl
                      · exact .inl rfl

/-- An argument is not complete, or it is pushed and leaves the buffer. -/
theorem readBulkArg_ends {f : Flow} (h : readBulkArg L rc = .ok f) :
    f = .brk rc ∨ rc.bulkLen + 2 ≤ usub rc.querybuf.length rc.qbPos ∧ ∃ o rc₁, rc.pushArg o = .ok rc₁ ∧
      ((rc.qbPos = 0 ∧ f = .next { rc₁ with
          argvLenSum := rc.argvLenSum + rc.bulkLen.toNat, querybuf := []
          bulkLen := -1, multiBulkLen := rc.multiBulkLen - 1 }) ∨
        f = .next { rc₁ with
          argvLenSum := rc.argvLenSum + rc.bulkLen.toNat
          qbPos := rc.qbPos + rc.bulkLen.toNat + 2
          bulkLen := -1, multiBulkLen := rc.multiBulkLen - 1 }) := by
  unfold readBulkArg at h
  split at h
  · cases h
    exact .inl rfl
  · next hfull =>
      refine .inr ⟨Int.not_lt.mp hfull, ?_⟩
      split at h
      · next hsteal =>
          obtain ⟨rc₁, hpush, h⟩ := Run.bind_eq_ok.mp h
          cases h
          exact ⟨_, rc₁, hpush, .inl ⟨hsteal.1, rfl⟩⟩
      · obtain ⟨rc₁, hpush, h⟩ := Run.bind_eq_ok.mp h
        cases h
        exact ⟨_, rc₁, hpush, .inr rfl⟩

/-! ## Invariants of the parser -/

/-- What every argument keeps, the loop keeps. -/
theorem multibulkLoop_invariant {P : RedisClient → Prop}
    (hlen : ∀ rc, P rc → P (readBulkLen L rc).client)
    (harg : ∀ {rc f}, P rc → readBulkArg L rc = .ok f → P f.client) (n : Nat) {code : Int}
    (hrc : P rc) (h : multibulkLoop L n rc = .ok (code, rc')) : P rc' := by
  induction n generalizing rc with
  | zero =>
      cases h
      exact hrc
  | succ n ih =>
      -- the client behind the length line, if that is read at all
      have hread : P (if rc.bulkLen = -1 then readBulkLen L rc else .next rc).client := by
        split
        · exact hlen rc hrc
        · exact hrc
      rw [multibulkLoop] at h
      generalize (if rc.bulkLen = -1 then readBulkLen L rc else .next rc) = f at h hread
      cases f with
      | ret code₁ rc₁ | brk rc₁ =>
          cases h
          exact hread
      | next rc₁ =>
          obtain ⟨g, hg, h⟩ := Run.bind_eq_ok.mp h
          have hpushed := harg hread hg
          cases g with
          | ret code₂ rc₂ | brk rc₂ =>
              cases h
              exact hpushed
          | next rc₂ => exact ih hpushed h

/-- What the count line keeps, too, the parser keeps. -/
theorem processMultibulkBuffer_invariant {P : RedisClient → Prop}
    (hcount : ∀ {rc f}, P rc → readMultibulkLen L rc = .ok f → P f.client)
    (hlen : ∀ rc, P rc → P (readBulkLen L rc).client)
    (harg : ∀ {rc f}, P rc → readBulkArg L rc = .ok f → P f.client) {code : Int}
    (hrc : P rc) (h : processMultibulkBuffer L rc = .ok (code, rc')) : P rc' := by
  obtain ⟨f, hread, h⟩ := Run.bind_eq_ok.mp h
  have hcounted : P f.client := by
    split at hread
    · exact hcount hrc hread
    · cases hread
      exact hrc
  cases f with
  | ret code₁ rc₁ =>
      cases h
      exact hcounted
  | brk rc₁ | next rc₁ =>
      dsimp only at h
      split at h
      · exact multibulkLoop_invariant hlen harg _ hcounted h
      · cases h

end LatteRedis
