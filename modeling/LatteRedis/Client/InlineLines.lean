import LatteRedis.Command.Handlers

/-!
# Inline requests, line by line

An inline request is a line of text.  `process_inline_buffer` splits it and moves `qb_pos`
behind it: by the length of the text and `linefeed_chars`, which should count the bytes of
the terminator.  It starts to count at a value nobody has set, and counts the CR only.

So the position behind a line is right exactly if that value is one, whichever way the line
ends (`consumesLine_iff`).  If it always is, a buffer of lines is worked off line by line;
if it is zero, the LF stays, and the loop reads it as an empty request again and again.
-/

namespace LatteRedis

open ByteString

/-! ## Lines -/

/-- A line: its text, and whether there is a CR in front of its LF. -/
structure TextLine where
  text : Bytes
  cr : Bool
deriving DecidableEq, Repr

namespace TextLine

/-- What is between the text and the LF. -/
def crBytes (l : TextLine) : Bytes := if l.cr then [CR] else []

def bytes (l : TextLine) : Bytes := l.text ++ (l.crBytes ++ [LF])

/-- The text ends where it seems to end. -/
structure Plain (l : TextLine) : Prop where
  lf : LF ∉ l.text
  nul : (0 : UInt8) ∉ l.text
  cr : l.cr = false → l.text.getLast? ≠ some CR

theorem length_bytes (l : TextLine) : l.bytes.length = l.text.length + l.crBytes.length + 1 := by
  simp [bytes, Nat.add_assoc]

theorem Plain.strchr {l : TextLine} (h : l.Plain) (rest : Bytes) :
    strchr LF (l.bytes ++ rest) = some (l.text.length + l.crBytes.length) := by
  have hcr : LF ∉ l.crBytes ∧ (0 : UInt8) ∉ l.crBytes := by
    unfold crBytes
    split <;> decide
  rw [show l.bytes ++ rest = (l.text ++ l.crBytes) ++ LF :: rest by simp [bytes], strchr_line]
  · rw [List.length_append]
  · exact fun hmem ↦ (List.mem_append.mp hmem).elim h.lf hcr.1
  · exact fun hmem ↦ (List.mem_append.mp hmem).elim h.nul hcr.2

/-- Whatever has an LF in front of its first NUL begins with a line. -/
theorem exists_of_strchr {u : Bytes} {p : Nat} (h : ByteString.strchr LF u = some p) :
    ∃ l rest, Plain l ∧ u = l.bytes ++ rest ∧ l.bytes.length = p + 1 := by
  obtain ⟨line, rest, rfl, rfl, hlf, hnul⟩ := strchr_eq_some_iff.mp h
  by_cases hcr : line.getLast? = some CR
  · obtain ⟨text, rfl⟩ : ∃ text, line = text ++ [CR] := by
      obtain ⟨text, htext⟩ := List.getLast?_eq_some_iff.mp hcr
      exact ⟨text, htext⟩
    refine ⟨⟨text, true⟩, rest, ⟨?_, ?_, fun hfalse ↦ by cases hfalse⟩, by simp [bytes, crBytes],
      by simp [bytes, crBytes]⟩
    · exact fun hmem ↦ hlf (List.mem_append_left _ hmem)
    · exact fun hmem ↦ hnul (List.mem_append_left _ hmem)
  · exact ⟨⟨line, false⟩, rest, ⟨hlf, hnul, fun _ ↦ hcr⟩, by simp [bytes, crBytes],
      by simp [bytes, crBytes]⟩

theorem Plain.inlineLine {l : TextLine} (h : l.Plain) (rest : Bytes) (linefeedChars : Int) :
    inlineLine (l.bytes ++ rest) (l.text.length + l.crBytes.length) linefeedChars =
      (l.text, linefeedChars + l.crBytes.length) := by
  obtain ⟨text, cr⟩ := l
  unfold LatteRedis.inlineLine bytes crBytes
  cases cr with
  | true => simp
  | false =>
      have hlast : ¬(text.length ≠ 0 ∧ (text ++ LF :: rest)[text.length - 1]? = some CR) := by
        rintro ⟨hlen, hlast⟩
        rw [List.getElem?_append_left (by omega), ← List.getLast?_eq_getElem?] at hlast
        exact h.cr rfl hlast
      simpa using hlast

end TextLine

/-! ## One call -/

variable {L : LatteC}

/-- `qb_pos` is behind the line, and the vector is its text, split. -/
structure ConsumesLine (L : LatteC) (l : TextLine) (rc rc' : RedisClient) : Prop where
  qbPos : rc'.qbPos = rc.qbPos + l.bytes.length
  args : L.sdsSplitArgs l.text = some (rc'.args.map LatteObject.content)
  argc : rc'.argc = rc'.args.length

theorem storeInlineArgs_args {rc rc' : RedisClient} {args : List Bytes}
    (h : storeInlineArgs rc args = .ok rc') :
    rc'.args.map LatteObject.content = args ∧ rc'.argc = rc'.args.length ∧ rc' = { rc with
      argv := rc'.argv, argc := rc'.argc, argvLenSum := rc'.argvLenSum } := by
  unfold storeInlineArgs at h
  split at h
  · next hnil =>
      cases h
      have hargs : RedisClient.args { rc with argc := 0 } = [] := by
        unfold RedisClient.args
        split <;> simp
      rw [hargs, hnil]
      exact ⟨rfl, rfl, rfl⟩
  · obtain ⟨rc₁, hnew, h⟩ := Run.bind_eq_ok.mp h
    cases h
    rw [newArgv_ends hnew]
    have hargs : ∀ n : Nat, n = args.length →
        ((args.map latteObjectNew).take n).map LatteObject.content = args := by
      rintro _ rfl
      rw [List.take_of_length_le (by simp), List.map_map]
      exact List.map_id' args
    refine ⟨hargs _ (Int.toNat_natCast _), ?_, rfl⟩
    simp [RedisClient.args]

/-- What a call does that returns `0`. -/
theorem processInlineBuffer_line {unixtime linefeedChars : Int} {rc rc' : RedisClient} {l : TextLine}
    {rest : Bytes} (hl : l.Plain) (hu : rc.unread = l.bytes ++ rest)
    (h : processInlineBuffer L unixtime linefeedChars rc = .ok (0, rc')) :
    rc'.qbPos = (((rc.qbPos + l.text.length : Nat) +
        (linefeedChars + l.crBytes.length)) % 2 ^ 64).toNat ∧
      L.sdsSplitArgs l.text = some (rc'.args.map LatteObject.content) ∧
      rc'.argc = rc'.args.length ∧ rc'.querybuf = rc.querybuf ∧ rc'.flag = rc.flag ∧
      rc'.reqType = rc.reqType := by
  unfold processInlineBuffer at h
  rw [hu, hl.strchr rest] at h
  dsimp only at h
  rw [hl.inlineLine rest] at h
  dsimp only at h
  split at h
  · cases h
  · next args hsplit =>
      obtain ⟨t, ht⟩ := ackNewline_eq unixtime l.text.length rc
      rw [ht] at h
      unfold acceptInlineLine at h
      split at h
      · cases h
      · obtain ⟨rc₁, hstore, h⟩ := Run.bind_eq_ok.mp h
        cases h
        obtain ⟨hargs, hargc, hrest⟩ := storeInlineArgs_args hstore
        rw [hargs]
        refine ⟨?_, hsplit, hargc, ?_, ?_, ?_⟩
        all_goals rw [hrest]

/-- A call that returns `0` has consumed its line exactly if `linefeed_chars` was one. -/
theorem consumesLine_iff {unixtime linefeedChars : Int} {rc rc' : RedisClient} {l : TextLine}
    {rest : Bytes} (hsize : rc.querybuf.length < 2 ^ 64) (hlo : -2 ^ 31 ≤ linefeedChars)
    (hhi : linefeedChars < 2 ^ 31) (hl : l.Plain) (hu : rc.unread = l.bytes ++ rest)
    (h : processInlineBuffer L unixtime linefeedChars rc = .ok (0, rc')) :
    ConsumesLine L l rc rc' ↔ linefeedChars = 1 := by
  obtain ⟨hpos, hargs, hargc, -⟩ := processInlineBuffer_line hl hu h
  have hbehind : rc.qbPos + l.bytes.length ≤ rc.querybuf.length := by
    have hlen := congrArg List.length hu
    rw [RedisClient.unread, List.length_drop, List.length_append] at hlen
    have hpos := l.length_bytes
    omega
  rw [TextLine.length_bytes] at hbehind
  constructor
  · rintro ⟨hconsumed, -, -⟩
    rw [hpos, TextLine.length_bytes] at hconsumed
    omega
  · rintro rfl
    refine ⟨?_, hargs, hargc⟩
    rw [hpos, TextLine.length_bytes]
    omega

/-! ## The loop -/

variable {σ : Type} {M : Machine σ}

/-- The connection is at the top of the loop, and what is unread are inline requests. -/
structure Conn.AtLines (lines : List TextLine) (c : Conn σ) : Prop where
  unread : c.rc.unread = lines.flatMap TextLine.bytes
  plain : ∀ l ∈ lines, l.Plain ∧ l.text.head? ≠ some 42
  size : c.rc.querybuf.length < 2 ^ 64
  inline : c.rc.reqType = 0 ∨ c.rc.reqType = protoReqInline

/-- The connection `k` times round the loop later. -/
inductive Iterated (M : Machine σ) (c : Conn σ) : Nat → Conn σ → Prop
  | zero : Iterated M c 0 c
  | succ {k : Nat} {executed : Bool} {c' c'' : Conn σ} : Iterated M c k c' →
      loopBody M c' = .ok (.again executed c'') → Iterated M c (k + 1) c''

/-- No line starts a request of the other protocol. -/
theorem selectReqType_inline {lines : List TextLine} {c : Conn σ} (h : c.AtLines lines) :
    selectReqType c.rc = protoReqInline := by
  unfold selectReqType
  rcases h.inline with hzero | hinline
  · rw [if_pos hzero, if_neg]
    rw [h.unread]
    cases lines with
    | nil => simp
    | cons l lines =>
        have hhead := (h.plain l (by simp)).2
        obtain ⟨text, cr⟩ := l
        cases text with
        | nil => cases cr <;> simp [TextLine.bytes, TextLine.crBytes, CR, LF]
        | cons b text => simpa [TextLine.bytes] using hhead
  · rw [hinline]
    rfl

/-- The request that is parsed is the first line. -/
theorem parseRequest_line {lines : List TextLine} {c c₁ : Conn σ} (h : c.AtLines lines)
    (hstack : lines ≠ [] → M.stack c.inlineCalls = 1) (hparse : parseRequest M c.selected = .ok (0, c₁)) :
    ∃ l rest, lines = l :: rest ∧ ConsumesLine M.lib l c.rc c₁.rc ∧
      c₁.rc.querybuf = c.rc.querybuf ∧ c₁.rc.reqType = protoReqInline ∧
      c₁.inlineCalls = c.inlineCalls + 1 := by
  have htype : c.selected.rc.reqType = protoReqInline := selectReqType_inline h
  unfold parseRequest at hparse
  rw [if_pos htype] at hparse
  obtain ⟨⟨code, rc₁⟩, hinline, hparse⟩ := Run.bind_eq_ok.mp hparse
  cases hparse
  cases lines with
  | nil =>
      -- nothing is unread, so there is no LF
      have hu : c.selected.rc.unread = [] := h.unread
      unfold processInlineBuffer at hinline
      rw [hu, strchr_nil] at hinline
      dsimp only at hinline
      split at hinline <;> cases hinline
  | cons l rest =>
      have hu : c.selected.rc.unread = l.bytes ++ rest.flatMap TextLine.bytes := h.unread
      have hplain := (h.plain l (by simp)).1
      obtain ⟨-, -, -, hbuf, -, hreq⟩ := processInlineBuffer_line hplain hu hinline
      have hone : M.stack c.selected.inlineCalls = 1 := hstack (by simp)
      rw [hone] at hinline
      have hsize : c.selected.rc.querybuf.length < 2 ^ 64 := h.size
      have hconsumes := (consumesLine_iff hsize (by decide) (by decide) hplain hu hinline).mpr rfl
      exact ⟨l, rest, rfl, ⟨hconsumes.qbPos, hconsumes.args, hconsumes.argc⟩, hbuf,
        hreq.trans htype, rfl⟩

/-- What comes behind the parser leaves the buffer alone. -/
structure RedisClient.SameBuffer (rc rc' : RedisClient) : Prop where
  querybuf : rc'.querybuf = rc.querybuf
  qbPos : rc'.qbPos = rc.qbPos

theorem resetRedisClient_sameBuffer {rc rc' : RedisClient} (h : resetRedisClient rc = .ok rc') :
    rc.SameBuffer rc' := by
  rw [resetRedisClient_ends h]
  exact ⟨rfl, rfl⟩

/-- A request that was executed leaves the client between two requests, one that is unknown
where it was. -/
theorem processCommandAndResetClient_sameBuffer {c c' : Conn σ} {code : Int}
    (h : processCommandAndResetClient M c = .ok (code, c')) :
    c.rc.SameBuffer c'.rc ∧ (c'.rc.reqType = 0 ∨ c'.rc.reqType = c.rc.reqType) ∧
      c'.inlineCalls = c.inlineCalls := by
  obtain ⟨-, o, name, -, -, ⟨-, rfl⟩ | ⟨cmd, server, rc₁, rc₂, -, hproc, hreset, rfl⟩⟩ :=
    processCommandAndResetClient_cases h
  · exact ⟨⟨rfl, rfl⟩, .inr rfl, rfl⟩
  · have hframe := M.backend.frame hproc
    have hbuffer := resetRedisClient_sameBuffer hreset
    unfold RedisClient.SameParser at hframe
    rw [hframe] at hbuffer
    exact ⟨⟨hbuffer.querybuf, hbuffer.qbPos⟩, .inl (resetRedisClient_isReset hreset).1, rfl⟩

theorem Conn.AtLines.next {l : TextLine} {rest : List TextLine} {c c' : Conn σ} (h : c.AtLines (l :: rest))
    (hbuf : c'.rc.querybuf = c.rc.querybuf) (hpos : c'.rc.qbPos = c.rc.qbPos + l.bytes.length)
    (htype : c'.rc.reqType = 0 ∨ c'.rc.reqType = protoReqInline) : c'.AtLines rest := by
  refine ⟨?_, fun l' hl' ↦ h.plain l' (List.mem_cons_of_mem _ hl'), hbuf ▸ h.size, htype⟩
  have hu := h.unread
  unfold RedisClient.unread at hu ⊢
  rw [hbuf, hpos, ← List.drop_drop, hu, List.flatMap_cons, List.drop_left]

/-- One time round the loop is one line. -/
theorem loopBody_line {lines : List TextLine} {c c' : Conn σ} {executed : Bool} (h : c.AtLines lines)
    (hstack : lines ≠ [] → M.stack c.inlineCalls = 1)
    (hbody : loopBody M c = .ok (.again executed c')) :
    ∃ l rest, lines = l :: rest ∧ c'.AtLines rest ∧ c'.inlineCalls = c.inlineCalls + 1 := by
  obtain ⟨-, hstop⟩ | ⟨-, code, c₁, hparse, hend⟩ := loopBody_cases hbody
  · cases hstop
  obtain ⟨-, hstop⟩ | ⟨rfl, -, rc, hreset, hit⟩ | ⟨rfl, -, code₂, c₂, hexec, hit⟩ := hend
  · cases hstop
  · -- an empty line
    cases hit
    obtain ⟨l, rest, rfl, hconsumes, hbuf, -, hcalls⟩ := parseRequest_line h hstack hparse
    have hsame := resetRedisClient_sameBuffer hreset
    refine ⟨l, rest, rfl, h.next ?_ ?_ (.inl (resetRedisClient_isReset hreset).1), hcalls⟩
    · exact hsame.querybuf.trans hbuf
    · exact hsame.qbPos.trans hconsumes.qbPos
  · split at hit <;> cases hit
    obtain ⟨l, rest, rfl, hconsumes, hbuf, htype, hcalls⟩ := parseRequest_line h hstack hparse
    obtain ⟨hsame, htype', hcalls'⟩ := processCommandAndResetClient_sameBuffer hexec
    refine ⟨l, rest, rfl, h.next ?_ ?_ (htype'.imp_right (·.trans htype)), hcalls'.trans hcalls⟩
    · exact hsame.querybuf.trans hbuf
    · exact hsame.qbPos.trans hconsumes.qbPos

/-- As long as `linefeed_chars` is one, the connection gets from line to line. -/
theorem Iterated.atLines {lines : List TextLine} {c : Conn σ} (h : c.AtLines lines)
    (hstack : ∀ k < lines.length, M.stack (c.inlineCalls + k) = 1) {k : Nat} {c' : Conn σ}
    (hrun : Iterated M c k c') :
    c'.AtLines (lines.drop k) ∧ c'.inlineCalls = c.inlineCalls + k := by
  induction hrun with
  | zero => exact ⟨h, rfl⟩
  | @succ k executed c' c'' _ hbody ih =>
      obtain ⟨hat, hcalls⟩ := ih
      have hone : lines.drop k ≠ [] → M.stack c'.inlineCalls = 1 := by
        intro hne
        rw [hcalls]
        exact hstack k (by simpa using hne)
      obtain ⟨l, rest, hdrop, hat', hcalls'⟩ := loopBody_line hat hone hbody
      refine ⟨?_, by rw [hcalls', hcalls, Nat.add_assoc]⟩
      rw [← List.drop_drop, hdrop]
      exact hat'

/-- Line after line, the loop comes to its end. -/
theorem redisProcessInputBuffer_lines {lines : List TextLine} {c : Conn σ} (h : c.AtLines lines)
    (hstack : ∀ k < lines.length, M.stack (c.inlineCalls + k) = 1) (c' : Conn σ) :
    redisProcessInputBuffer M (lines.length + 1) c ≠ .running c' := by
  have hone : ∀ {lines : List TextLine} {c : Conn σ},
      (∀ k < lines.length, M.stack (c.inlineCalls + k) = 1) →
        lines ≠ [] → M.stack c.inlineCalls = 1 :=
    fun hstack hne ↦ hstack 0 (List.length_pos_iff.mpr hne)
  induction lines generalizing c with
  | nil =>
      intro hrun
      rw [redisProcessInputBuffer] at hrun
      split at hrun
      · cases hrun
      · cases hrun
      · next hbody =>
          obtain ⟨l, rest, hnil, -⟩ := loopBody_line h (hone hstack) hbody
          cases hnil
  | cons l lines ih =>
      intro hrun
      rw [redisProcessInputBuffer] at hrun
      split at hrun
      · cases hrun
      · cases hrun
      · next c₁ hbody =>
          obtain ⟨_, _, hcons, hat, hcalls⟩ := loopBody_line h (hone hstack) hbody
          cases hcons
          refine ih hat ?_ hrun
          intro k hk
          rw [hcalls, Nat.add_assoc, Nat.add_comm 1 k]
          exact hstack (k + 1) (by simpa using hk)

/-- A buffer of lines is worked off line by line. -/
structure LineByLine (M : Machine σ) (lines : List TextLine) (c : Conn σ) : Prop where
  request : ∀ {k : Nat} {c' c₁ : Conn σ}, Iterated M c k c' →
    parseRequest M c'.selected = .ok (0, c₁) →
      ∃ l, lines[k]? = some l ∧ ConsumesLine M.lib l c'.rc c₁.rc
  remaining : ∀ {k : Nat} {c' : Conn σ}, Iterated M c k c' →
    c'.rc.unread = (lines.drop k).flatMap TextLine.bytes
  ends : ∀ c', redisProcessInputBuffer M (lines.length + 1) c ≠ .running c'

theorem lineByLine {lines : List TextLine} {c : Conn σ} (h : c.AtLines lines)
    (hstack : ∀ k < lines.length, M.stack (c.inlineCalls + k) = 1) : LineByLine M lines c := by
  refine ⟨?_, fun hrun ↦ (hrun.atLines h hstack).1.unread, redisProcessInputBuffer_lines h hstack⟩
  intro k c' c₁ hrun hparse
  obtain ⟨hat, hcalls⟩ := hrun.atLines h hstack
  have hone : lines.drop k ≠ [] → M.stack c'.inlineCalls = 1 := by
    intro hne
    rw [hcalls]
    exact hstack k (by simpa using hne)
  obtain ⟨l, rest, hdrop, hconsumes, -⟩ := parseRequest_line hat hone hparse
  refine ⟨l, ?_, hconsumes⟩
  rw [← List.head?_drop, hdrop, List.head?_cons]

/-- **Inline requests.**  A call that returns `0` has consumed its line exactly if
`linefeed_chars` was one, and as long as it is, the loop works off a buffer of lines line
by line and ends. -/
theorem inlineRequests_consume (L : LatteC) (σ : Type) (M : Machine σ) :
    (∀ (unixtime linefeedChars : Int) (rc rc' : RedisClient) (p : Nat),
      strchr LF rc.unread = some p → rc.querybuf.length < 2 ^ 64 → -2 ^ 31 ≤ linefeedChars →
      linefeedChars < 2 ^ 31 → processInlineBuffer L unixtime linefeedChars rc = .ok (0, rc') →
      ∃ l rest, l.Plain ∧ rc.unread = TextLine.bytes l ++ rest ∧ l.bytes.length = p + 1 ∧
        (ConsumesLine L l rc rc' ↔ linefeedChars = 1)) ∧
    ∀ (lines : List TextLine) (c : Conn σ), c.AtLines lines →
      (∀ k < lines.length, M.stack (c.inlineCalls + k) = 1) → LineByLine M lines c := by
  refine ⟨?_, fun lines c h hstack ↦ lineByLine h hstack⟩
  intro unixtime linefeedChars rc rc' p hp hsize hlo hhi h
  obtain ⟨l, rest, hl, hu, hlen⟩ := TextLine.exists_of_strchr hp
  exact ⟨l, rest, hl, hu, hlen, consumesLine_iff hsize hlo hhi hl hu h⟩

/-- The server and a client whose unread bytes are `u`, behind `k` inline requests. -/
def connReading (u : Bytes) (k : Nat) : Conn Server :=
  { freshConn with rc := { RedisClient.idle with querybuf := u }, inlineCalls := k }

/-- The client behind the line `PING`. -/
def pingParsed : RedisClient :=
  { (connReading (ascii "PING" ++ crlf) 0).rc with
    qbPos := 6, argc := 1, argv := .live ⟨1, [latteObjectNew (ascii "PING")]⟩, argvLenSum := 4 }

/-- Three lines that end in different ways, on a stack that is kind. -/
theorem inlineRequests_consume_three :
    LineByLine (machine LatteC.sample .absent fun _ ↦ 1)
        [⟨ascii "PING", true⟩, ⟨[], false⟩, ⟨ascii "ping", false⟩]
        (connReading (ascii "PING" ++ crlf ++ [LF] ++ ascii "ping" ++ [LF]) 0) ∧
      ∃ l rest, l.Plain ∧ (connReading (ascii "PING" ++ crlf) 0).rc.unread = TextLine.bytes l ++ rest ∧
        l.bytes.length = 5 + 1 ∧
        (ConsumesLine LatteC.sample l (connReading (ascii "PING" ++ crlf) 0).rc pingParsed ↔
          (1 : Int) = 1) := by
  constructor
  · refine (inlineRequests_consume .sample _ _).2 _ _ ⟨rfl, ?_, by decide, .inl rfl⟩ fun _ _ ↦ rfl
    rintro l (_ | ⟨_, _ | ⟨_, _ | ⟨_, ⟨⟩⟩⟩⟩)
    all_goals exact ⟨⟨by decide, by decide, by decide⟩, by decide⟩
  · have hcall : processInlineBuffer LatteC.sample 0 1 (connReading (ascii "PING" ++ crlf) 0).rc =
        .ok (0, pingParsed) := rfl
    exact (inlineRequests_consume .sample _ sampleMachine).1 _ _ _ _ 5 rfl (by decide) (by decide)
      (by decide) hcall

/-- On a stack that holds zero a single LF is read as an empty request for ever. -/
theorem inline_lf_spins :
    (∃ rc', processInlineBuffer LatteC.sample 0 0 (connReading [LF] 0).rc = .ok (0, rc') ∧
        ¬ConsumesLine LatteC.sample ⟨[], false⟩ (connReading [LF] 0).rc rc') ∧
      ∀ n, redisProcessInputBuffer sampleMachine n (connReading [LF] 0) =
        .running (connReading [LF] n) := by
  refine ⟨⟨_, rfl, fun h ↦ absurd h.qbPos (by decide)⟩, ?_⟩
  have hbody : ∀ k, loopBody sampleMachine (connReading [LF] k) =
      .ok (.again false (connReading [LF] (k + 1))) := by
    intro k
    have hcall : processInlineBuffer LatteC.sample 0 0
        { RedisClient.idle with querybuf := [LF], reqType := protoReqInline } =
          .ok (0, { RedisClient.idle with querybuf := [LF], reqType := protoReqInline }) := rfl
    have hparse : parseRequest sampleMachine (connReading [LF] k).selected =
        .ok (0, (connReading [LF] (k + 1)).selected) := by
      have htype : (connReading [LF] k).selected.rc.reqType = protoReqInline := rfl
      unfold parseRequest
      rw [if_pos htype]
      exact Run.bind_eq_ok.mpr ⟨_, hcall, rfl⟩
    have hunread : (connReading [LF] k).rc.unread ≠ [] := List.cons_ne_nil LF []
    rw [loopBody_eq hunread rfl rfl]
    exact Run.bind_eq_ok.mpr ⟨_, hparse, rfl⟩
  have hspin : ∀ n k, redisProcessInputBuffer sampleMachine n (connReading [LF] k) =
      .running (connReading [LF] (k + n)) := by
    intro n
    induction n with
    | zero => exact fun _ ↦ rfl
    | succ n ih =>
        intro k
        rw [redisProcessInputBuffer, hbody]
        dsimp only
        rw [ih, Nat.add_assoc, Nat.add_comm 1 n]
  intro n
  rw [hspin, Nat.zero_add]

end LatteRedis
