import LatteRedis.Client.Uninitialised

/-!
# Before the first request is complete

Content that matters may still be out of sight, because the connection stops before it is
read.  A client with an unknown request type stops at its first byte, whatever else is in
its block; so does one that starts in the middle of a multibulk request with arguments it
never read.  `Masked` lists these cases.  They last until the first request is complete, and
then the connections have stopped or differ in harmless leftovers only: `lockstep_firstAlike`
extends `lockstep_connAlike` by them.
-/

namespace LatteRedis

open ByteString Run

/-- The fields of a client that are not harmless. -/
structure Vital where
  isMaster : Bool
  reqType : Int
  argc : Int
  argv : Ptr Argv
  cmd : Ptr RedisCommand

def RedisClient.vital (rc : RedisClient) : Vital :=
  ⟨rc.isMaster, rc.reqType, rc.argc, rc.argv, rc.cmd⟩

/-- The client on a block with other content. -/
def RedisClient.withBlock (rc : RedisClient) (m : Block) : RedisClient :=
  { rc.withLeftover m.toLeftover with reqType := m.reqType, argc := m.argc }

/-! ## What is not read -/

namespace Vital

/-- The request type is not one the parser knows. -/
def Panics (v : Vital) : Prop :=
  v.reqType ≠ 0 ∧ v.reqType ≠ protoReqInline ∧ v.reqType ≠ protoReqMultibulk

/-- There are arguments before the first count line. -/
def Asserts (v : Vital) : Prop := v.reqType = protoReqMultibulk ∧ v.argc ≠ 0

/-- A count line is expected, and neither pointer can be followed. -/
def Blocked (v : Vital) : Prop :=
  v.reqType = protoReqMultibulk ∧ v.argc = 0 ∧ v.argv = .wild ∧ v.cmd = .wild

/-- The first request is an inline one, if the connection gets that far. -/
def Inline (v : Vital) : Prop := v.reqType = protoReqInline ∨ (v.reqType = 0 ∧ v.argc ≠ 0)

end Vital

/-- What differs is not read before the first request is complete. -/
inductive Masked (v v' : Vital) : Prop
  | panics (h : v.Panics) (h' : v'.Panics)
  | asserts (h : v.Asserts) (h' : v'.Asserts)
  | blocked (h : v.Blocked) (h' : v'.Blocked)
  | inline (h : v.Inline) (h' : v'.Inline) (reqType : v'.reqType = v.reqType)
      (isMaster : v'.isMaster = v.isMaster) (cmd : v'.cmd = .wild ↔ v.cmd = .wild)
      (argv : (v'.argv = .wild ↔ v.argv = .wild) ∨ (v.isMaster = true ∧ v.cmd = .wild))

/-- The clients differ in what their blocks have left there, and have not changed it. -/
structure Early (v v' : Vital) (rc rc' : RedisClient) : Prop where
  eq : ∃ m, rc' = rc.withBlock m
  vital : rc.vital = v
  vital' : rc'.vital = v'
  multiBulkLen : rc.multiBulkLen = 0

namespace Early

variable {v v' : Vital} {rc rc' : RedisClient}

/-- An update of other fields. -/
theorem update (h : Early v v' rc rc') (u : RedisClient → RedisClient)
    (hcomm : ∀ rc m, u (rc.withBlock m) = (u rc).withBlock m)
    (hkeep : ∀ rc, (u rc).vital = rc.vital ∧ (u rc).multiBulkLen = rc.multiBulkLen) :
    Early v v' (u rc) (u rc') := by
  obtain ⟨⟨m, rfl⟩, hv, hv', hmbl⟩ := h
  exact ⟨⟨m, hcomm rc m⟩, (hkeep rc).1.trans hv, (hkeep _).1.trans hv', (hkeep rc).2.trans hmbl⟩

theorem buffer (h : Early v v' rc rc') :
    rc'.querybuf = rc.querybuf ∧ rc'.qbPos = rc.qbPos ∧ rc'.unread = rc.unread := by
  obtain ⟨⟨m, rfl⟩, -⟩ := h
  exact ⟨rfl, rfl, rfl⟩

theorem errored (h : Early v v' rc rc') (L : LatteC) (reply errstr : String) :
    Early v v' (protocolError L reply errstr rc) (protocolError L reply errstr rc') := by
  refine h.update (protocolError L reply errstr) (fun rc m ↦ ?_) fun rc ↦ ⟨rfl, rfl⟩
  unfold protocolError addReplyError addReplyErrorLength
  by_cases hcode : (ascii reply).head? = some 45
  · simp only [hcode, if_true]
    rfl
  · simp only [hcode, if_false]
    rfl

theorem ackNewline (h : Early v v' rc rc') (unixtime : Int) (n : Nat) :
    Early v v' (ackNewline unixtime n rc) (ackNewline unixtime n rc') := by
  obtain ⟨t, ht⟩ := ackNewline_eq unixtime n rc
  obtain ⟨t', ht'⟩ := ackNewline_eq unixtime n rc'
  rw [ht, ht']
  obtain ⟨⟨m, rfl⟩, hv, hv', hmbl⟩ := h
  exact ⟨⟨{ m with replAckTime := t' }, rfl⟩, hv, hv', hmbl⟩

end Early

/-! ## The first call of a parser -/

/-- What two calls return: the request is not complete, or it can be executed alike, or it is
empty and the client cannot be reset. -/
def FirstParsed (v v' : Vital) (p q : Int × RedisClient) : Prop :=
  q.1 = p.1 ∧
    ((p.1 ≠ 0 ∧ Early v v' p.2 q.2) ∨ (p.1 = 0 ∧ ParsedAlike p q) ∨
      (p.1 = 0 ∧ (p.2.argc = 0 ∧ p.2.cmd = .wild) ∧ q.2.argc = 0 ∧ q.2.cmd = .wild))

section Parsers

variable {L : LatteC} {v v' : Vital} {rc rc' : RedisClient}

theorem FirstParsed.incomplete (h : Early v v' rc rc') :
    FirstParsed v v' (-1, rc) (-1, rc') := ⟨rfl, .inl ⟨by simp, h⟩⟩

/-- The number of arguments is overwritten. -/
theorem storeInlineArgs_argc (rc : RedisClient) (n : Int) (args : List Bytes) :
    storeInlineArgs { rc with argc := n } args = storeInlineArgs rc args := by
  unfold storeInlineArgs
  split
  · rfl
  · unfold RedisClient.newArgv
    cases rc.argv <;> rfl

theorem storeInlineArgs_early (h : Early v v' rc rc') (hreq : v'.reqType = v.reqType)
    (hmaster : v'.isMaster = v.isMaster) (hcmd : v'.cmd = .wild ↔ v.cmd = .wild)
    (hargv : v'.argv = .wild ↔ v.argv = .wild) (args : List Bytes) :
    Related (fun rc₁ rc₁' ↦ ParsedAlike (0, rc₁) (0, rc₁')) (storeInlineArgs rc args)
      (storeInlineArgs rc' args) := by
  obtain ⟨⟨m, rfl⟩, rfl, rfl, hmbl⟩ := h
  have hreq : m.reqType = rc.reqType := hreq
  -- the second client with the number of arguments of the first
  have halike : Alike rc { rc.withBlock m with argc := rc.argc } := by
    refine ⟨⟨m.toLeftover, ?_⟩, hmaster, hargv, hcmd⟩
    unfold RedisClient.withBlock
    rw [hreq]
    rfl
  rw [← storeInlineArgs_argc (rc.withBlock m) rc.argc]
  exact storeInlineArgs_alike halike (.inr hmbl) args

/-- The line that completes the first request. -/
theorem acceptInlineLine_early (h : Early v v' rc rc') (hreq : v'.reqType = v.reqType)
    (hmaster : v'.isMaster = v.isMaster) (hcmd : v'.cmd = .wild ↔ v.cmd = .wild)
    (hargv : (v'.argv = .wild ↔ v.argv = .wild) ∨ (v.isMaster = true ∧ v.cmd = .wild))
    {queryLen : Nat} {args : List Bytes} (hargs : queryLen = 0 → args = []) (linefeedChars : Int) :
    Related (FirstParsed v v') (acceptInlineLine queryLen linefeedChars args rc)
      (acceptInlineLine queryLen linefeedChars args rc') := by
  have hrc : rc.isMaster = v.isMaster := congrArg Vital.isMaster h.vital
  have hrc' : rc'.isMaster = v.isMaster := (congrArg Vital.isMaster h.vital').trans hmaster
  unfold acceptInlineLine
  rw [hrc, hrc', h.buffer.2.1]
  split
  · exact .ok (.incomplete (h.update (setProtocolError _) (fun _ _ ↦ rfl) fun _ ↦ ⟨rfl, rfl⟩))
  · next hline =>
    have h₁ := h.update (fun rc₁ ↦ { rc₁ with
      qbPos := (((rc.qbPos + queryLen : Nat) + linefeedChars) % 2 ^ 64).toNat }) (fun _ _ ↦ rfl)
      fun _ ↦ ⟨rfl, rfl⟩
    rcases hargv with hargv | ⟨hm, hwild⟩
    · refine (storeInlineArgs_early h₁ hreq hmaster hcmd hargv args).bind (S := FirstParsed v v')
        fun hrc ↦ .ok ⟨rfl, .inr (.inl ⟨rfl, hrc⟩)⟩
    · -- a master only gets here with an empty line
      have hempty : args = [] := hargs (not_not.mp fun hne ↦ hline ⟨hne, hm⟩)
      rw [hempty, storeInlineArgs, storeInlineArgs, if_pos rfl, if_pos rfl]
      refine .ok ⟨rfl, .inr (.inr ⟨rfl, ⟨rfl, ?_⟩, rfl, ?_⟩)⟩
      · exact (congrArg Vital.cmd h.vital).trans hwild
      · exact (congrArg Vital.cmd h.vital').trans (hcmd.mpr hwild)

theorem processInlineBuffer_early (hsplit : L.SplitsBlank)
    (h : Early v v' rc rc') (hreq : v'.reqType = v.reqType)
    (hmaster : v'.isMaster = v.isMaster) (hcmd : v'.cmd = .wild ↔ v.cmd = .wild)
    (hargv : (v'.argv = .wild ↔ v.argv = .wild) ∨ (v.isMaster = true ∧ v.cmd = .wild))
    (unixtime linefeedChars : Int) :
    Related (FirstParsed v v') (processInlineBuffer L unixtime linefeedChars rc)
      (processInlineBuffer L unixtime linefeedChars rc') := by
  unfold processInlineBuffer
  rw [h.buffer.1, h.buffer.2.1, h.buffer.2.2]
  split
  · split
    · exact .ok (.incomplete (h.errored L _ _))
    · exact .ok (.incomplete h)
  · dsimp only
    split
    · exact .ok (.incomplete (h.errored L _ _))
    · next args hline =>
      refine acceptInlineLine_early (h.ackNewline _ _) hreq hmaster hcmd hargv (fun hlen ↦ ?_) _
      rw [List.length_eq_zero_iff.mp hlen, show L.sdsSplitArgs [] = _ from hsplit] at hline
      exact (Option.some.inj hline).symm

/-- A count line behind which neither pointer can be followed. -/
theorem processMultibulkBuffer_early (h : Early v v' rc rc') (hb : v.Blocked) (hb' : v'.Blocked) :
    Related (FirstParsed v v') (processMultibulkBuffer L rc) (processMultibulkBuffer L rc') := by
  have hargc : rc.argc = 0 := (congrArg Vital.argc h.vital).trans hb.2.1
  have hargc' : rc'.argc = 0 := (congrArg Vital.argc h.vital').trans hb'.2.1
  have hmbl' : rc'.multiBulkLen = 0 := by
    obtain ⟨m, rfl⟩ := h.eq
    exact h.multiBulkLen
  unfold processMultibulkBuffer
  rw [if_pos h.multiBulkLen, if_pos hmbl']
  unfold readMultibulkLen
  rw [h.buffer.1, h.buffer.2.1, h.buffer.2.2, if_neg (not_not.mpr hargc), if_neg (not_not.mpr hargc')]
  split
  · split
    · exact .ok (.incomplete (h.errored L _ _))
    · exact .ok (.incomplete h)
  · split
    · exact .ok (.incomplete h)
    · split
      · exact .error _
      · dsimp only
        split
        · exact .ok (.incomplete (h.errored L _ _))
        · split
          · exact .ok (.incomplete (h.errored L _ _))
          · simp only [authRequired, Bool.false_eq_true, and_false, if_false]
            split
            · refine .ok ⟨rfl, .inr (.inr ⟨rfl, ⟨hargc, ?_⟩, hargc', ?_⟩)⟩
              · exact (congrArg Vital.cmd h.vital).trans hb.2.2.2
              · exact (congrArg Vital.cmd h.vital').trans hb'.2.2.2
            · rw [newArgv_wild (by exact (congrArg Vital.argv h.vital).trans hb.2.2.1),
                newArgv_wild (by exact (congrArg Vital.argv h.vital').trans hb'.2.2.1)]
              exact .error _

end Parsers

/-! ## Connections -/

variable {σ : Type}

/-- The first request of the connections is not complete, and what differs is masked. -/
structure FirstAlike (c c' : Conn σ) : Prop where
  eq : ∃ rc', c' = { c with rc := rc' }
  early : Early c.rc.vital c'.rc.vital c.rc c'.rc
  masked : Masked c.rc.vital c'.rc.vital

section Machine

variable {M : Machine σ} {c c' : Conn σ}

theorem FirstAlike.deliver (h : FirstAlike c c') (chunk : Bytes) :
    FirstAlike (deliver chunk c) (deliver chunk c') := by
  obtain ⟨⟨rc', rfl⟩, ⟨⟨m, rfl⟩, -, -, hmbl⟩, hmasked⟩ := h
  refine ⟨⟨_, rfl⟩, ⟨⟨{ m with readReploff := ?_ }, ?_⟩, rfl, rfl, hmbl⟩, hmasked⟩
  · exact (LatteRedis.deliver chunk { c with rc := c.rc.withBlock m }).rc.readReploff
  · rfl

theorem FirstAlike.dropConsumed (h : FirstAlike c c') (ret : Int) :
    FirstAlike (dropConsumed ret c) (dropConsumed ret c') := by
  unfold LatteRedis.dropConsumed
  split
  · obtain ⟨⟨rc', rfl⟩, ⟨⟨m, rfl⟩, -, -, hmbl⟩, hmasked⟩ := h
    exact ⟨⟨_, rfl⟩, ⟨⟨m, rfl⟩, rfl, rfl, hmbl⟩, hmasked⟩
  · exact h

theorem FirstAlike.stop (h : FirstAlike c c') :
    IterAlike (fun c c' ↦ ConnAlike c c' ∨ FirstAlike c c') (.stop (exitCode c.rc) c)
      (.stop (exitCode c'.rc) c') := by
  rw [show exitCode c'.rc = exitCode c.rc by rw [exitCode, exitCode, h.early.buffer.2.1]]
  exact .stop _ (.inr h)

/-- A request type that is set is kept. -/
theorem selected_eq (h : c.rc.reqType ≠ 0) : c.selected = c := by
  unfold Conn.selected selectReqType
  rw [if_neg h]

theorem parseRequest_panics (h : c.rc.vital.Panics) :
    parseRequest M c.selected = .error (.panic "Unknown request type") := by
  obtain ⟨hnone, hinline, hmultibulk⟩ : c.rc.reqType ≠ 0 ∧ c.rc.reqType ≠ protoReqInline ∧
    c.rc.reqType ≠ protoReqMultibulk := h
  rw [selected_eq hnone, parseRequest, if_neg hinline, if_neg hmultibulk]

theorem parseRequest_asserts (hmbl : c.rc.multiBulkLen = 0)
    (hreq : c.selected.rc.reqType = protoReqMultibulk) (hargc : c.rc.argc ≠ 0) :
    parseRequest M c.selected = .error (.assertion "client argc ! = 0") := by
  have hargc' : c.selected.rc.argc ≠ 0 := hargc
  unfold parseRequest
  rw [if_neg (by rw [hreq]; decide), if_pos hreq, processMultibulkBuffer,
    if_pos (by exact hmbl), readMultibulkLen, if_pos hargc']
  rfl

/-- What two connections come to when they parse. -/
def ReadAlike (p q : Int × Conn σ) : Prop :=
  q.1 = p.1 ∧
    ((p.1 ≠ 0 ∧ FirstAlike p.2 q.2) ∨
      (p.1 = 0 ∧ ConnAlike p.2 q.2 ∧ (p.2.rc.argc ≠ 0 → q.2.rc.argv = p.2.rc.argv)) ∨
      (p.1 = 0 ∧ (p.2.rc.argc = 0 ∧ p.2.rc.cmd = .wild) ∧ q.2.rc.argc = 0 ∧ q.2.rc.cmd = .wild))

theorem FirstParsed.conn {v v' : Vital} (hmasked : Masked v v') {p q : Int × RedisClient}
    (h : FirstParsed v v' p q) (c : Conn σ) (n : Nat) :
    ReadAlike (p.1, { c with rc := p.2, inlineCalls := n })
      (q.1, { c with rc := q.2, inlineCalls := n }) := by
  obtain ⟨hcode, ⟨hne, hearly⟩ | ⟨hzero, hparsed⟩ | hreset⟩ := h
  · refine ⟨hcode, .inl ⟨hne, ⟨_, rfl⟩, ?_, ?_⟩⟩
    · exact ⟨hearly.eq, rfl, rfl, hearly.multiBulkLen⟩
    · rw [hearly.vital, hearly.vital']
      exact hmasked
  · obtain ⟨-, halike, hargv⟩ := hparsed
    refine ⟨hcode, .inr (.inl ⟨hzero, ⟨⟨_, rfl⟩, halike, hargv.imp_right And.left⟩, fun hne ↦ ?_⟩)⟩
    rcases hargv with hargv | ⟨-, hempty⟩
    · exact hargv
    · exact absurd (hempty hzero) hne
  · exact ⟨hcode, .inr (.inr hreset)⟩

/-- The first request is an inline one. -/
theorem parseRequest_inline (hsplit : M.lib.SplitsBlank) (h : FirstAlike c c')
    (hinline : c.rc.reqType = protoReqInline) (hreq : c'.rc.reqType = c.rc.reqType)
    (hmaster : c'.rc.isMaster = c.rc.isMaster) (hcmd : c'.rc.cmd = .wild ↔ c.rc.cmd = .wild)
    (hargv : (c'.rc.argv = .wild ↔ c.rc.argv = .wild) ∨ (c.rc.isMaster = true ∧ c.rc.cmd = .wild)) :
    Related ReadAlike (parseRequest M c) (parseRequest M c') := by
  obtain ⟨⟨rc', rfl⟩, hearly, hmasked⟩ := h
  unfold parseRequest
  rw [if_pos hinline, if_pos (hreq.trans hinline)]
  exact (processInlineBuffer_early hsplit hearly hreq hmaster hcmd hargv _ _).bind
    (S := ReadAlike) fun hpq ↦ .ok (hpq.conn hmasked c _)

/-- The type of the first request is not set yet, so its first byte selects the parser; if that is
the one for multibulk requests, it finds an argument count that is not zero. -/
theorem parseRequest_unset (hsplit : M.lib.SplitsBlank) (h : FirstAlike c c')
    (hmbl' : c'.rc.multiBulkLen = 0) (hnone : c.rc.reqType = 0) (hreq : c'.rc.reqType = 0)
    (hargc : c.rc.argc ≠ 0) (hargc' : c'.rc.argc ≠ 0)
    (hmaster : c'.rc.isMaster = c.rc.isMaster) (hcmd : c'.rc.cmd = .wild ↔ c.rc.cmd = .wild)
    (hargv : (c'.rc.argv = .wild ↔ c.rc.argv = .wild) ∨ (c.rc.isMaster = true ∧ c.rc.cmd = .wild)) :
    Related ReadAlike (parseRequest M c.selected) (parseRequest M c'.selected) := by
  have hsame : selectReqType c'.rc = selectReqType c.rc := by
    rw [selectReqType, selectReqType, if_pos hreq, if_pos hnone, h.early.buffer.2.2]
  by_cases hstar : c.rc.unread.head? = some 42
  · have hsel : selectReqType c.rc = protoReqMultibulk := by
      rw [selectReqType, if_pos hnone, if_pos hstar]
    rw [parseRequest_asserts h.early.multiBulkLen hsel hargc,
      parseRequest_asserts hmbl' (hsame.trans hsel) hargc']
    exact .error _
  · have hsel : selectReqType c.rc = protoReqInline := by
      rw [selectReqType, if_pos hnone, if_neg hstar]
    refine parseRequest_inline hsplit ⟨?_, ⟨?_, rfl, rfl, h.early.multiBulkLen⟩, ?_⟩ hsel hsame
      hmaster hcmd hargv
    · obtain ⟨rc', rfl⟩ := h.eq
      exact ⟨_, rfl⟩
    · obtain ⟨m, hm⟩ := h.early.eq
      refine ⟨{ m with reqType := selectReqType c'.rc }, ?_⟩
      unfold Conn.selected
      rw [hm]
      rfl
    · exact .inline (.inl hsel) (.inl (hsame.trans hsel)) hsame hmaster hcmd hargv

theorem parseRequest_firstAlike (hsplit : M.lib.SplitsBlank) (h : FirstAlike c c') :
    Related ReadAlike (parseRequest M c.selected) (parseRequest M c'.selected) := by
  have hmbl' : c'.rc.multiBulkLen = 0 := by
    obtain ⟨m, hm⟩ := h.early.eq
    rw [hm]
    exact h.early.multiBulkLen
  cases h.masked with
  | panics hv hv' =>
      rw [parseRequest_panics hv, parseRequest_panics hv']
      exact .error _
  | asserts hv hv' =>
      have hne : c.rc.reqType ≠ 0 := by rw [show c.rc.reqType = _ from hv.1]; decide
      have hne' : c'.rc.reqType ≠ 0 := by rw [show c'.rc.reqType = _ from hv'.1]; decide
      rw [parseRequest_asserts h.early.multiBulkLen (by rw [selected_eq hne]; exact hv.1) hv.2,
        parseRequest_asserts hmbl' (by rw [selected_eq hne']; exact hv'.1) hv'.2]
      exact .error _
  | blocked hv hv' =>
      have hreq : c.rc.reqType = protoReqMultibulk := hv.1
      have hreq' : c'.rc.reqType = protoReqMultibulk := hv'.1
      rw [selected_eq (by rw [hreq]; decide), selected_eq (by rw [hreq']; decide)]
      have hfirst := processMultibulkBuffer_early (L := M.lib) h.early hv hv'
      obtain ⟨⟨rc', rfl⟩, -, hmasked⟩ := h
      unfold parseRequest
      rw [if_neg (by rw [hreq]; decide), if_pos hreq, if_neg (by exact hreq' ▸ by decide), if_pos hreq']
      exact hfirst.bind (S := ReadAlike) fun hpq ↦ .ok (hpq.conn hmasked c _)
  | inline hv hv' hreq hmaster hcmd hargv =>
      have hreq : c'.rc.reqType = c.rc.reqType := hreq
      rcases hv with hinline | ⟨hnone, hargc⟩
      · have hinline : c.rc.reqType = protoReqInline := hinline
        rw [selected_eq (by rw [hinline]; decide), selected_eq (by rw [hreq, hinline]; decide)]
        exact parseRequest_inline hsplit h hinline hreq hmaster hcmd hargv
      · have hnone' : c'.rc.reqType = 0 := hreq.trans hnone
        rcases hv' with hinline | ⟨-, hargc'⟩
        · rw [show c'.rc.vital.reqType = 0 from hnone'] at hinline
          exact absurd hinline (by decide)
        · exact parseRequest_unset hsplit h hmbl' hnone hnone' hargc hargc' hmaster hcmd hargv

theorem loopBody_firstAlike (hblind : M.backend.Blind) (hsplit : M.lib.SplitsBlank)
    (h : FirstAlike c c') :
    Related (IterAlike fun c c' ↦ ConnAlike c c' ∨ FirstAlike c c') (loopBody M c)
      (loopBody M c') := by
  have hflags : c'.rc.closeAfterReply = c.rc.closeAfterReply ∧ c'.rc.closeAsap = c.rc.closeAsap := by
    obtain ⟨m, hm⟩ := h.early.eq
    rw [hm]
    exact ⟨rfl, rfl⟩
  rw [loopBody_finish, loopBody_finish, h.early.buffer.1, h.early.buffer.2.1, hflags.1, hflags.2]
  split
  · exact .ok h.stop
  · split
    · exact .ok h.stop
    · refine (parseRequest_firstAlike hsplit h).bind
        (S := IterAlike fun c c' ↦ ConnAlike c c' ∨ FirstAlike c c') fun {p q} hpq ↦ ?_
      obtain ⟨hcode, ⟨hne, hfirst⟩ | ⟨hzero, hconn, hargv⟩ | ⟨hzero, hp, hq⟩⟩ := hpq
      · rw [hcode, if_pos hne, if_pos hne]
        exact .ok hfirst.stop
      · rw [hcode, if_neg (not_not.mpr hzero), if_neg (not_not.mpr hzero)]
        exact (finishRequest_alike hblind hconn hargv).mono (IterAlike.mono Or.inl)
      · rw [hcode, if_neg (not_not.mpr hzero), if_neg (not_not.mpr hzero)]
        have hreset : ∀ {rc : RedisClient}, rc.cmd = .wild →
            resetRedisClient rc = .error .badPointer := by
          intro rc hwild
          rw [resetRedisClient, hwild]
        rw [finishRequest, finishRequest, if_pos hp.1, if_pos hq.1, hreset hp.2, hreset hq.2]
        exact .error _

/-- **Lockstep.**  Connections that differ in harmless leftovers, or in content that nothing
reads, serve every sequence of reads alike. -/
theorem lockstep_firstAlike (hblind : M.backend.Blind) (hsplit : M.lib.SplitsBlank) :
    Lockstep M fun c c' ↦ ConnAlike c c' ∨ FirstAlike c c' where
  deliver chunk _ _ h := h.imp (·.deliver chunk) (·.deliver chunk)
  dropConsumed ret _ _ h := h.imp (·.dropConsumed ret) (·.dropConsumed ret)
  loopBody h := by
    rcases h with h | h
    · exact ((lockstep_connAlike hblind).loopBody h).mono (IterAlike.mono Or.inl)
    · exact loopBody_firstAlike hblind hsplit h

end Machine

end LatteRedis
