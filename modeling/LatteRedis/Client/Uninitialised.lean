import LatteRedis.Client.Simulation
import LatteRedis.Client.InputBuffer

/-!
# What the constructor leaves alone

`create_redis_client` takes a block from `zmalloc` and sets some of its fields.  The others
keep what was in the block before: `Block` is that content.  Most of it is harmless, in the
sense that it is overwritten before anything depends on it, or that nothing ever does.

`lockstep_connAlike` is the precise form.  Two connections whose clients differ in harmless
content only run in lockstep: they call the same handlers with the same arguments, produce
the same output and stop at the same faults.  Not harmless are `req_type` and `argc`, the
`CLIENT_MASTER` bit of `flag`, and whether `argv` and `cmd` are pointers that can be
followed.

A handler sees the client, harmless content included, and must not look at that.  This is
`Backend.Blind`.
-/

namespace LatteRedis

open ByteString Run

/-! ## Lockstep -/

section Lockstep

variable {σ : Type} {R : Conn σ → Conn σ → Prop}

/-- How two iterations end. -/
inductive IterAlike (R : Conn σ → Conn σ → Prop) : Iter σ → Iter σ → Prop
  | stop (ret : Int) {c c'} (h : R c c') : IterAlike R (.stop ret c) (.stop ret c')
  | again (executed : Bool) {c c'} (h : R c c') : IterAlike R (.again executed c) (.again executed c')

theorem IterAlike.mono {S : Conn σ → Conn σ → Prop} (hRS : ∀ {c c'}, R c c' → S c c')
    {i i' : Iter σ} (h : IterAlike R i i') : IterAlike S i i' := by
  cases h with
  | stop ret h => exact .stop ret (hRS h)
  | again executed h => exact .again executed (hRS h)

/-- How two calls end. -/
inductive ResultAlike (R : Conn σ → Conn σ → Prop) : Result σ → Result σ → Prop
  | returned (ret : Int) {c c'} (h : R c c') : ResultAlike R (.returned ret c) (.returned ret c')
  | faulted (f : Fault) {c c'} (h : R c c') : ResultAlike R (.faulted f c) (.faulted f c')
  | running {c c'} (h : R c c') : ResultAlike R (.running c) (.running c')

/-- Connections in the relation `R` stay in it. -/
structure Lockstep (M : Machine σ) (R : Conn σ → Conn σ → Prop) : Prop where
  deliver : ∀ (chunk : Bytes) {c c'}, R c c' → R (deliver chunk c) (deliver chunk c')
  dropConsumed : ∀ (ret : Int) {c c'}, R c c' → R (dropConsumed ret c) (dropConsumed ret c')
  loopBody : ∀ {c c'}, R c c' → Related (IterAlike R) (loopBody M c) (loopBody M c')

variable {M : Machine σ} {c c' : Conn σ}

theorem Lockstep.redisProcessInputBuffer (hR : Lockstep M R) (fuel : Nat) (h : R c c') :
    ResultAlike R (redisProcessInputBuffer M fuel c) (redisProcessInputBuffer M fuel c') := by
  induction fuel generalizing c c' with
  | zero => exact .running h
  | succ fuel ih =>
      have hbody := hR.loopBody h
      rw [LatteRedis.redisProcessInputBuffer, LatteRedis.redisProcessInputBuffer]
      generalize LatteRedis.loopBody M c = x at hbody ⊢
      generalize LatteRedis.loopBody M c' = y at hbody ⊢
      cases hbody with
      | error f => exact .faulted f h
      | ok hiter =>
          cases hiter with
          | stop ret hc => exact .returned ret hc
          | again executed hc => exact ih hc

theorem Lockstep.serveReads (hR : Lockstep M R) (fuel : Nat) (reads : List Bytes) (h : R c c') :
    ResultAlike R (serveReads M fuel reads c) (serveReads M fuel reads c') := by
  induction reads generalizing c c' with
  | nil => exact .returned 0 h
  | cons chunk reads ih =>
      have hcall := hR.redisProcessInputBuffer fuel (hR.deliver chunk h)
      rw [LatteRedis.serveReads, LatteRedis.serveReads, serveRead, serveRead]
      generalize LatteRedis.redisProcessInputBuffer M fuel (LatteRedis.deliver chunk c) = x at hcall ⊢
      generalize LatteRedis.redisProcessInputBuffer M fuel (LatteRedis.deliver chunk c') = y at hcall ⊢
      cases hcall with
      | returned ret hc => exact ih (hR.dropConsumed ret hc)
      | faulted f hc => exact .faulted f hc
      | running hc => exact .running hc

end Lockstep

/-! ## Blocks and clients -/

/-- The fields whose content does not matter, or not as a whole. -/
structure Leftover where
  flag : BitVec 32
  readReploff : Int
  argv : Ptr Argv
  cmd : Ptr RedisCommand
  lastcmd : Ptr RedisCommand
  argvLenSum : Nat
  replyBytes : Nat
  replAckTime : Int
deriving DecidableEq, Repr

/-- The content of a block that `create_redis_client` does not overwrite. -/
structure Block extends Leftover where
  reqType : Int
  argc : Int
deriving DecidableEq, Repr

/-- `create_redis_client`, on a block with the content `m`, and what the library sets in the
embedded `latte_client_t`. -/
def createRedisClient (m : Block) : RedisClient where
  querybuf := []
  qbPos := 0
  reply := { list := [], replyBytes := m.replyBytes }
  closeAfterReply := false
  closeAsap := false
  flag := m.flag
  reqType := m.reqType
  readReploff := m.readReploff
  argc := m.argc
  argv := m.argv
  cmd := m.cmd
  lastcmd := m.lastcmd
  argvLenSum := m.argvLenSum
  bulkLen := -1
  multiBulkLen := 0
  replAckTime := m.replAckTime
  dbid := 0
  protocolErrors := []

/-- The client with other leftovers. -/
def RedisClient.withLeftover (rc : RedisClient) (g : Leftover) : RedisClient :=
  { rc with
    reply := { rc.reply with replyBytes := g.replyBytes }
    flag := g.flag, readReploff := g.readReploff, argv := g.argv, cmd := g.cmd
    lastcmd := g.lastcmd, argvLenSum := g.argvLenSum, replAckTime := g.replAckTime }

/-- The clients differ in their leftovers only, and not where it matters. -/
structure Alike (rc rc' : RedisClient) : Prop where
  eq : ∃ g, rc' = rc.withLeftover g
  isMaster : rc'.isMaster = rc.isMaster
  argv : rc'.argv = .wild ↔ rc.argv = .wild
  cmd : rc'.cmd = .wild ↔ rc.cmd = .wild

namespace Alike

variable {rc rc' : RedisClient}

/-- An update of other fields. -/
theorem update (h : Alike rc rc') (u : RedisClient → RedisClient)
    (hcomm : ∀ rc g, u (rc.withLeftover g) = (u rc).withLeftover g)
    (hkeep : ∀ rc, (u rc).flag = rc.flag ∧ (u rc).argv = rc.argv ∧ (u rc).cmd = rc.cmd) :
    Alike (u rc) (u rc') := by
  obtain ⟨⟨g, rfl⟩, hmaster, hargv, hcmd⟩ := h
  obtain ⟨hf, ha, hc⟩ := hkeep rc
  obtain ⟨hf', ha', hc'⟩ := hkeep (rc.withLeftover g)
  refine ⟨⟨g, hcomm rc g⟩, ?_, by rw [ha, ha']; exact hargv, by rw [hc, hc']; exact hcmd⟩
  unfold RedisClient.isMaster at *
  rw [hf, hf']
  exact hmaster

theorem unread (h : Alike rc rc') : rc'.unread = rc.unread := by
  obtain ⟨⟨g, rfl⟩, -⟩ := h
  rfl

theorem buffer (h : Alike rc rc') : rc'.querybuf = rc.querybuf ∧ rc'.qbPos = rc.qbPos := by
  obtain ⟨⟨g, rfl⟩, -⟩ := h
  exact ⟨rfl, rfl⟩

theorem counters (h : Alike rc rc') : rc'.reqType = rc.reqType ∧ rc'.argc = rc.argc ∧
    rc'.multiBulkLen = rc.multiBulkLen ∧ rc'.bulkLen = rc.bulkLen := by
  obtain ⟨⟨g, rfl⟩, -⟩ := h
  exact ⟨rfl, rfl, rfl, rfl⟩

/-- The acknowledgement time is a leftover. -/
theorem ackNewline (h : Alike rc rc') (unixtime : Int) (n : Nat) :
    Alike (ackNewline unixtime n rc) (ackNewline unixtime n rc') := by
  obtain ⟨t, ht⟩ := ackNewline_eq unixtime n rc
  obtain ⟨t', ht'⟩ := ackNewline_eq unixtime n rc'
  rw [ht, ht']
  obtain ⟨⟨g, rfl⟩, hmaster, hargv, hcmd⟩ := h
  exact ⟨⟨{ g with replAckTime := t' }, rfl⟩, hmaster, hargv, hcmd⟩

/-- An error reply and a line in the log. -/
theorem errored (h : Alike rc rc') (L : LatteC) (text : Bytes) (line : String) :
    Alike (setProtocolError line { rc with reply := addReplyErrorLength L rc.reply text })
      (setProtocolError line { rc' with reply := addReplyErrorLength L rc'.reply text }) := by
  refine h.update
    (fun rc ↦ setProtocolError line { rc with reply := addReplyErrorLength L rc.reply text })
    (fun rc g ↦ ?_) fun rc ↦ ⟨rfl, rfl, rfl⟩
  unfold addReplyErrorLength
  by_cases hcode : text.head? = some 45
  · simp only [hcode, if_true]
    rfl
  · simp only [hcode, if_false]
    rfl

theorem protocolError (h : Alike rc rc') (L : LatteC) (reply errstr : String) :
    Alike (LatteRedis.protocolError L reply errstr rc)
      (LatteRedis.protocolError L reply errstr rc') := h.errored L _ _

/-- A new vector takes the place of the old one, whatever that was. -/
theorem newArgv (h : Alike rc rc') (slots : Nat) :
    Related (fun rc₁ rc₁' ↦ Alike rc₁ rc₁' ∧ rc₁'.argv = rc₁.argv ∧
      rc₁.multiBulkLen = rc.multiBulkLen) (rc.newArgv slots) (rc'.newArgv slots) := by
  by_cases hwild : rc.argv = .wild
  · have hwild' := h.argv.mpr hwild
    unfold RedisClient.newArgv
    rw [hwild, hwild']
    exact .error _
  · have hwild' : rc'.argv ≠ .wild := fun h' ↦ hwild (h.argv.mp h')
    rw [newArgv_ok hwild, newArgv_ok hwild']
    obtain ⟨⟨g, rfl⟩, hmaster, -, hcmd⟩ := h
    exact .ok ⟨⟨⟨{ g with argv := .live ⟨slots, []⟩, argvLenSum := 0 }, rfl⟩, hmaster, by simp, hcmd⟩,
      rfl, rfl⟩

/-- Objects are pushed on the same vector. -/
theorem pushArg (h : Alike rc rc') (hargv : rc'.argv = rc.argv) (o : LatteObject) :
    Related (fun rc₁ rc₁' ↦ Alike rc₁ rc₁' ∧ rc₁'.argv = rc₁.argv) (rc.pushArg o) (rc'.pushArg o) := by
  obtain ⟨⟨g, rfl⟩, hmaster, -, hcmd⟩ := h
  have hargc : (rc.withLeftover g).argc = rc.argc := rfl
  unfold RedisClient.pushArg
  rw [hargv, hargc]
  cases rc.argv with
  | null | wild => exact .error _
  | live a =>
      dsimp only
      split
      · exact .ok ⟨⟨⟨{ g with argv := .live ⟨a.slots, a.vals.take rc.argc.toNat ++ [o]⟩ }, rfl⟩,
          hmaster, by simp, hcmd⟩, rfl⟩
      · exact .error _

end Alike

/-! ## The parsers -/

/-- The two clients work on one vector, or have not come to it. -/
def SameVector (rc rc' : RedisClient) : Prop := rc'.argv = rc.argv ∨ rc.multiBulkLen = 0

/-- What two calls of a parser return.  If they complete a request that is not empty, they
have put it into the same vector. -/
def ParsedAlike (p q : Int × RedisClient) : Prop :=
  q.1 = p.1 ∧ Alike p.2 q.2 ∧
    (q.2.argv = p.2.argv ∨ (p.2.multiBulkLen = 0 ∧ (p.1 = 0 → p.2.argc = 0)))

/-- What two pieces of the multibulk parser hand on. -/
inductive FlowAlike : Flow → Flow → Prop
  | ret {code rc rc'} (h : ParsedAlike (code, rc) (code, rc')) : FlowAlike (.ret code rc) (.ret code rc')
  | brk {rc rc'} (h : Alike rc rc') (hargv : rc'.argv = rc.argv) : FlowAlike (.brk rc) (.brk rc')
  | next {rc rc'} (h : Alike rc rc') (hargv : rc'.argv = rc.argv) : FlowAlike (.next rc) (.next rc')

section Parsers

variable {L : LatteC} {rc rc' : RedisClient}

theorem ParsedAlike.incomplete (h : Alike rc rc') (hvec : SameVector rc rc') :
    ParsedAlike (-1, rc) (-1, rc') :=
  ⟨rfl, h, hvec.imp_right fun hmbl ↦ ⟨hmbl, fun hcode ↦ absurd hcode (by simp)⟩⟩

theorem storeInlineArgs_alike (h : Alike rc rc') (hvec : SameVector rc rc') (args : List Bytes) :
    Related (fun rc₁ rc₁' ↦ ParsedAlike (0, rc₁) (0, rc₁')) (storeInlineArgs rc args)
      (storeInlineArgs rc' args) := by
  unfold storeInlineArgs
  split
  · refine .ok ⟨rfl, h.update (fun rc ↦ { rc with argc := 0 }) (fun _ _ ↦ rfl)
      fun _ ↦ ⟨rfl, rfl, rfl⟩, ?_⟩
    exact hvec.imp_right fun hmbl ↦ ⟨hmbl, fun _ ↦ rfl⟩
  · refine (h.newArgv args.length).bind fun {rc₁ rc₁'} hrc ↦ .ok ⟨rfl, ?_, .inl rfl⟩
    obtain ⟨⟨⟨g, rfl⟩, hmaster, -, hcmd⟩, -⟩ := hrc
    exact ⟨⟨{ g with
      argv := .live ⟨args.length, args.map latteObjectNew⟩
      argvLenSum := (args.map List.length).sum }, rfl⟩, hmaster, by simp, hcmd⟩

theorem acceptInlineLine_alike (h : Alike rc rc') (hvec : SameVector rc rc') (queryLen : Nat)
    (linefeedChars : Int) (args : List Bytes) :
    Related ParsedAlike (acceptInlineLine queryLen linefeedChars args rc)
      (acceptInlineLine queryLen linefeedChars args rc') := by
  unfold acceptInlineLine
  rw [h.isMaster, h.buffer.2]
  split
  · exact .ok (.incomplete (h.update (setProtocolError _) (fun _ _ ↦ rfl) fun _ ↦ ⟨rfl, rfl, rfl⟩) hvec)
  · refine (storeInlineArgs_alike (h.update (fun rc₁ ↦ { rc₁ with
      qbPos := (((rc.qbPos + queryLen : Nat) + linefeedChars) % 2 ^ 64).toNat }) (fun _ _ ↦ rfl)
      fun _ ↦ ⟨rfl, rfl, rfl⟩) hvec args).bind fun hrc ↦ .ok hrc

theorem processInlineBuffer_alike (h : Alike rc rc') (hvec : SameVector rc rc')
    (unixtime linefeedChars : Int) :
    Related ParsedAlike (processInlineBuffer L unixtime linefeedChars rc)
      (processInlineBuffer L unixtime linefeedChars rc') := by
  unfold processInlineBuffer
  rw [h.unread, h.buffer.1, h.buffer.2]
  split
  · split
    · exact .ok (.incomplete (h.protocolError L _ _) hvec)
    · exact .ok (.incomplete h hvec)
  · dsimp only
    split
    · exact .ok (.incomplete (h.protocolError L _ _) hvec)
    · refine acceptInlineLine_alike (h.ackNewline _ _) ?_ _ _ _
      unfold ackNewline
      split <;> split <;> exact hvec

theorem readMultibulkLen_alike (h : Alike rc rc') (hmbl : rc.multiBulkLen = 0) :
    Related FlowAlike (readMultibulkLen L rc) (readMultibulkLen L rc') := by
  have hvec : SameVector rc rc' := .inr hmbl
  obtain ⟨g, rfl⟩ := h.eq
  unfold readMultibulkLen
  rw [h.unread, h.buffer.1, h.buffer.2, h.counters.2.1]
  split
  · exact .error _
  · next hargc =>
    split
    · split
      · exact .ok (.ret (.incomplete (h.protocolError L _ _) hvec))
      · exact .ok (.ret (.incomplete h hvec))
    · next newline _ =>
      split
      · exact .ok (.ret (.incomplete h hvec))
      · split
        · exact .error _
        · dsimp only
          split
          · exact .ok (.ret (.incomplete (h.protocolError L _ _) hvec))
          · next ll _ =>
            split
            · exact .ok (.ret (.incomplete (h.protocolError L _ _) hvec))
            · simp only [authRequired, Bool.false_eq_true, and_false, if_false]
              split
              · refine .ok (.ret ⟨rfl, ?_, .inr ⟨hmbl, fun _ ↦ not_not.mp hargc⟩⟩)
                exact h.update (fun rc₁ ↦ { rc₁ with qbPos := rc.qbPos + newline + 2 })
                  (fun _ _ ↦ rfl) fun _ ↦ ⟨rfl, rfl, rfl⟩
              · have h' := h.update
                  (fun rc₁ ↦ { rc₁ with qbPos := rc.qbPos + newline + 2, multiBulkLen := ll })
                  (fun _ _ ↦ rfl) fun _ ↦ ⟨rfl, rfl, rfl⟩
                exact (h'.newArgv ll.toNat).bind (S := FlowAlike) fun hrc ↦ .ok (.next hrc.1 hrc.2.1)

theorem readBulkLen_alike (h : Alike rc rc') (hargv : rc'.argv = rc.argv) :
    FlowAlike (readBulkLen L rc) (readBulkLen L rc') := by
  have hvec : SameVector rc rc' := .inl hargv
  obtain ⟨g, rfl⟩ := h.eq
  unfold readBulkLen
  rw [h.unread, h.buffer.1, h.buffer.2, h.isMaster]
  split
  · split
    · exact .ret (.incomplete (h.protocolError L _ _) hvec)
    · exact .brk h hargv
  · next newline _ =>
    split
    · exact .brk h hargv
    · split
      · exact .ret (.incomplete (h.errored L _ _) hvec)
      · dsimp only
        split
        · exact .ret (.incomplete (h.protocolError L _ _) hvec)
        · next ll _ =>
          split
          · exact .ret (.incomplete (h.protocolError L _ _) hvec)
          · simp only [authRequired, Bool.false_eq_true, and_false, if_false]
            -- the rest of the buffer may be brought to its front
            split
            · exact .next (h.update (fun rc₁ ↦ { rc₁ with
                querybuf := ({ rc with qbPos := rc.qbPos + newline + 2 } : RedisClient).unread
                qbPos := 0, bulkLen := ll }) (fun _ _ ↦ rfl) fun _ ↦ ⟨rfl, rfl, rfl⟩) hargv
            · exact .next (h.update (fun rc₁ ↦ { rc₁ with
                qbPos := rc.qbPos + newline + 2, bulkLen := ll }) (fun _ _ ↦ rfl)
                fun _ ↦ ⟨rfl, rfl, rfl⟩) hargv

theorem readBulkArg_alike (h : Alike rc rc') (hargv : rc'.argv = rc.argv) :
    Related FlowAlike (readBulkArg L rc) (readBulkArg L rc') := by
  -- what either branch does behind the new argument
  have hnext : ∀ (u : RedisClient → RedisClient) (o : LatteObject) (n n' : Nat),
      (∀ rc g, u (rc.withLeftover g) = (u rc).withLeftover g) →
      (∀ rc, (u rc).flag = rc.flag ∧ (u rc).argv = rc.argv ∧ (u rc).cmd = rc.cmd) →
      Related FlowAlike
        (rc.pushArg o >>= fun rc₁ ↦ pure (.next { u rc₁ with argvLenSum := n }))
        (rc'.pushArg o >>= fun rc₁ ↦ pure (.next { u rc₁ with argvLenSum := n' })) := by
    intro u o n n' hcomm hkeep
    refine (h.pushArg hargv o).bind (S := FlowAlike) fun {rc₁ rc₁'} hrc ↦ .ok (.next ?_ ?_)
    · obtain ⟨⟨g, hg⟩, hmaster, hwild, hcmd⟩ := hrc.1.update u hcomm hkeep
      rw [hg] at hmaster hwild hcmd ⊢
      exact ⟨⟨{ g with argvLenSum := n' }, rfl⟩, hmaster, hwild, hcmd⟩
    · show (u rc₁').argv = (u rc₁).argv
      rw [(hkeep rc₁').2.1, (hkeep rc₁).2.1, hrc.2]
  obtain ⟨g, rfl⟩ := h.eq
  unfold readBulkArg
  rw [h.unread, h.buffer.1, h.buffer.2, h.counters.2.2.2]
  split
  · exact .ok (.brk h hargv)
  · split
    · exact hnext (fun rc₁ ↦ { rc₁ with
        querybuf := [], bulkLen := -1, multiBulkLen := rc.multiBulkLen - 1 }) _ _ _
        (fun _ _ ↦ rfl) fun _ ↦ ⟨rfl, rfl, rfl⟩
    · exact hnext (fun rc₁ ↦ { rc₁ with
        qbPos := rc.qbPos + rc.bulkLen.toNat + 2, bulkLen := -1
        multiBulkLen := rc.multiBulkLen - 1 }) _ _ _
        (fun _ _ ↦ rfl) fun _ ↦ ⟨rfl, rfl, rfl⟩

theorem multibulkCode_alike (h : Alike rc rc') (hargv : rc'.argv = rc.argv) :
    ParsedAlike (multibulkCode rc, rc) (multibulkCode rc', rc') := by
  refine ⟨?_, h, .inl hargv⟩
  unfold multibulkCode
  rw [h.counters.2.2.1]

theorem multibulkLoop_alike (n : Nat) (h : Alike rc rc') (hargv : rc'.argv = rc.argv) :
    Related ParsedAlike (multibulkLoop L n rc) (multibulkLoop L n rc') := by
  induction n generalizing rc rc' with
  | zero => exact .ok (multibulkCode_alike h hargv)
  | succ n ih =>
      have hlen : FlowAlike (if rc.bulkLen = -1 then readBulkLen L rc else .next rc)
          (if rc'.bulkLen = -1 then readBulkLen L rc' else .next rc') := by
        rw [h.counters.2.2.2]
        split
        · exact readBulkLen_alike h hargv
        · exact .next h hargv
      rw [multibulkLoop, multibulkLoop]
      generalize (if rc.bulkLen = -1 then readBulkLen L rc else .next rc) = f at hlen
      generalize (if rc'.bulkLen = -1 then readBulkLen L rc' else .next rc') = f' at hlen
      cases hlen with
      | ret h => exact .ok h
      | brk h hargv => exact .ok (multibulkCode_alike h hargv)
      | next h hargv =>
          refine (readBulkArg_alike h hargv).bind (S := ParsedAlike) fun hflow ↦ ?_
          cases hflow with
          | ret h => exact .ok h
          | brk h hargv => exact .ok (multibulkCode_alike h hargv)
          | next h hargv => exact ih h hargv

theorem processMultibulkBuffer_alike (h : Alike rc rc') (hvec : SameVector rc rc') :
    Related ParsedAlike (processMultibulkBuffer L rc) (processMultibulkBuffer L rc') := by
  unfold processMultibulkBuffer
  have hcount : Related FlowAlike
      (if rc.multiBulkLen = 0 then readMultibulkLen L rc else .ok (.next rc))
      (if rc'.multiBulkLen = 0 then readMultibulkLen L rc' else .ok (.next rc')) := by
    rw [h.counters.2.2.1]
    split
    · next hmbl => exact readMultibulkLen_alike h hmbl
    · next hmbl => exact .ok (.next h (hvec.resolve_right hmbl))
  have hloop : ∀ {rc rc' : RedisClient}, Alike rc rc' → rc'.argv = rc.argv →
      Related ParsedAlike
        (if rc.multiBulkLen > 0 then multibulkLoop L rc.multiBulkLen.toNat rc
          else .error (.assertion "rc->multibulklen"))
        (if rc'.multiBulkLen > 0 then multibulkLoop L rc'.multiBulkLen.toNat rc'
          else .error (.assertion "rc->multibulklen")) := by
    intro rc rc' h hargv
    rw [h.counters.2.2.1]
    split
    · exact multibulkLoop_alike _ h hargv
    · exact .error _
  refine hcount.bind (S := ParsedAlike) fun hflow ↦ ?_
  cases hflow with
  | ret h => exact .ok h
  | brk h hargv => exact hloop h hargv
  | next h hargv => exact hloop h hargv

end Parsers

/-! ## Connections -/

variable {σ : Type}

/-- The connections differ in the leftovers of their clients only. -/
structure ConnAlike (c c' : Conn σ) : Prop where
  eq : ∃ rc', c' = { c with rc := rc' }
  rc : Alike c.rc c'.rc
  vector : SameVector c.rc c'.rc

/-- What two calls of a handler return. -/
def HandledAlike (p q : σ × RedisClient) : Prop :=
  q.1 = p.1 ∧ q.2.reply.list = p.2.reply.list ∧
    q.2.closeAfterReply = p.2.closeAfterReply ∧ q.2.closeAsap = p.2.closeAsap

/-- Handlers do not look at what the constructor leaves alone. -/
def Backend.Blind (B : Backend σ) : Prop :=
  ∀ {cmd s rc rc'}, Alike rc rc' → rc'.argv = rc.argv → rc'.cmd = rc.cmd →
    Related HandledAlike (B.proc cmd s rc) (B.proc cmd s rc')

theorem freeClientArgv_alike {rc rc' : RedisClient} (h : Alike rc rc')
    (hargv : rc'.argv = rc.argv ∨ rc.argc = 0) :
    Related (fun rc₁ rc₁' ↦ Alike rc₁ rc₁') (freeClientArgv rc) (freeClientArgv rc') := by
  have hargs : rc'.args.length = rc.args.length := by
    unfold RedisClient.args
    rw [h.counters.2.1]
    rcases hargv with hargv | hargc
    · rw [hargv]
    · rw [hargc]
      cases rc.argv <;> cases rc'.argv <;> simp
  unfold freeClientArgv
  rw [hargs, h.counters.2.1]
  obtain ⟨⟨g, rfl⟩, hmaster, hwild, -⟩ := h
  split
  · exact .ok ⟨⟨{ g with cmd := .null, argvLenSum := 0 }, rfl⟩, hmaster, hwild, by simp⟩
  · exact .error _

theorem resetRedisClient_alike {rc rc' : RedisClient} (h : Alike rc rc')
    (hargv : rc'.argv = rc.argv ∨ rc.argc = 0) :
    Related (fun rc₁ rc₁' ↦ Alike rc₁ rc₁' ∧ rc₁.multiBulkLen = 0) (resetRedisClient rc)
      (resetRedisClient rc') := by
  have hfree : Related (fun rc₁ rc₁' ↦ Alike rc₁ rc₁' ∧ rc₁.multiBulkLen = 0)
      (freeClientArgv rc >>= fun rc ↦
        pure { rc with reqType := 0, multiBulkLen := 0, bulkLen := -1 })
      (freeClientArgv rc' >>= fun rc ↦
        pure { rc with reqType := 0, multiBulkLen := 0, bulkLen := -1 }) :=
    (freeClientArgv_alike h hargv).bind fun hrc ↦ .ok ⟨hrc.update
      (fun rc ↦ { rc with reqType := 0, multiBulkLen := 0, bulkLen := -1 }) (fun _ _ ↦ rfl)
      fun _ ↦ ⟨rfl, rfl, rfl⟩, rfl⟩
  unfold resetRedisClient
  by_cases hwild : rc.cmd = .wild
  · rw [hwild, h.cmd.mpr hwild]
    exact .error _
  · have hwild' : rc'.cmd ≠ .wild := fun h' ↦ hwild (h.cmd.mp h')
    cases hc : rc.cmd with
    | wild => exact absurd hc hwild
    | null | live a =>
        cases hc' : rc'.cmd with
        | wild => exact absurd hc' hwild'
        | null | live a => exact hfree

section Machine

variable {M : Machine σ} {c c' : Conn σ}

/-- What two handlers leave behind of two clients. -/
theorem HandledAlike.alike {cmd : RedisCommand} {s : σ} {rc rc' : RedisClient} (h : Alike rc rc')
    {p q : σ × RedisClient} (hp : M.backend.proc cmd s rc = .ok p)
    (hq : M.backend.proc cmd s rc' = .ok q) (hpq : HandledAlike p q) : Alike p.2 q.2 := by
  obtain ⟨s₁, rc₁⟩ := p
  obtain ⟨s₁', rc₁'⟩ := q
  obtain ⟨-, hlist, hreply, hasap⟩ := hpq
  have hframe : rc₁ = _ := M.backend.frame hp
  have hframe' : rc₁' = _ := M.backend.frame hq
  obtain ⟨⟨g, rfl⟩, hmaster, hwild, hcmd⟩ := h
  dsimp only at *
  rw [hframe, hframe']
  refine ⟨⟨{ g with replyBytes := rc₁'.reply.replyBytes }, ?_⟩, hmaster, hwild, hcmd⟩
  rw [hreply, hasap]
  unfold RedisClient.withLeftover
  congr 1
  show rc₁'.reply = { list := rc₁.reply.list, replyBytes := rc₁'.reply.replyBytes }
  rw [← hlist]

/-- A request in the same vector is executed alike. -/
theorem processCommand_alike (hblind : M.backend.Blind) (h : ConnAlike c c')
    (hargv : c'.rc.argv = c.rc.argv) :
    Related (fun p q ↦ q.1 = p.1 ∧ ConnAlike p.2 q.2 ∧ q.2.rc.argv = p.2.rc.argv)
      (processCommand M c) (processCommand M c') := by
  obtain ⟨⟨rc', rfl⟩, hrc, -⟩ := h
  dsimp only at hrc hargv
  have hat : rc'.argvAt 0 = c.rc.argvAt 0 := by
    unfold RedisClient.argvAt
    rw [hargv]
  unfold processCommand
  dsimp only
  rw [hat]
  refine .bind_same _ fun o ↦ .bind_same _ ?_
  intro name
  cases M.backend.lookup c.server name with
  | none =>
      obtain ⟨⟨g, hg⟩, hmaster, hwild, -⟩ := hrc
      refine .ok ⟨rfl, ⟨⟨_, rfl⟩, ⟨⟨{ g with cmd := .null, lastcmd := .null }, ?_⟩, hmaster, hwild,
        by simp⟩, .inl hargv⟩, hargv⟩
      dsimp only
      rw [hg]
      rfl
  | some cmd =>
      have hcalled : Alike { c.rc with cmd := .live cmd, lastcmd := .live cmd }
          { rc' with cmd := .live cmd, lastcmd := .live cmd } := by
        obtain ⟨⟨g, hg⟩, hmaster, hwild, -⟩ := hrc
        refine ⟨⟨{ g with cmd := .live cmd, lastcmd := .live cmd }, ?_⟩, hmaster, hwild, by simp⟩
        rw [hg]
        rfl
      have hargs : rc'.args = c.rc.args := by
        unfold RedisClient.args
        rw [hargv, hrc.counters.2.1]
      have hproc : Related HandledAlike (M.backend.proc cmd c.server _)
        (M.backend.proc cmd c.server _) := hblind hcalled hargv rfl
      dsimp only
      generalize hp : M.backend.proc cmd c.server
        { c.rc with cmd := .live cmd, lastcmd := .live cmd } = x at hproc
      generalize hq : M.backend.proc cmd c.server
        { rc' with cmd := .live cmd, lastcmd := .live cmd } = y at hproc
      cases hproc with
      | error f => exact .error f
      | @ok p q hpq =>
          have hargv' : q.2.argv = p.2.argv := by
            rw [M.backend.frame hp, M.backend.frame hq]
            exact hargv
          refine .ok ⟨rfl, ⟨⟨q.2, ?_⟩, hpq.alike hcalled hp hq, .inl hargv'⟩, hargv'⟩
          show (⟨q.2, q.1, c.calls ++ [rc'.args.map _], c.inlineCalls⟩ : Conn σ) =
            ⟨q.2, p.1, c.calls ++ [c.rc.args.map _], c.inlineCalls⟩
          rw [hpq.1, hargs]

theorem processCommandAndResetClient_alike (hblind : M.backend.Blind) (h : ConnAlike c c')
    (hargv : c'.rc.argv = c.rc.argv) :
    Related (fun p q ↦ q.1 = p.1 ∧ ConnAlike p.2 q.2) (processCommandAndResetClient M c)
      (processCommandAndResetClient M c') := by
  unfold processCommandAndResetClient
  apply (processCommand_alike hblind h hargv).bind
  intro p q hpq
  obtain ⟨code, c₁⟩ := p
  obtain ⟨code', c₁'⟩ := q
  obtain ⟨rfl, hc, hargv'⟩ := hpq
  dsimp only at hc hargv'
  have hdone : Related ConnAlike (commandProcessed code' c₁) (commandProcessed code' c₁') := by
    unfold commandProcessed
    split
    · have hreset := resetRedisClient_alike hc.rc (.inl hargv')
      obtain ⟨rc₁', rfl⟩ := hc.eq
      generalize resetRedisClient c₁.rc = x at hreset ⊢
      generalize resetRedisClient rc₁' = y at hreset ⊢
      cases hreset with
      | error f => exact .error f
      | ok h => exact .ok ⟨⟨_, rfl⟩, h.1, .inr h.2⟩
    · exact .ok hc
  refine hdone.bind fun {c₂ c₂'} hc₂ ↦ .ok ⟨?_, hc₂⟩
  obtain ⟨rc₂, rfl⟩ := hc₂.eq
  rfl

theorem parseRequest_alike (h : ConnAlike c c') :
    Related (fun p q ↦ q.1 = p.1 ∧ ConnAlike p.2 q.2 ∧
      (p.1 = 0 → p.2.rc.argc ≠ 0 → q.2.rc.argv = p.2.rc.argv))
      (parseRequest M c) (parseRequest M c') := by
  obtain ⟨⟨rc', rfl⟩, hrc, hvec⟩ := h
  have hconn : ∀ {p q : Int × RedisClient} (n : Nat), ParsedAlike p q →
      q.1 = p.1 ∧ ConnAlike { c with rc := p.2, inlineCalls := n }
        { c with rc := q.2, inlineCalls := n } ∧ (p.1 = 0 → p.2.argc ≠ 0 → q.2.argv = p.2.argv) := by
    rintro p q n ⟨hcode, hpq, hparsed⟩
    refine ⟨hcode, ⟨⟨_, rfl⟩, hpq, hparsed.imp_right And.left⟩, ?_⟩
    intro hzero hargc
    rcases hparsed with hargv | ⟨-, hempty⟩
    · exact hargv
    · exact absurd (hempty hzero) hargc
  unfold parseRequest
  dsimp only at hrc hvec ⊢
  rw [hrc.counters.1]
  split
  · exact (processInlineBuffer_alike hrc hvec _ _).bind fun hpq ↦ .ok (hconn _ hpq)
  · split
    · exact (processMultibulkBuffer_alike hrc hvec).bind fun hpq ↦ .ok (hconn _ hpq)
    · exact .error _

theorem ConnAlike.stop (h : ConnAlike c c') :
    IterAlike ConnAlike (.stop (exitCode c.rc) c) (.stop (exitCode c'.rc) c') := by
  rw [show exitCode c'.rc = exitCode c.rc by rw [exitCode, exitCode, h.rc.buffer.2]]
  exact .stop _ h

theorem ConnAlike.selected (h : ConnAlike c c') : ConnAlike c.selected c'.selected := by
  obtain ⟨⟨rc', rfl⟩, hrc, hvec⟩ := h
  have hreq : selectReqType rc' = selectReqType c.rc := by
    unfold selectReqType
    rw [show rc'.reqType = _ from hrc.counters.1, show rc'.unread = _ from hrc.unread]
  unfold Conn.selected
  dsimp only
  rw [hreq]
  exact ⟨⟨_, rfl⟩, hrc.update (fun rc ↦ { rc with reqType := selectReqType c.rc }) (fun _ _ ↦ rfl)
    fun _ ↦ ⟨rfl, rfl, rfl⟩, hvec⟩

/-- What an iteration does with a request that is complete. -/
def finishRequest (M : Machine σ) (c : Conn σ) : Except Fault (Iter σ) := do
  if c.rc.argc = 0 then
    let rc ← resetRedisClient c.rc
    return .again false { c with rc := rc }
  else
    let (code, c) ← processCommandAndResetClient M c
    if code = -1 then return .stop 0 c else return .again true c

/-- An iteration parses a request, and finishes it if it is complete. -/
theorem loopBody_finish (M : Machine σ) (c : Conn σ) :
    loopBody M c =
      if ¬ c.rc.qbPos < c.rc.querybuf.length then .ok (.stop (exitCode c.rc) c)
      else if c.rc.closeAfterReply ∨ c.rc.closeAsap then .ok (.stop (exitCode c.rc) c)
      else parseRequest M c.selected >>= fun p ↦
        if p.1 ≠ 0 then .ok (.stop (exitCode p.2.rc) p.2) else finishRequest M p.2 := rfl

theorem finishRequest_alike (hblind : M.backend.Blind) (h : ConnAlike c c')
    (hargv : c.rc.argc ≠ 0 → c'.rc.argv = c.rc.argv) :
    Related (IterAlike ConnAlike) (finishRequest M c) (finishRequest M c') := by
  unfold finishRequest
  rw [h.rc.counters.2.1]
  split
  · next hargc =>
      refine (resetRedisClient_alike h.rc (.inr hargc)).bind (S := IterAlike ConnAlike)
        fun {rc₁ rc₁'} hrc ↦ .ok (.again false ?_)
      obtain ⟨rc', rfl⟩ := h.eq
      exact ⟨⟨_, rfl⟩, hrc.1, .inr hrc.2⟩
  · next hargc =>
      refine (processCommandAndResetClient_alike hblind h (hargv hargc)).bind
        (S := IterAlike ConnAlike) fun {p q} hpq ↦ ?_
      obtain ⟨code, c₁⟩ := p
      obtain ⟨code', c₁'⟩ := q
      obtain ⟨rfl, hc⟩ := hpq
      dsimp only at hc ⊢
      split
      · exact .ok (.stop 0 hc)
      · exact .ok (.again true hc)

theorem loopBody_alike (hblind : M.backend.Blind) (h : ConnAlike c c') :
    Related (IterAlike ConnAlike) (loopBody M c) (loopBody M c') := by
  have hflags : c'.rc.closeAfterReply = c.rc.closeAfterReply ∧ c'.rc.closeAsap = c.rc.closeAsap := by
    obtain ⟨⟨g, hg⟩, -⟩ := h.rc
    rw [hg]
    exact ⟨rfl, rfl⟩
  rw [loopBody_finish, loopBody_finish, h.rc.buffer.1, h.rc.buffer.2, hflags.1, hflags.2]
  split
  · exact .ok h.stop
  · split
    · exact .ok h.stop
    · apply (parseRequest_alike h.selected).bind (S := IterAlike ConnAlike)
      intro p q hpq
      rw [hpq.1]
      split
      · exact .ok hpq.2.1.stop
      · next hcode => exact finishRequest_alike hblind hpq.2.1 (hpq.2.2 (not_not.mp hcode))

theorem ConnAlike.deliver (h : ConnAlike c c') (chunk : Bytes) :
    ConnAlike (deliver chunk c) (deliver chunk c') := by
  obtain ⟨⟨rc', rfl⟩, ⟨⟨g, rfl⟩, hmaster, hargv, hcmd⟩, hvec⟩ := h
  refine ⟨⟨_, rfl⟩, ⟨⟨{ g with readReploff := ?_ }, ?_⟩, hmaster, hargv, hcmd⟩, hvec⟩
  · exact (LatteRedis.deliver chunk { c with rc := c.rc.withLeftover g }).rc.readReploff
  · rfl

theorem ConnAlike.dropConsumed (h : ConnAlike c c') (ret : Int) :
    ConnAlike (dropConsumed ret c) (dropConsumed ret c') := by
  unfold LatteRedis.dropConsumed
  split
  · obtain ⟨⟨rc', rfl⟩, hrc, hvec⟩ := h
    obtain ⟨g, rfl⟩ := hrc.eq
    exact ⟨⟨_, rfl⟩, hrc.update (fun rc ↦ { rc with querybuf := c.rc.unread, qbPos := 0 })
      (fun _ _ ↦ rfl) fun _ ↦ ⟨rfl, rfl, rfl⟩, hvec⟩
  · exact h

/-- **Lockstep.**  Connections that differ in harmless leftovers serve every sequence of
reads alike. -/
theorem lockstep_connAlike (hblind : M.backend.Blind) : Lockstep M ConnAlike where
  deliver chunk _ _ h := h.deliver chunk
  dropConsumed ret _ _ h := h.dropConsumed ret
  loopBody h := loopBody_alike hblind h

end Machine

end LatteRedis
