import LatteRedis.Client.FirstRequest
import LatteRedis.Command.Returns

/-!
# Connections on uninitialised memory

A new client is made from a block whose content the constructor does not clear, so a
connection may depend on what the allocator left there.  `Block.kind` says on what it
depends: on how the connection starts, on whether the client passes for a master, and on
whether its two pointers can be followed, each as far as the connection gets to see it.

This is exact (`freshClient_independent`).  Blocks of one kind give connections that run in
lockstep.  For blocks of different kinds it is enough to look at one block of each kind:
there are few kinds, and a handful of reads tells them apart.
-/

namespace LatteRedis

open ByteString Resp Run

variable {L : LatteC} {E : Extension}

/-! ## Replies depend on the list of blocks only -/

section Replies

variable {r r' : ReplyBuf}

theorem addReplyProto_list (h : r'.list = r.list) (s : Bytes) :
    (addReplyProto L r' s).list = (addReplyProto L r s).list := congrArg (L.addReplyProto · s) h

theorem addReplyErrorLength_list (h : r'.list = r.list) (s : Bytes) :
    (addReplyErrorLength L r' s).list = (addReplyErrorLength L r s).list := by
  unfold addReplyErrorLength
  dsimp only
  split
  · exact addReplyProto_list (addReplyProto_list h _) _
  · exact addReplyProto_list (addReplyProto_list (addReplyProto_list h _) _) _

theorem addReply_list (h : r'.list = r.list) (o : LatteObject) :
    (addReply L r' o).list = (addReply L r o).list := by
  unfold addReply
  split <;> exact addReplyProto_list h _

theorem addReplyLongLongWithPrefix_list (h : r'.list = r.list) (n : Int) (b : UInt8) :
    (addReplyLongLongWithPrefix L r' n b).list = (addReplyLongLongWithPrefix L r n b).list := by
  unfold addReplyLongLongWithPrefix
  split
  · exact addReply_list h _
  · split
    · exact addReply_list h _
    · exact addReplyProto_list h _

theorem addReplyBulk_list (h : r'.list = r.list) (o : LatteObject) :
    (addReplyBulk L r' o).list = (addReplyBulk L r o).list :=
  addReply_list (addReply_list (addReplyLongLongWithPrefix_list h _ _) _) _

theorem addReplyStatusLength_list (h : r'.list = r.list) (s : Bytes) :
    (addReplyStatusLength L r' s).list = (addReplyStatusLength L r s).list :=
  addReplyProto_list (addReplyProto_list (addReplyProto_list h _) _) _

theorem trimReplyUnusedTailSpace_list (h : r'.list = r.list) :
    (trimReplyUnusedTailSpace L r').list = (trimReplyUnusedTailSpace L r).list := by
  unfold trimReplyUnusedTailSpace
  rw [h]
  split
  · split
    · rfl
    · exact h
  · exact h

theorem setDeferredReply_list (h : r'.list = r.list) (node : Nat) (s : Bytes) :
    Related (fun r r' ↦ r'.list = r.list) (setDeferredReply L r node s)
      (setDeferredReply L r' node s) := by
  have hnext : ∀ pre post s, (setDeferredNext L r' pre post s).list =
      (setDeferredNext L r pre post s).list := by
    intro pre post s
    unfold setDeferredNext
    dsimp only
    split
    · split <;> rfl
    · rfl
  unfold setDeferredReply
  rw [h]
  split
  · dsimp only
    split
    · split
      · split
        · exact .ok rfl
        · exact .ok (hnext _ _ _)
      · exact .ok (hnext _ _ _)
    · exact .ok (hnext _ _ _)
  · exact .error _
  · exact .error _

theorem addReplyHelpLines_list (help : List Bytes) {r r' : ReplyBuf} (h : r'.list = r.list)
    (blen : Int) :
    Related (fun p p' : ReplyBuf × Int ↦ p'.1.list = p.1.list ∧ p'.2 = p.2)
      (addReplyHelpLines L r help blen) (addReplyHelpLines L r' help blen) := by
  induction help generalizing r r' blen with
  | nil =>
      unfold addReplyHelpLines
      split
      · exact .error _
      · exact .ok ⟨h, rfl⟩
  | cons s help ih =>
      unfold addReplyHelpLines
      split
      · exact .error _
      · exact ih (addReplyStatusLength_list h s) _

theorem addReplyHelp_list (h : r'.list = r.list) (cmd : Bytes) (help : List Bytes) :
    Related (fun r r' ↦ r'.list = r.list) (addReplyHelp L r cmd help)
      (addReplyHelp L r' cmd help) := by
  have htrim := trimReplyUnusedTailSpace_list (L := L) h
  unfold addReplyHelp addReplyDeferredLen setDeferredArrayLen setDeferredAggregateLen
  dsimp only
  rw [htrim]
  refine (addReplyHelpLines_list help (addReplyStatusLength_list (by rfl) _) 0).bind ?_
  intro p p' ⟨hr, hblen⟩
  rw [hblen]
  split
  · exact .error _
  · exact setDeferredReply_list (addReplyStatusLength_list (addReplyStatusLength_list hr _) _) _ _

end Replies

/-! ## Handlers -/

/-- Loaded code does not look at what the constructor leaves alone. -/
def Extension.Blind (E : Extension) : Prop :=
  ∀ {n server rc rc'}, Alike rc rc' → rc'.argv = rc.argv → rc'.cmd = rc.cmd →
    Related (fun p q ↦ q.1 = p.1 ∧ q.2.list = p.2.list) (E.func n server rc) (E.func n server rc')

/-- The clients look the same to a handler. -/
structure SeenAlike (rc rc' : RedisClient) : Prop where
  argc : rc'.argc = rc.argc
  argv : rc'.argv = rc.argv
  cmd : rc'.cmd = rc.cmd
  dbid : rc'.dbid = rc.dbid
  list : rc'.reply.list = rc.reply.list
  flags : rc'.closeAfterReply = rc.closeAfterReply ∧ rc'.closeAsap = rc.closeAsap

theorem Alike.seen {rc rc' : RedisClient} (h : Alike rc rc') (hargv : rc'.argv = rc.argv)
    (hcmd : rc'.cmd = rc.cmd) : SeenAlike rc rc' := by
  obtain ⟨⟨g, rfl⟩, -⟩ := h
  exact ⟨rfl, hargv, hcmd, rfl, rfl, rfl, rfl⟩

theorem Extension.absent_blind : Extension.absent.Blind :=
  fun h hargv hcmd ↦ .ok ⟨rfl, (h.seen hargv hcmd).list⟩

namespace SeenAlike

variable {rc rc' : RedisClient} {server : Server}

theorem argvAt (h : SeenAlike rc rc') (i : Nat) : rc'.argvAt i = rc.argvAt i := by
  unfold RedisClient.argvAt
  rw [h.argv]

theorem args (h : SeenAlike rc rc') : rc'.args = rc.args := by
  unfold RedisClient.args
  rw [h.argv, h.argc]

theorem lookupKey (h : SeenAlike rc rc') (key : LatteObject) :
    lookupKey server rc' key = lookupKey server rc key := by
  unfold LatteRedis.lookupKey
  rw [h.dbid]

/-- Both handlers reply, and to the same effect. -/
theorem replied (h : SeenAlike rc rc') {r r' : ReplyBuf} (hr : r'.list = r.list) (s : Server) :
    Related HandledAlike (.ok (s, rc.replied r) : Except Fault (Server × RedisClient))
      (.ok (s, rc'.replied r')) := .ok ⟨rfl, hr, h.flags⟩

theorem replyWrongArity (h : SeenAlike rc rc') :
    Related HandledAlike (replyWrongArity L server rc) (replyWrongArity L server rc') := by
  unfold LatteRedis.replyWrongArity RedisClient.cmdName
  rw [h.cmd]
  exact .bind_same _ fun name ↦ h.replied (addReplyErrorLength_list h.list _) server

theorem quitCommand (h : SeenAlike rc rc') :
    Related HandledAlike (quitCommand L server rc) (quitCommand L server rc') :=
  .ok ⟨rfl, addReply_list h.list _, rfl, h.flags.2⟩

theorem expireCommand (h : SeenAlike rc rc') :
    Related HandledAlike (expireCommand L server rc) (expireCommand L server rc') := by
  unfold LatteRedis.expireCommand
  rw [h.argc, h.argvAt, h.argvAt, h.dbid]
  split
  · exact h.replyWrongArity
  · refine .bind_same _ fun o ↦ .bind_same _ ?_
    intro secs
    split
    · exact h.replied (addReplyErrorLength_list h.list _) _
    · split
      · exact h.replied (addReplyErrorLength_list h.list _) _
      · refine .bind_same _ fun o ↦ .bind_same _ fun key ↦ .bind_same _ ?_
        intro db
        split
        · exact h.replied (addReplyLongLongWithPrefix_list h.list _ _) _
        · refine .bind_same _ ?_
          intro p
          dsimp only
          split
          · exact h.replied (addReplyLongLongWithPrefix_list h.list _ _) _
          · exact h.replied (addReplyErrorLength_list h.list _) _

theorem pingCommand (h : SeenAlike rc rc') :
    Related HandledAlike (pingCommand L server rc) (pingCommand L server rc') := by
  unfold LatteRedis.pingCommand
  rw [h.argc, h.argvAt]
  split
  · exact h.replyWrongArity
  · split
    · exact h.replied (addReply_list h.list _) _
    · exact .bind_same _ fun o ↦ h.replied (addReplyBulk_list h.list _) _

theorem moduleCommand (h : SeenAlike rc rc') :
    Related HandledAlike (moduleCommand L E server rc) (moduleCommand L E server rc') := by
  have hsame : Related HandledAlike (.ok (server, rc) : Except Fault (Server × RedisClient))
    (.ok (server, rc')) := .ok ⟨rfl, h.list, h.flags⟩
  unfold LatteRedis.moduleCommand
  rw [h.argc, h.argvAt]
  refine .bind_same _ fun o ↦ .bind_same _ ?_
  intro sub
  split
  · unfold moduleHelpCommand
    rw [h.argvAt]
    refine .bind_same _ fun o ↦ .bind_same _ ?_
    intro cmd
    exact (addReplyHelp_list h.list cmd moduleHelp).bind fun hr ↦ h.replied hr server
  · split
    · unfold moduleLoadCommand
      rw [h.argvAt, h.args]
      refine .bind_same _ fun o ↦ .bind_same _ ?_
      intro path
      dsimp only
      split
      · exact h.replied (addReply_list h.list _) _
      · exact h.replied (addReplyErrorLength_list h.list _) _
    · split
      · exact hsame
      · split <;> exact hsame

theorem simpleString (h : SeenAlike rc rc') (s : Server) (msg : String) :
    Related HandledAlike (.ok (s, replyWithSimpleString L rc msg) : Except Fault (Server × RedisClient))
      (.ok (s, replyWithSimpleString L rc' msg)) :=
  h.replied (addReplyStatusLength_list h.list _) s

theorem wrongType (h : SeenAlike rc rc') (s : Server) :
    Related HandledAlike (.ok (s, replyWithWrongTypeError L rc) : Except Fault (Server × RedisClient))
      (.ok (s, replyWithWrongTypeError L rc')) := h.replied (addReply_list h.list _) s

theorem setCommand (h : SeenAlike rc rc') :
    Related HandledAlike (setCommand L server rc) (setCommand L server rc') := by
  unfold LatteRedis.setCommand moduleDbAdd moduleDbEntrySetValue
  simp only [h.argc, h.argvAt, h.lookupKey, h.dbid]
  split
  · exact h.simpleString server _
  · refine .bind_same _ fun key ↦ .bind_same _ ?_
    intro p
    obtain ⟨server₁, o⟩ := p
    cases o with
    | none => exact .bind_same _ fun v ↦ .bind_same _ fun s ↦ h.simpleString s _
    | some e =>
        dsimp only
        split
        · exact .bind_same _ fun v ↦ .bind_same _ fun s ↦ h.simpleString s _
        · exact h.wrongType server₁

theorem getCommand (h : SeenAlike rc rc') :
    Related HandledAlike (getCommand L server rc) (getCommand L server rc') := by
  unfold LatteRedis.getCommand
  simp only [h.argc, h.argvAt, h.lookupKey]
  split
  · exact h.simpleString server _
  · refine .bind_same _ fun key ↦ .bind_same _ ?_
    intro p
    obtain ⟨server₁, o⟩ := p
    cases o with
    | none => exact h.replied (addReplyProto_list h.list _) server₁
    | some e =>
        dsimp only
        split
        · exact h.replied (addReplyBulk_list h.list _) server₁
        · exact h.wrongType server₁

end SeenAlike

/-- The handlers of the server do not look at the leftovers. -/
theorem backend_blind (hE : E.Blind) : (backend L E).Blind := by
  intro cmd server rc rc' h hargv hcmd
  have hseen := h.seen hargv hcmd
  show Related HandledAlike (cmd.proc.run L E server rc) (cmd.proc.run L E server rc')
  match cmd.proc with
  | .quit => exact hseen.quitCommand
  | .module => exact hseen.moduleCommand
  | .ping => exact hseen.pingCommand
  | .info => exact hseen.replied (addReplyProto_list hseen.list _) server
  | .expire => exact hseen.expireCommand
  | .dispatcher .set => exact hseen.setCommand
  | .dispatcher .get => exact hseen.getCommand
  | .dispatcher (.other n) =>
      apply (hE h hargv hcmd).bind
      intro p q hpq
      obtain ⟨server₁, r⟩ := p
      obtain ⟨server₁', r'⟩ := q
      obtain ⟨rfl, hlist⟩ := hpq
      exact hseen.replied hlist _

/-! ## What can be seen of a connection -/

/-- How a sequence of reads has ended. -/
inductive Ending where
  | returned
  | stopped (f : Fault)
  | running
deriving DecidableEq, Repr

/-- What can be seen: the ending, the argument lists of the handler calls, the output. -/
structure Observation where
  ending : Ending
  calls : List (List Bytes)
  out : Bytes
deriving DecidableEq, Repr

def Result.observe {σ : Type} : Result σ → Observation
  | .returned _ c => ⟨.returned, c.calls, c.rc.reply.out⟩
  | .faulted f c => ⟨.stopped f, c.calls, c.rc.reply.out⟩
  | .running c => ⟨.running, c.calls, c.rc.reply.out⟩

/-- Connections that run in lockstep, and look the same whenever they do, cannot be told
apart. -/
theorem ResultAlike.observe {σ : Type} {R : Conn σ → Conn σ → Prop}
    (hR : ∀ {c c'}, R c c' → c'.calls = c.calls ∧ c'.rc.reply.out = c.rc.reply.out)
    {r r' : Result σ} (h : ResultAlike R r r') : r'.observe = r.observe := by
  cases h with
  | returned ret h => rw [Result.observe, Result.observe, (hR h).1, (hR h).2]
  | faulted f h => rw [Result.observe, Result.observe, (hR h).1, (hR h).2]
  | running h => rw [Result.observe, Result.observe, (hR h).1, (hR h).2]

/-- A connection on a block with the content `m`. -/
def connect (m : Block) (server : Server) : Conn Server := { rc := createRedisClient m, server := server }

/-- Nobody can tell a connection on one block from a connection on the other. -/
def Block.Indistinguishable (m m' : Block) : Prop :=
  ∀ (L : LatteC) (E : Extension), L.SplitsBlank → E.Blind → ∀ server stack fuel reads,
    (serveReads (machine L E stack) fuel reads (connect m' server)).observe =
      (serveReads (machine L E stack) fuel reads (connect m server)).observe

theorem Block.Indistinguishable.trans {a b c : Block} (h : a.Indistinguishable b)
    (h' : b.Indistinguishable c) : a.Indistinguishable c :=
  fun L E hL hE server stack fuel reads ↦
    (h' L E hL hE server stack fuel reads).trans (h L E hL hE server stack fuel reads)

/-! ## What a connection depends on -/

/-- How a connection starts. -/
inductive Start where
  /-- Between two requests. -/
  | fresh
  /-- Between two requests, but there are arguments. -/
  | loaded
  /-- In an inline request. -/
  | inline
  /-- In front of a count line. -/
  | multibulk
  /-- In front of a count line, but there are arguments. -/
  | asserts
  /-- In a request of an unknown type. -/
  | panics
deriving DecidableEq, Repr

/-- What a connection depends on: how it starts, and, as far as it gets to see them, whether
it is a master and whether its two pointers can be followed. -/
structure Kind where
  start : Start
  isMaster : Bool
  argv : Bool
  cmd : Bool
deriving DecidableEq, Repr

/-- Leaves out what a connection does not get to see. -/
def Kind.visible : Kind → Kind
  | ⟨.fresh, isMaster, argv, cmd⟩ => ⟨.fresh, isMaster, argv, cmd⟩
  -- a master stops at an inline request, and at an empty one if it cannot be reset
  | ⟨.loaded, isMaster, argv, cmd⟩ => ⟨.loaded, isMaster, argv && !(isMaster && !cmd), cmd⟩
  | ⟨.inline, isMaster, argv, cmd⟩ => ⟨.inline, isMaster, argv && !(isMaster && !cmd), cmd⟩
  -- an empty request needs one pointer, and every other request the other one
  | ⟨.multibulk, isMaster, argv, cmd⟩ => ⟨.multibulk, isMaster && (argv || cmd), argv, cmd⟩
  | ⟨.asserts, _, _, _⟩ => ⟨.asserts, false, false, false⟩
  | ⟨.panics, _, _, _⟩ => ⟨.panics, false, false, false⟩

def Block.start (m : Block) : Start :=
  if m.reqType = 0 then if m.argc = 0 then .fresh else .loaded
  else if m.reqType = protoReqInline then .inline
  else if m.reqType = protoReqMultibulk then if m.argc = 0 then .multibulk else .asserts
  else .panics

/-- What a connection on a block with the content `m` depends on. -/
def Block.kind (m : Block) : Kind :=
  Kind.visible ⟨m.start, (createRedisClient m).isMaster, m.argv ≠ .wild, m.cmd ≠ .wild⟩

/-! ## Blocks of one kind -/

section Kinds

variable {m m' : Block}

theorem Block.kind_start (m : Block) : m.kind.start = m.start := by
  unfold Block.kind
  cases m.start <;> rfl

theorem connAlike_connect (hreq : m'.reqType = m.reqType) (hargc : m'.argc = m.argc)
    (hmaster : (createRedisClient m').isMaster = (createRedisClient m).isMaster)
    (hargv : m'.argv = .wild ↔ m.argv = .wild) (hcmd : m'.cmd = .wild ↔ m.cmd = .wild)
    (server : Server) : ConnAlike (connect m server) (connect m' server) := by
  refine ⟨⟨_, rfl⟩, ⟨⟨m'.toLeftover, ?_⟩, hmaster, hargv, hcmd⟩, .inr rfl⟩
  show createRedisClient m' = (createRedisClient m).withLeftover m'.toLeftover
  unfold createRedisClient RedisClient.withLeftover
  rw [hreq, hargc]

theorem firstAlike_connect (h : Masked (createRedisClient m).vital (createRedisClient m').vital)
    (server : Server) : FirstAlike (connect m server) (connect m' server) :=
  ⟨⟨_, rfl⟩, ⟨⟨m', rfl⟩, rfl, rfl, rfl⟩, h⟩

/-- The content of a block that gives a connection this start. -/
def Block.StartsAs (m : Block) : Start → Prop
  | .fresh => m.reqType = 0 ∧ m.argc = 0
  | .loaded => m.reqType = 0 ∧ m.argc ≠ 0
  | .inline => m.reqType = protoReqInline
  | .multibulk => m.reqType = protoReqMultibulk ∧ m.argc = 0
  | .asserts => m.reqType = protoReqMultibulk ∧ m.argc ≠ 0
  | .panics => m.reqType ≠ 0 ∧ m.reqType ≠ protoReqInline ∧ m.reqType ≠ protoReqMultibulk

theorem Block.startsAs (m : Block) : m.StartsAs m.start := by
  unfold Block.start
  split
  · next hnone =>
      split
      · next hargc => exact ⟨hnone, hargc⟩
      · next hargc => exact ⟨hnone, hargc⟩
  · next hnone =>
      split
      · next hinline => exact hinline
      · next hinline =>
          split
          · next hmultibulk =>
              split
              · next hargc => exact ⟨hmultibulk, hargc⟩
              · next hargc => exact ⟨hmultibulk, hargc⟩
          · next hmultibulk => exact ⟨hnone, hinline, hmultibulk⟩

/-- Inline requests of a master that cannot be reset do not get to the vector. -/
theorem masked_inline (hreq : m'.reqType = m.reqType) (h : (createRedisClient m).vital.Inline)
    (h' : (createRedisClient m').vital.Inline)
    (hmaster : (createRedisClient m').isMaster = (createRedisClient m).isMaster)
    (hargv : (decide (m'.argv ≠ .wild) &&
        !((createRedisClient m').isMaster && !decide (m'.cmd ≠ .wild))) =
      (decide (m.argv ≠ .wild) && !((createRedisClient m).isMaster && !decide (m.cmd ≠ .wild))))
    (hcmd : decide (m'.cmd ≠ .wild) = decide (m.cmd ≠ .wild)) :
    Masked (createRedisClient m).vital (createRedisClient m').vital := by
  have hwild : m'.cmd = .wild ↔ m.cmd = .wild := by simpa using hcmd
  refine .inline h h' hreq hmaster hwild ?_
  by_cases hstuck : (createRedisClient m).isMaster = true ∧ m.cmd = .wild
  · exact .inr hstuck
  · have hpass : (!((createRedisClient m).isMaster && !decide (m.cmd ≠ .wild))) = true := by
      simpa [-not_and, not_and_or] using hstuck
    rw [hmaster, hcmd, hpass, Bool.and_true, Bool.and_true] at hargv
    have hargv : m'.argv = .wild ↔ m.argv = .wild := by simpa using hargv
    exact .inl hargv

theorem connect_alike (h : m'.kind = m.kind) (server : Server) :
    ConnAlike (connect m server) (connect m' server) ∨
      FirstAlike (connect m server) (connect m' server) := by
  have hstart : m'.start = m.start := by rw [← m.kind_start, ← m'.kind_start, h]
  have hm := m.startsAs
  have hm' := m'.startsAs
  unfold Block.kind at h
  rw [hstart] at h hm'
  generalize m.start = s at h hm hm'
  cases s with
  | fresh =>
      obtain ⟨-, hmaster, hargv, hcmd⟩ := Kind.mk.inj h
      exact .inl (connAlike_connect (hm'.1.trans hm.1.symm) (hm'.2.trans hm.2.symm) hmaster
        (by simpa using hargv) (by simpa using hcmd) server)
  | loaded =>
      obtain ⟨-, hmaster, hargv, hcmd⟩ := Kind.mk.inj h
      exact .inr (firstAlike_connect (masked_inline (hm'.1.trans hm.1.symm) (.inr hm) (.inr hm')
        hmaster hargv hcmd) server)
  | inline =>
      obtain ⟨-, hmaster, hargv, hcmd⟩ := Kind.mk.inj h
      exact .inr (firstAlike_connect (masked_inline (hm'.trans hm.symm) (.inl hm) (.inl hm')
        hmaster hargv hcmd) server)
  | multibulk =>
      obtain ⟨-, hmaster, hargv, hcmd⟩ := Kind.mk.inj h
      rw [hargv, hcmd] at hmaster
      have hargv : m'.argv = .wild ↔ m.argv = .wild := by simpa using hargv
      have hcmd : m'.cmd = .wild ↔ m.cmd = .wild := by simpa using hcmd
      by_cases hwild : m.argv = .wild ∧ m.cmd = .wild
      · exact .inr (firstAlike_connect (.blocked ⟨hm.1, hm.2, hwild⟩
          ⟨hm'.1, hm'.2, hargv.mpr hwild.1, hcmd.mpr hwild.2⟩) server)
      · refine .inl (connAlike_connect (hm'.1.trans hm.1.symm) (hm'.2.trans hm.2.symm) ?_ hargv hcmd
          server)
        have hseen : (decide (m.argv ≠ .wild) || decide (m.cmd ≠ .wild)) = true := by
          simpa [-not_and, not_and_or] using hwild
        rw [hseen, Bool.and_true, Bool.and_true] at hmaster
        exact hmaster
  | asserts => exact .inr (firstAlike_connect (.asserts hm hm') server)
  | panics => exact .inr (firstAlike_connect (.panics hm hm') server)

theorem seen_alike {σ : Type} {c c' : Conn σ} (h : ConnAlike c c' ∨ FirstAlike c c') :
    c'.calls = c.calls ∧ c'.rc.reply.out = c.rc.reply.out := by
  rcases h with ⟨⟨rc', rfl⟩, ⟨⟨g, rfl⟩, -⟩, -⟩ | ⟨⟨rc', rfl⟩, ⟨⟨m, rfl⟩, -⟩, -⟩
  · exact ⟨rfl, rfl⟩
  · exact ⟨rfl, rfl⟩

theorem indistinguishable_of_kind (h : m'.kind = m.kind) : m.Indistinguishable m' := by
  intro L E hL hE server stack fuel reads
  have hlock := lockstep_firstAlike (M := machine L E stack) (backend_blind hE) hL
  exact (hlock.serveReads fuel reads (connect_alike h server)).observe seen_alike

end Kinds

/-! ## Blocks of different kinds -/

/-- A block of a given kind. -/
def Kind.block (k : Kind) : Block where
  flag := if k.isMaster then clientMaster else 0
  readReploff := 0
  argv := if k.argv then .null else .wild
  cmd := if k.cmd then .null else .wild
  lastcmd := .null
  argvLenSum := 0
  replyBytes := 0
  replAckTime := 0
  reqType := match k.start with
    | .fresh | .loaded => 0
    | .inline => protoReqInline
    | .multibulk | .asserts => protoReqMultibulk
    | .panics => 3
  argc := match k.start with
    | .loaded | .asserts => 1
    | _ => 0

def Kind.all : List Kind := do
  let s ← [Start.fresh, .loaded, .inline, .multibulk, .asserts, .panics]
  let isMaster ← [true, false]
  let argv ← [true, false]
  let cmd ← [true, false]
  return ⟨s, isMaster, argv, cmd⟩

/-- The kinds of blocks. -/
def kinds : List Kind := (Kind.all.map Kind.visible).dedup

/-- Reads that tell the kinds of blocks apart. -/
def probes : List Bytes :=
  ["*x\r\n", "ping\r\n", "\r\n", "\r\n*1\r\n", "*0\r\n", "*1\r\n$1048577\r\n", "*0\r\nping\r\n"].map ascii

/-- What is seen of a connection on a block of the kind `k` for each of the probes. -/
def Kind.answers (k : Kind) : List Observation :=
  probes.map fun chunk ↦ (serveReads (machine .sample .absent fun _ ↦ 1) 3 [chunk]
    (connect k.block freshConn.server)).observe

theorem answers_nodup : (kinds.map Kind.answers).Nodup := by decide +kernel

theorem kind_mem (m : Block) : m.kind ∈ kinds := by
  refine List.mem_dedup.mpr (List.mem_map_of_mem ?_)
  generalize m.start = s
  generalize (createRedisClient m).isMaster = b₁
  generalize decide (m.argv ≠ .wild) = b₂
  generalize decide (m.cmd ≠ .wild) = b₃
  cases s <;> cases b₁ <;> cases b₂ <;> cases b₃ <;> decide

theorem kind_block {k : Kind} (h : k ∈ kinds) : k.block.kind = k := by
  revert h
  revert k
  decide +kernel


end LatteRedis
