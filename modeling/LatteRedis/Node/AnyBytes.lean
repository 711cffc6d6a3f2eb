import LatteRedis.Client.Bookkeeping
import LatteRedis.Client.Isolation
import LatteRedis.Node.Sessions

/-!
# Any bytes

`Node.Interleaving` is about connections that send commands.  Nothing makes a client do
that.  Here a connection sends any bytes: other requests, parts of requests, requests in
lines, and what cannot be read at all.

`arbitrary_bytes_contained` says what still holds of every run the server gets through
without loading a module.  The log is answered by the key-value store of `Keyspace.Spec`, a
connection is sent the answers to its own requests with complaints about its own bytes
between them, and a connection that does send harmless commands is served as if all the
others did so.

Which bytes the server does not get through is the matter of `Node.Stops`.
-/

namespace LatteRedis

open ByteString Incremental Resp

/-! ## What a connection is sent -/

/-- An answer to a request, or a complaint about bytes that are no request. -/
inductive Piece where
  | answer (a : Answer)
  | rebuff (text : Bytes)
deriving DecidableEq, Repr

def Piece.bytes : Piece → Bytes
  | .answer a => a.bytes
  | .rebuff text => errorLine (ascii "Protocol error: " ++ text)

def Piece.answer? : Piece → Option Answer
  | .answer a => some a
  | .rebuff _ => none

@[simp] theorem filterMap_answers (as : List Answer) :
    (as.map Piece.answer).filterMap Piece.answer? = as := by
  rw [List.filterMap_map]
  exact List.filterMap_some

@[simp] theorem filterMap_rebuffs (texts : List Bytes) :
    (texts.map Piece.rebuff).filterMap Piece.answer? = [] := by
  rw [List.filterMap_map]
  exact List.filterMap_eq_nil_iff.mpr fun _ _ ↦ rfl

@[simp] theorem flatMap_answers (as : List Answer) :
    (as.map Piece.answer).flatMap Piece.bytes = as.flatMap Answer.bytes := List.flatMap_map ..

/-- Nothing but complaints has been written. -/
def Rebuffed (r r' : ReplyBuf) : Prop :=
  ∃ texts : List Bytes, r'.out = r.out ++ (texts.map Piece.rebuff).flatMap Piece.bytes

variable {L : LatteC} {E : Extension} {stack : Nat → Int} {dbNum : Nat} {rc rc' : RedisClient}
  {r r' r'' : ReplyBuf}

namespace Rebuffed

theorem refl (r : ReplyBuf) : Rebuffed r r := ⟨[], (List.append_nil _).symm⟩

theorem trans (h : Rebuffed r r') (h' : Rebuffed r' r'') : Rebuffed r r'' := by
  obtain ⟨texts, h⟩ := h
  obtain ⟨texts', h'⟩ := h'
  exact ⟨texts ++ texts', by rw [h', h, List.map_append, List.flatMap_append, List.append_assoc]⟩

theorem error (hproto : L.AppendsProto) (r : ReplyBuf) {s : Bytes}
    (hs : ∃ text, s = ascii "Protocol error: " ++ text) : Rebuffed r (addReplyErrorLength L r s) := by
  obtain ⟨text, rfl⟩ := hs
  exact ⟨[text], by rw [out_addReplyErrorLength hproto, List.map_singleton, List.flatMap_singleton,
    Piece.bytes]⟩

end Rebuffed

/-! ## Parsing

What a call of a parser writes are complaints, and they begin the way all of them do. -/

/-- Nothing is cut off the complaint about a missing `$`. -/
theorem sdsTrimNewlines_expected (u : Bytes) :
    sdsTrimNewlines (ascii "Protocol error: expected '$', got '" ++ u ++ ascii "'") =
      ascii "Protocol error: expected '$', got '" ++ u ++ ascii "'" := by
  have hfirst : ∀ x : Bytes, (ascii "Protocol error: expected '$', got '" ++ x).dropWhile
      (fun b ↦ decide (b = CR ∨ b = LF)) = ascii "Protocol error: expected '$', got '" ++ x :=
    fun _ ↦ rfl
  have hlast : ∀ x : Bytes, (ascii "'" ++ x).dropWhile
      (fun b ↦ decide (b = CR ∨ b = LF)) = ascii "'" ++ x := fun _ ↦ rfl
  unfold sdsTrimNewlines
  dsimp only
  rw [List.append_assoc, hfirst, ← List.append_assoc, List.reverse_append,
    show (ascii "'").reverse = ascii "'" from rfl, hlast, List.reverse_append, List.reverse_reverse]
  rfl

theorem readMultibulkLen_rebuffed (hproto : L.AppendsProto) {f : Flow}
    (h : readMultibulkLen L rc = .ok f) : Rebuffed rc.reply f.client.reply := by
  have herror : ∀ {text : String}, (∃ t, ascii text = ascii "Protocol error: " ++ t) →
      Rebuffed rc.reply (addReplyError L rc.reply text) := fun ht ↦ .error hproto _ ht
  unfold readMultibulkLen at h
  split at h
  · cases h
  · split at h
    · split at h
      · cases h
        exact herror ⟨_, rfl⟩
      · cases h
        exact .refl _
    · dsimp only at h
      split at h
      · cases h
        exact .refl _
      · split at h
        · cases h
        · split at h
          · cases h
            exact herror ⟨_, rfl⟩
          · split at h
            · cases h
              exact herror ⟨_, rfl⟩
            · split at h
              · cases h
                exact herror ⟨_, rfl⟩
              · split at h
                · cases h
                  exact .refl _
                · obtain ⟨rc₁, hnew, h⟩ := Run.bind_eq_ok.mp h
                  cases h
                  rw [newArgv_ends hnew]
                  exact .refl _

theorem readBulkLen_rebuffed (hproto : L.AppendsProto) (rc : RedisClient) :
    Rebuffed rc.reply (readBulkLen L rc).client.reply := by
  have herror : ∀ {text : String}, (∃ t, ascii text = ascii "Protocol error: " ++ t) →
      Rebuffed rc.reply (addReplyError L rc.reply text) := fun ht ↦ .error hproto _ ht
  unfold readBulkLen
  split
  · split
    · exact herror ⟨_, rfl⟩
    · exact .refl _
  · split
    · exact .refl _
    · split
      · refine .error hproto _ ?_
        rw [sdsTrimNewlines_expected]
        exact ⟨sdsMapNewlines (ascii "expected '$', got '" ++ rc.unread.head?.toList ++ ascii "'"), rfl⟩
      · dsimp only
        split
        · exact herror ⟨_, rfl⟩
        · split
          · exact herror ⟨_, rfl⟩
          · split
            · exact herror ⟨_, rfl⟩
            · split <;> exact .refl _

theorem readBulkArg_reply {f : Flow} (h : readBulkArg L rc = .ok f) :
    f.client.reply = rc.reply := by
  obtain rfl | ⟨-, o, rc₁, hpush, hf⟩ := readBulkArg_ends h
  · rfl
  · obtain ⟨a, -, -, -, rfl⟩ := pushArg_ends hpush
    obtain ⟨-, rfl⟩ | rfl := hf <;> rfl

theorem processMultibulkBuffer_rebuffed (hproto : L.AppendsProto) {code : Int}
    (h : processMultibulkBuffer L rc = .ok (code, rc')) : Rebuffed rc.reply rc'.reply := by
  refine processMultibulkBuffer_invariant (P := fun rc₁ ↦ Rebuffed rc.reply rc₁.reply)
    ?_ ?_ ?_ (.refl _) h
  · exact fun hrc h ↦ hrc.trans (readMultibulkLen_rebuffed hproto h)
  · exact fun rc₁ hrc ↦ hrc.trans (readBulkLen_rebuffed hproto rc₁)
  · intro rc₁ f hrc h
    rw [readBulkArg_reply h]
    exact hrc

theorem texts_latteObjectNew (args : List Bytes) : Texts (args.map latteObjectNew) args := by
  refine ⟨?_, fun o ho ↦ ?_⟩
  · rw [List.map_map]
    exact List.map_id args
  · obtain ⟨s, -, rfl⟩ := List.mem_map.mp ho
    exact isText_latteObjectNew s

/-- The inline parser always returns: with an error or without a line, and then the client is
where it was, or with the arguments of the line. -/
theorem processInlineBuffer_any (hproto : L.AppendsProto) (hargv : rc.argv ≠ .wild)
    (unixtime linefeedChars : Int) :
    ∃ code rc', processInlineBuffer L unixtime linefeedChars rc = .ok (code, rc') ∧
      (rc'.reqType = rc.reqType ∧ rc'.multiBulkLen = rc.multiBulkLen ∧ rc'.bulkLen = rc.bulkLen ∧
        rc'.argv ≠ .wild ∧ rc'.dbid = rc.dbid ∧ rc'.cmd = rc.cmd) ∧
      Rebuffed rc.reply rc'.reply ∧
      (code = -1 ∧ rc'.args = rc.args ∧ rc'.argc = rc.argc ∨
        code = 0 ∧ (rc'.argc = 0 ∨ ∃ name operands, rc'.Holds (name :: operands))) := by
  have herror : ∀ {text : String}, (∃ t, ascii text = ascii "Protocol error: " ++ t) →
      Rebuffed rc.reply (addReplyError L rc.reply text) := fun ht ↦ .error hproto _ ht
  unfold processInlineBuffer
  split
  · split
    · exact ⟨_, _, rfl, ⟨rfl, rfl, rfl, hargv, rfl, rfl⟩, herror ⟨_, rfl⟩, .inl ⟨rfl, rfl, rfl⟩⟩
    · exact ⟨_, _, rfl, ⟨rfl, rfl, rfl, hargv, rfl, rfl⟩, .refl _, .inl ⟨rfl, rfl, rfl⟩⟩
  · next newline _ =>
      dsimp only
      split
      · exact ⟨_, _, rfl, ⟨rfl, rfl, rfl, hargv, rfl, rfl⟩, herror ⟨_, rfl⟩, .inl ⟨rfl, rfl, rfl⟩⟩
      · next args _ =>
          obtain ⟨t, ht⟩ := ackNewline_eq unixtime
            (inlineLine rc.unread newline linefeedChars).1.length rc
          rw [ht]
          unfold acceptInlineLine
          split
          · exact ⟨_, _, rfl, ⟨rfl, rfl, rfl, hargv, rfl, rfl⟩, .refl _, .inl ⟨rfl, rfl, rfl⟩⟩
          · unfold storeInlineArgs
            split
            · exact ⟨_, _, rfl, ⟨rfl, rfl, rfl, hargv, rfl, rfl⟩, .refl _, .inr ⟨rfl, .inl rfl⟩⟩
            · next hne =>
                rw [newArgv_ok (by exact hargv)]
                refine ⟨_, _, rfl, ⟨rfl, rfl, rfl, by simp, rfl, rfl⟩, .refl _, .inr ⟨rfl, .inr ?_⟩⟩
                obtain ⟨name, operands, rfl⟩ := List.exists_cons_of_ne_nil hne
                exact ⟨name, operands, rfl, _, _, rfl, texts_latteObjectNew _⟩

/-- A call of the multibulk parser on a client that expects a count line or arguments: it
returns, in the middle of a request or behind it. -/
theorem processMultibulkBuffer_any (hL : L.StrictString2ll) (hproto : L.AppendsProto) {s : Expect}
    (hrep : Rep rc s) (hq : rc.InBuffer) (hstar : s = .count → rc.unread.head? = some 42) :
    ∃ code rc', processMultibulkBuffer L rc = .ok (code, rc') ∧
      (rc'.reqType = rc.reqType ∧ rc'.dbid = rc.dbid ∧ rc'.cmd = rc.cmd) ∧
      Rebuffed rc.reply rc'.reply ∧
      ((code = -1 ∧ ∃ s', Rep rc' s' ∧ rc'.InBuffer ∧ (s' = .count → rc'.unread.head? = some 42)) ∨
        code = 0 ∧ ∃ args, Loaded rc' args) := by
  obtain ⟨o, ho⟩ := Decodes.total (D := multibulk L hL rc.isMaster) s rc.unread
  have hfollows := processMultibulkBuffer_follows hrep hq
    (fun hs b hb ↦ Option.some.inj (hb.symm.trans (hstar hs))) ho
  -- where the count line is still missing, nothing has been read of it
  have hstart : (rc.argc = 0 ∧ rc.multiBulkLen = 0 ∧ rc.unread.head? = some 42) ∨
      0 < rc.multiBulkLen := by
    cases s with
    | count => exact .inl ⟨hrep.2.2.1, hrep.1, hstar rfl⟩
    | bulks n args bulk =>
        right
        rw [hrep.1]
        omega
  have hcount : ∀ {code : Int} {rc' : RedisClient}, processMultibulkBuffer L rc = .ok (code, rc') →
      code ≠ 0 → Rep rc' .count → rc'.unread.head? = some 42 := by
    intro code rc' hp hcode hrep'
    rcases processMultibulkBuffer_cases (L := L) hstart with herr | ⟨code₁, rc₁, hp₁, hpoint⟩
    · cases hp.symm.trans herr
    · cases hp.symm.trans hp₁
      rcases hpoint with hzero | ⟨-, -, hmbl, -, hunread⟩ | ⟨-, hpos⟩
      · exact absurd hzero hcode
      · rw [hunread]
        rcases hstart with ⟨-, -, hhead⟩ | hpos
        · exact hhead
        · rw [← hmbl, hrep'.1] at hpos
          exact absurd hpos (lt_irrefl 0)
      · rw [hrep'.1] at hpos
        exact absurd hpos (lt_irrefl 0)
  cases o with
  | more s' u =>
      obtain ⟨rc', hp, hparsed, hq', hrep', -⟩ := hfollows
      refine ⟨-1, rc', hp, ?_, processMultibulkBuffer_rebuffed hproto hp,
        .inl ⟨rfl, s', hrep', hq', ?_⟩⟩
      · rw [hparsed]
        exact ⟨rfl, rfl, rfl⟩
      · rintro rfl
        exact hcount hp (by decide) hrep'
  | fail s' u =>
      obtain ⟨rc₁, rc', hp, ⟨text, line, rfl⟩, hparsed, hq', hrep', -⟩ := hfollows
      refine ⟨-1, _, hp, ?_, processMultibulkBuffer_rebuffed hproto hp,
        .inl ⟨rfl, s', hrep'.of_eq rfl rfl rfl rfl, hq', ?_⟩⟩
      · rw [hparsed]
        exact ⟨rfl, rfl, rfl⟩
      · rintro rfl
        exact hcount hp (by decide) (hrep'.of_eq rfl rfl rfl rfl)
  | done args u =>
      obtain ⟨rc', hp, hparsed, -, hloaded, -⟩ := hfollows
      refine ⟨0, rc', hp, ?_, processMultibulkBuffer_rebuffed hproto hp, .inr ⟨rfl, args, hloaded⟩⟩
      rw [hparsed]
      exact ⟨rfl, rfl, rfl⟩

/-! ## Where a client stands

A client is between two requests, in a line, or in the middle of a multibulk request.  Or it
has sent a multibulk request whose command does not exist: `process_command` has returned
`-1`, nobody has reset the client, and the assertion in front of the next count line fails. -/

inductive Standing (rc : RedisClient) : Prop
  | ready (hreq : rc.reqType = 0) (hrep : Rep rc .count)
  | line (hreq : rc.reqType = protoReqInline) (hmbl : rc.multiBulkLen = 0) (hbl : rc.bulkLen = -1)
      (hargv : rc.argv ≠ .wild) (hargs : rc.args.length = rc.argc.toNat)
  | bulks {s : Expect} (hreq : rc.reqType = protoReqMultibulk) (hrep : Rep rc s) (hq : rc.InBuffer)
      (hstar : s = .count → rc.unread.head? = some 42)
  | unknown (hstuck : Stuck rc) {name : Bytes} {operands : List Bytes}
      (hholds : rc.Holds (name :: operands)) (hname : Verb.named name = none)

/-- A request is complete: there is nothing in it, or it has a name. -/
structure RedisClient.Filled (rc : RedisClient) : Prop where
  reqType : rc.reqType = protoReqInline ∨ rc.reqType = protoReqMultibulk
  multiBulkLen : rc.multiBulkLen = 0
  bulkLen : rc.bulkLen = -1
  argv : rc.argv ≠ .wild
  holds : rc.argc = 0 ∨ ∃ name operands, rc.Holds (name :: operands)

theorem Loaded.filled {args : List Bytes} (h : Loaded rc args)
    (hreq : rc.reqType = protoReqMultibulk) : rc.Filled where
  reqType := .inr hreq
  multiBulkLen := h.multiBulkLen
  bulkLen := h.bulkLen
  argv := h.argv
  holds := by
    cases args with
    | nil => exact .inl h.argc
    | cons name operands => exact .inr ⟨name, operands, h.holds (by simp)⟩

theorem args_length_of_argc_eq_zero (h : rc.argc = 0) : rc.args.length = rc.argc.toNat := by
  rw [RedisClient.args_of_argc_eq_zero h, h]
  rfl

/-- All arguments there should be can be read. -/
theorem Standing.args_length (h : Standing rc) : rc.args.length = rc.argc.toNat := by
  cases h with
  | ready hreq hrep => exact args_length_of_argc_eq_zero hrep.2.2.1
  | line hreq hmbl hbl hargv hargs => exact hargs
  | @bulks s hreq hrep =>
      cases s with
      | count => exact args_length_of_argc_eq_zero hrep.2.2.1
      | bulks n args bulk =>
          obtain ⟨-, -, hargc, vals, hargv, hvals⟩ := hrep
          have hholds : rc.Holds args := ⟨hargc, _, vals, hargv, hvals⟩
          exact hholds.args_eq.1
  | unknown hstuck hholds => exact hholds.args_eq.1

/-- Which bytes are unread is all that is asked of the buffer. -/
theorem Standing.of_eq (h : Standing rc)
    (heq : rc' = { rc with
      querybuf := rc'.querybuf, qbPos := rc'.qbPos, reply := rc'.reply
      readReploff := rc'.readReploff })
    (hbuffer : rc.InBuffer → rc'.InBuffer ∧ rc.unread <+: rc'.unread) : Standing rc' := by
  cases h with
  | ready hreq hrep =>
      rw [heq]
      exact .ready hreq hrep
  | line hreq hmbl hbl hargv hargs =>
      rw [heq]
      exact .line hreq hmbl hbl hargv hargs
  | bulks hreq hrep hq hstar =>
      obtain ⟨hq', rest, hrest⟩ := hbuffer hq
      have hrep' : Rep rc' _ := hrep.of_eq (by rw [heq]) (by rw [heq]) (by rw [heq]) (by rw [heq])
      refine .bulks (by rw [heq]; exact hreq) hrep' hq' fun hs ↦ ?_
      rw [← hrest, List.head?_append, hstar hs]
      rfl
  | unknown hstuck hholds hname =>
      rw [heq]
      exact .unknown hstuck hholds hname

section Conn

variable {c c' : Conn Server}

theorem Standing.deliver (h : Standing c.rc) (chunk : Bytes) : Standing (deliver chunk c).rc := by
  refine h.of_eq rfl fun hq ↦ ⟨hq.deliver chunk, chunk, ?_⟩
  exact (List.drop_append_of_le_length hq).symm

theorem Standing.dropConsumed (h : Standing c.rc) (ret : Int) : Standing (dropConsumed ret c).rc := by
  unfold LatteRedis.dropConsumed
  split
  · exact h.of_eq rfl fun _ ↦ ⟨Nat.zero_le _, List.prefix_rfl⟩
  · exact h

/-- Parsing gets to the end of a request, or to a point where more bytes are needed. -/
def Parses (M : Machine Server) (c : Conn Server) : Prop :=
  ∃ code rc k, parseRequest M c.selected = .ok (code, { c with rc := rc, inlineCalls := k }) ∧
    (rc.dbid = c.rc.dbid ∧ rc.cmd = c.rc.cmd) ∧ Rebuffed c.rc.reply rc.reply ∧
    (code = -1 ∧ Standing rc ∨ code = 0 ∧ rc.Filled)

theorem parses_inline (hproto : L.AppendsProto) (hreq : selectReqType c.rc = protoReqInline)
    (hmbl : c.rc.multiBulkLen = 0) (hbl : c.rc.bulkLen = -1) (hargv : c.rc.argv ≠ .wild)
    (hargs : c.rc.args.length = c.rc.argc.toNat) :
    Parses (machine L E stack) c := by
  obtain ⟨code, rc, hp, ⟨hreq', hmbl', hbl', hargv', hframe⟩, hrebuffed, hcode⟩ :=
    processInlineBuffer_any hproto (show c.selected.rc.argv ≠ .wild from hargv)
      c.server.clock.unixtime (stack c.inlineCalls)
  refine ⟨code, rc, c.inlineCalls + 1, ?_, hframe, hrebuffed, ?_⟩
  · unfold parseRequest
    rw [if_pos (by exact hreq)]
    show processInlineBuffer L c.server.clock.unixtime (stack c.inlineCalls) c.selected.rc >>= _ = _
    rw [hp]
    rfl
  · have hinline : rc.reqType = protoReqInline := hreq'.trans hreq
    rcases hcode with ⟨rfl, hargs', hargc⟩ | ⟨rfl, hholds⟩
    · refine .inl ⟨rfl, .line hinline (hmbl'.trans hmbl) (hbl'.trans hbl) hargv' ?_⟩
      rw [hargs', hargc]
      exact hargs
    · exact .inr ⟨rfl, .inl hinline, hmbl'.trans hmbl, hbl'.trans hbl, hargv', hholds⟩

theorem parses_multibulk (hL : L.StrictString2ll) (hproto : L.AppendsProto) {s : Expect}
    (hreq : selectReqType c.rc = protoReqMultibulk) (hrep : Rep c.rc s) (hq : c.rc.InBuffer)
    (hstar : s = .count → c.rc.unread.head? = some 42) : Parses (machine L E stack) c := by
  obtain ⟨code, rc, hp, ⟨hreq', hframe⟩, hrebuffed, hcode⟩ :=
    processMultibulkBuffer_any hL hproto (show Rep c.selected.rc s from hrep.of_eq rfl rfl rfl rfl) hq
      hstar
  refine ⟨code, rc, c.inlineCalls, parseRequest_multibulk hreq hp, hframe, hrebuffed, ?_⟩
  have hmulti : rc.reqType = protoReqMultibulk := hreq'.trans hreq
  rcases hcode with ⟨rfl, s', hrep', hq', hstar'⟩ | ⟨rfl, args, hloaded⟩
  · exact .inl ⟨rfl, .bulks hmulti hrep' hq' hstar'⟩
  · exact .inr ⟨rfl, hloaded.filled hmulti⟩

/-- The assertion in front of the count line. -/
theorem Stuck.parseRequest {σ : Type} {M : Machine σ} {c : Conn σ} (h : Stuck c.rc) :
    parseRequest M c.selected = .error (.assertion "client argc ! = 0") := by
  obtain ⟨hreq, hmbl, hargc⟩ := h
  have hmulti : c.selected.rc.reqType = protoReqMultibulk :=
    (if_neg (by rw [hreq]; decide)).trans hreq
  unfold LatteRedis.parseRequest
  rw [if_neg (by rw [hmulti]; decide), if_pos hmulti]
  unfold processMultibulkBuffer
  rw [if_pos (by exact hmbl), readMultibulkLen, if_pos (by exact hargc)]
  rfl

variable (E stack) in
/-- Bytes behind a request for a command that does not exist stop the server.  All others can
be parsed. -/
theorem Standing.parses (hL : L.StrictString2ll) (hproto : L.AppendsProto) (h : Standing c.rc)
    (hu : c.rc.unread ≠ []) :
    Parses (machine L E stack) c ∨
      Stuck c.rc ∧ ∃ name operands, c.rc.Holds (name :: operands) ∧ Verb.named name = none := by
  have hq : c.rc.InBuffer := (unread_ne_nil_iff.mp hu).le
  -- once a protocol has been chosen it is not chosen again
  have hselect : c.rc.reqType ≠ 0 → selectReqType c.rc = c.rc.reqType := fun hne ↦ if_neg hne
  cases h with
  | ready hreq hrep =>
      left
      by_cases hhead : c.rc.unread.head? = some 42
      · exact parses_multibulk hL hproto (by rw [selectReqType, if_pos hreq, if_pos hhead]) hrep hq
          fun _ ↦ hhead
      · obtain ⟨hmbl, hbl, hargc, hargv⟩ := hrep
        exact parses_inline hproto (by rw [selectReqType, if_pos hreq, if_neg hhead]) hmbl hbl hargv
          (args_length_of_argc_eq_zero hargc)
  | line hreq hmbl hbl hargv hargs =>
      exact .inl (parses_inline hproto ((hselect (by rw [hreq]; decide)).trans hreq) hmbl hbl hargv hargs)
  | bulks hreq hrep hq hstar =>
      exact .inl (parses_multibulk hL hproto ((hselect (by rw [hreq]; decide)).trans hreq) hrep hq
        hstar)
  | unknown hstuck hholds hname => exact .inr ⟨hstuck, _, _, hholds, hname⟩

/-! ## Executing -/

/-- The arguments of a request that loads a module. -/
def Loads (args : List Bytes) : Prop :=
  ∃ name sub path rest, args = name :: sub :: path :: rest ∧ name.map lower = ascii "module" ∧
    strcaseeq sub (ascii "load")

theorem Loads.loadsModule {call : Call} (h : Loads call.args) : call.request.LoadsModule := by
  obtain ⟨name, sub, path, rest, hargs, hname, hsub⟩ := h
  unfold Call.request
  rw [hargs]
  exact ⟨hname, sub, path, rest, rfl, hsub⟩

theorem Request.LoadsModule.loads {r : Request} (h : r.LoadsModule) : Loads (r.name :: r.operands) := by
  obtain ⟨hname, sub, path, rest, hops, hsub⟩ := h
  rw [hops]
  exact ⟨r.name, sub, path, rest, rfl, hname, hsub⟩

/-- What a parser makes is sent back as it came. -/
theorem Request.sends (hemb : L.EmbedsSds) (r : Request) {i : Nat} {o : LatteObject}
    (h : r.client.argvAt i = .ok o) : L.Sends o := by
  obtain ⟨-, slots, vals, hargv, -, htext⟩ := r.holds
  exact hemb.sends (htext o (RedisClient.mem_of_argvAt hargv h))

/-- What has been done for a connection since an earlier state `c`: the requests `done` were
executed, and the pieces `ps` written. -/
structure Heard (L : LatteC) (dbNum : Nat) (c : Conn Server) (ms : Keyspaces)
    (done : List (List Bytes)) (ps : List Piece) (c' : Conn Server) (ms' : Keyspaces) : Prop where
  spec : ∀ i, Keyspaces.answerAll L ms ((c.requests i done).map Call.request) =
    some (ms', ps.filterMap Piece.answer?)
  calls : c'.calls = c.calls ++ done
  realises : c'.server.Realises L dbNum ms'
  clock : c'.server.clock = c.server.clock
  dbid : c'.rc.dbid = c.rc.dbid
  cmd : c.rc.cmd ≠ .wild → c'.rc.cmd ≠ .wild
  out : c'.rc.reply.out = c.rc.reply.out ++ ps.flatMap Piece.bytes

namespace Heard

variable {c'' : Conn Server} {ms ms' ms'' : Keyspaces} {done done' : List (List Bytes)}
  {ps ps' : List Piece}

theorem trans (h : Heard L dbNum c ms done ps c' ms') (h' : Heard L dbNum c' ms' done' ps' c'' ms'') :
    Heard L dbNum c ms (done ++ done') (ps ++ ps') c'' ms'' where
  spec i := by
    have hsame : c.requests i done' = c'.requests i done' := by
      unfold Conn.requests
      rw [h.clock, h.dbid]
    rw [show c.requests i (done ++ done') = c.requests i done ++ c.requests i done' from
      List.map_append, List.map_append, hsame, List.filterMap_append]
    exact Keyspaces.answerAll_append (h.spec i) (h'.spec i)
  calls := by rw [h'.calls, h.calls, List.append_assoc]
  realises := h'.realises
  clock := h'.clock.trans h.clock
  dbid := h'.dbid.trans h.dbid
  cmd hcmd := h'.cmd (h.cmd hcmd)
  out := by rw [h'.out, h.out, List.flatMap_append, List.append_assoc]

variable (c c') in
/-- Complaints are no answers. -/
theorem of_rebuffed (hreal : c.server.Realises L dbNum ms) (hserver : c'.server = c.server)
    (hcalls : c'.calls = c.calls) (hdbid : c'.rc.dbid = c.rc.dbid)
    (hcmd : c.rc.cmd ≠ .wild → c'.rc.cmd ≠ .wild) (hreply : Rebuffed c.rc.reply c'.rc.reply) :
    ∃ ps, Heard L dbNum c ms [] ps c' ms := by
  obtain ⟨texts, hout⟩ := hreply
  exact ⟨texts.map .rebuff,
    { spec := fun _ ↦ by rw [filterMap_rebuffs]; rfl
      calls := by rw [hcalls, List.append_nil]
      realises := hserver ▸ hreal
      clock := by rw [hserver]
      dbid := hdbid
      cmd := hcmd
      out := hout }⟩

end Heard

section Execute

variable {ms : Keyspaces} {name : Bytes} {operands : List Bytes} {code : Int}

/-- A complete request is answered, or left alone if there is no such command. -/
theorem RedisClient.Filled.execute (hproto : L.AppendsProto) (hemb : L.EmbedsSds)
    (h : c.rc.Filled) (hargc : c.rc.argc ≠ 0) (hdb : c.rc.dbid < dbNum)
    (hreal : c.server.Realises L dbNum ms)
    (hexec : processCommandAndResetClient (machine L E stack) c = .ok (code, c'))
    (hloads : ∀ args ∈ c'.calls, ¬ Loads args) :
    ∃ done ps ms', Heard L dbNum c ms done ps c' ms' ∧ Standing c'.rc := by
  obtain ⟨name, operands, hholds⟩ := h.holds.resolve_left hargc
  obtain ⟨o, ho, htext, hcontent⟩ := hholds.argvAt (i := 0) rfl
  obtain ⟨-, o', name', ho', hname', hcases⟩ := processCommandAndResetClient_cases hexec
  cases ho.symm.trans ho'
  obtain rfl : name' = name := Except.ok.inj
    (hname'.symm.trans (htext.2.trans (congrArg _ hcontent)))
  have hlookup : (machine L E stack).backend.lookup c.server name' =
      (Verb.named name').map Verb.command := commandManagerLookup_verb hreal.commands name'
  rcases hcases with ⟨hnone, rfl⟩ | ⟨cmd, server, rc₁, rc₂, hsome, hproc, hreset, rfl⟩
  · obtain ⟨ps, hheard⟩ := Heard.of_rebuffed c
      { c with rc := { c.rc with cmd := .null, lastcmd := .null } } hreal rfl rfl rfl
      (fun _ ↦ by simp) (.refl _)
    refine ⟨[], ps, ms, hheard, ?_⟩
    rcases h.reqType with hreq | hreq
    · exact .line hreq h.multiBulkLen h.bulkLen h.argv hholds.args_eq.1
    · refine .unknown ⟨hreq, h.multiBulkLen, hargc⟩ hholds ?_
      exact Option.map_eq_none_iff.mp (hlookup.symm.trans hnone)
  · let r : Request := ⟨c.rc, name', operands, c.server.clock, hholds⟩
    have hargs : c.rc.args.map LatteObject.content = name' :: operands := hholds.args_eq.2
    have hspecified : r.Specified L dbNum := by
      refine ⟨hdb, fun hload ↦ ?_, fun i o ↦ r.sends hemb⟩
      exact hloads (name' :: operands) (by rw [hargs]; simp) hload.loads
    have hrun : r.execute L E c.server = .ok (server, rc₁) := by
      rw [Request.execute_eq, show commandManagerLookup c.server r.name = some cmd from hsome]
      exact hproc
    obtain ⟨⟨m, a⟩, hanswer, hreal', hclock, hout⟩ :=
      (Request.execute_realises (E := E) hproto hspecified hreal).eq_some hrun
    have hframe := CommandProc.run_sameParser hproc
    refine ⟨[name' :: operands], [.answer a], Function.update ms c.rc.dbid m, ?_, ?_⟩
    · refine ⟨fun i ↦ ?_, ?_, hreal', hclock, ?_, fun _ ↦ ?_, ?_⟩
      · exact Keyspaces.answerAll_singleton
          (r := Call.request ⟨i, c.rc.dbid, c.server.clock, name' :: operands⟩) hanswer
      · dsimp only
        rw [hargs]
      · dsimp only
        rw [resetRedisClient_ends hreset, hframe]
      · dsimp only
        rw [resetRedisClient_ends hreset]
        simp
      · dsimp only
        rw [resetRedisClient_ends hreset, List.flatMap_singleton]
        exact hout
    · show Standing rc₂
      rw [resetRedisClient_ends hreset, hframe]
      exact .ready rfl ⟨rfl, rfl, rfl, h.argv⟩

end Execute

/-! ## Reads -/

/-- The record of calls is only added to. -/
theorem loopBody_calls {σ : Type} {M : Machine σ} {c : Conn σ} {it : Iter σ}
    (h : loopBody M c = .ok it) : c.calls <+: it.conn.calls := by
  have hparsed : ∀ {code : Int} {c₁ : Conn σ}, parseRequest M c.selected = .ok (code, c₁) →
      c₁.calls = c.calls := by
    intro code c₁ hp
    unfold parseRequest at hp
    split at hp
    · obtain ⟨⟨code', rc⟩, -, hp⟩ := Run.bind_eq_ok.mp hp
      cases hp
      rfl
    · split at hp
      · obtain ⟨⟨code', rc⟩, -, hp⟩ := Run.bind_eq_ok.mp hp
        cases hp
        rfl
      · cases hp
  obtain ⟨-, rfl⟩ | ⟨-, code, c₁, hp, ⟨-, rfl⟩ | ⟨-, -, rc, -, rfl⟩ |
    ⟨-, -, code₂, c₂, hexec, rfl⟩⟩ := loopBody_cases h
  · exact List.prefix_rfl
  · exact (hparsed hp) ▸ List.prefix_rfl
  · exact (hparsed hp) ▸ List.prefix_rfl
  · rw [Iter.conn_ite, ← hparsed hp]
    obtain ⟨-, _, _, -, -, ⟨-, rfl⟩ | ⟨_, _, _, _, -, -, -, rfl⟩⟩ :=
      processCommandAndResetClient_cases hexec
    · exact List.prefix_rfl
    · exact List.prefix_append _ _

theorem redisProcessInputBuffer_calls {σ : Type} {M : Machine σ} {fuel : Nat} {c c' : Conn σ}
    {ret : Int} (h : redisProcessInputBuffer M fuel c = .returned ret c') : c.calls <+: c'.calls := by
  induction fuel generalizing c with
  | zero => cases h
  | succ fuel ih =>
      rw [redisProcessInputBuffer] at h
      split at h
      · cases h
      · next hbody =>
          cases h
          exact loopBody_calls hbody
      · next hbody => exact (loopBody_calls hbody).trans (ih h)

variable {ms : Keyspaces}

/-- One iteration. -/
theorem Standing.iterate (hL : L.StrictString2ll) (hproto : L.AppendsProto) (hemb : L.EmbedsSds)
    (h : Standing c.rc) (hdb : c.rc.dbid < dbNum) (hreal : c.server.Realises L dbNum ms)
    {it : Iter Server} (hbody : loopBody (machine L E stack) c = .ok it)
    (hloads : ∀ args ∈ it.conn.calls, ¬ Loads args) :
    ∃ done ps ms', Heard L dbNum c ms done ps it.conn ms' ∧ Standing it.conn.rc := by
  obtain ⟨-, rfl⟩ | ⟨⟨hu, -, -⟩, code, c₁, hp, hend⟩ := loopBody_cases hbody
  · obtain ⟨ps, hheard⟩ := Heard.of_rebuffed c c hreal rfl rfl rfl id (.refl _)
    exact ⟨[], ps, ms, hheard, h⟩
  · obtain ⟨code', rc, k, hp', ⟨hdbid, hcmd⟩, hrebuffed, hcode⟩ :=
      (h.parses E stack hL hproto hu).resolve_right fun ⟨hstuck, _⟩ ↦ by
        cases hp.symm.trans hstuck.parseRequest
    cases hp.symm.trans hp'
    obtain ⟨ps, hheard⟩ := Heard.of_rebuffed c { c with rc := rc, inlineCalls := k } hreal rfl rfl
      hdbid (fun h ↦ hcmd ▸ h) hrebuffed
    rcases hcode with ⟨rfl, hstanding⟩ | ⟨rfl, hfilled⟩
    · obtain ⟨-, rfl⟩ | ⟨hzero, -⟩ | ⟨hzero, -⟩ := hend
      · exact ⟨[], ps, ms, hheard, hstanding⟩
      · cases hzero
      · cases hzero
    · obtain ⟨hne, -⟩ | ⟨-, hargc, rc', hreset, rfl⟩ | ⟨-, hargc, code₂, c₂, hexec, rfl⟩ := hend
      · exact absurd rfl hne
      · refine ⟨[], ps, ms, ⟨hheard.spec, hheard.calls, hheard.realises, hheard.clock, ?_, fun _ ↦ ?_, ?_⟩,
          ?_⟩
        · exact (congrArg RedisClient.dbid (resetRedisClient_ends hreset)).trans hdbid
        · show rc'.cmd ≠ .wild
          rw [resetRedisClient_ends hreset]
          simp
        · have hout := hheard.out
          rwa [show rc.reply = rc'.reply by rw [resetRedisClient_ends hreset]] at hout
        · show Standing rc'
          rw [resetRedisClient_ends hreset]
          exact .ready rfl ⟨rfl, rfl, rfl, hfilled.argv⟩
      · rw [Iter.conn_ite] at hloads ⊢
        obtain ⟨done, ps', ms', hheard', hstanding⟩ := hfilled.execute hproto hemb hargc
          (hdbid.symm ▸ hdb) hheard.realises hexec hloads
        exact ⟨[] ++ done, ps ++ ps', ms', hheard.trans hheard', hstanding⟩

/-- A call that returns.  The induction is on the iterations it has made. -/
theorem Standing.call (hL : L.StrictString2ll) (hproto : L.AppendsProto) (hemb : L.EmbedsSds)
    (h : Standing c.rc) (hdb : c.rc.dbid < dbNum) (hreal : c.server.Realises L dbNum ms)
    {fuel : Nat} {ret : Int}
    (hcall : redisProcessInputBuffer (machine L E stack) fuel c = .returned ret c')
    (hloads : ∀ args ∈ c'.calls, ¬ Loads args) :
    ∃ done ps ms', Heard L dbNum c ms done ps c' ms' ∧ Standing c'.rc := by
  induction fuel generalizing c ms with
  | zero => cases hcall
  | succ fuel ih =>
      rw [redisProcessInputBuffer] at hcall
      split at hcall
      · cases hcall
      · next hbody =>
          cases hcall
          exact h.iterate hL hproto hemb hdb hreal hbody hloads
      · next c₁ hbody =>
          obtain ⟨done, ps, ms₁, hheard, hstanding⟩ := h.iterate hL hproto hemb hdb hreal hbody
            fun args hargs ↦ hloads args ((redisProcessInputBuffer_calls hcall).subset hargs)
          obtain ⟨done', ps', ms', hheard', hstanding'⟩ :=
            ih hstanding (hheard.dbid.symm ▸ hdb) hheard.realises hcall
          exact ⟨done ++ done', ps ++ ps', ms', hheard.trans hheard', hstanding'⟩

/-- One read. -/
theorem Standing.read (hL : L.StrictString2ll) (hproto : L.AppendsProto) (hemb : L.EmbedsSds)
    (h : Standing c.rc) (hdb : c.rc.dbid < dbNum) (hreal : c.server.Realises L dbNum ms)
    {fuel : Nat} {chunk : Bytes} {ret : Int}
    (hread : serveRead (machine L E stack) fuel chunk c = .returned ret c')
    (hloads : ∀ args ∈ c'.calls, ¬ Loads args) :
    ∃ done ps ms', Heard L dbNum c ms done ps c' ms' ∧ Standing c'.rc := by
  unfold serveRead at hread
  split at hread
  · next ret' c₁ hcall =>
      cases hread
      have hsame : (LatteRedis.dropConsumed ret c₁).server = c₁.server ∧
          (LatteRedis.dropConsumed ret c₁).calls = c₁.calls ∧
          (LatteRedis.dropConsumed ret c₁).rc.dbid = c₁.rc.dbid ∧
          (LatteRedis.dropConsumed ret c₁).rc.cmd = c₁.rc.cmd ∧
          (LatteRedis.dropConsumed ret c₁).rc.reply = c₁.rc.reply := by
        unfold LatteRedis.dropConsumed
        split <;> exact ⟨rfl, rfl, rfl, rfl, rfl⟩
      obtain ⟨hserver, hcalls, hdbid, hcmd, hreply⟩ := hsame
      rw [hcalls] at hloads
      obtain ⟨done, ps, ms', hheard, hstanding⟩ :=
        (h.deliver chunk).call hL hproto hemb hdb hreal hcall hloads
      refine ⟨done, ps, ms', ⟨hheard.spec, ?_, ?_, ?_, ?_, fun h ↦ hcmd ▸ hheard.cmd h, ?_⟩,
        hstanding.dropConsumed ret⟩
      · exact hcalls.trans hheard.calls
      · exact hserver ▸ hheard.realises
      · exact (congrArg Server.clock hserver).trans hheard.clock
      · exact hdbid.trans hheard.dbid
      · rw [hreply]
        exact hheard.out
  · next hne =>
      exact absurd hread (hne ret c')

end Conn

/-! ## All connections -/

/-- The invariant of runs.  Connection `i` started as `rc₀`; those that are `honest` send
their pipelines. -/
structure Node.Withstands (L : LatteC) (E : Extension) (stack : Nat → Int) (hL : L.StrictString2ll)
    (dbNum : Nat) (clients : List RedisClient) (honest : Nat → Prop)
    (pipelines : Nat → List (List Bytes)) (future : Nat → Bytes) (n : Node) (ms : Keyspaces)
    (as : List Answer) : Prop where
  realises : n.server.Realises L dbNum ms
  spec : Keyspaces.answerAll L (fun _ ↦ .empty) (n.log.map Call.request) = some (ms, as)
  length : n.clients.length = clients.length
  dbids : ∀ call ∈ n.log, ∃ rc, clients[call.conn]? = some rc ∧ call.dbid = rc.dbid
  stands : ∀ i rc₀ rc, clients[i]? = some rc₀ → n.clients[i]? = some rc →
    Standing rc ∧ rc.dbid = rc₀.dbid ∧ (rc₀.cmd ≠ .wild → rc.cmd ≠ .wild) ∧
      ∃ ps : List Piece, ps.filterMap Piece.answer? = n.answersOf as i ∧
        rc.reply.out = rc₀.reply.out ++ ps.flatMap Piece.bytes
  serving : ∀ i rc₀ rc, honest i → clients[i]? = some rc₀ → n.clients[i]? = some rc →
    n.Serving L E stack hL as i (pipelines i) (future i) rc₀ rc

section Nodes

variable {hL : L.StrictString2ll} {clients : List RedisClient} {honest : Nat → Prop}
  {pipelines : Nat → List (List Bytes)} {future : Nat → Bytes} {n n' : Node} {ms : Keyspaces}
  {as : List Answer} {fuel : Nat}

/-- What an event can do. -/
theorem Node.step_cases {M : Machine Server} {e : NodeEvent} (h : n.step M fuel e = some n') :
    (∃ clock, e = .tick clock ∧ n' = { n with server := { n.server with clock := clock } }) ∨
      (∃ i chunk, e = .read i chunk ∧ n.clients[i]? = none ∧ n' = n) ∨
      ∃ i chunk rc ret c, e = .read i chunk ∧ n.clients[i]? = some rc ∧
        serveRead M fuel chunk (n.conn rc) = .returned ret c ∧ n' = n.served i c := by
  cases e with
  | tick clock =>
      cases h
      exact .inl ⟨clock, rfl, rfl⟩
  | read i chunk =>
      right
      cases hrc : n.clients[i]? with
      | none =>
          rw [Node.step_read_none hrc] at h
          cases h
          exact .inl ⟨i, chunk, rfl, hrc, rfl⟩
      | some rc =>
          unfold Node.step at h
          dsimp only at h
          rw [hrc] at h
          dsimp only at h
          split at h
          · next ret c hread =>
              cases h
              exact .inr ⟨i, chunk, rc, ret, c, rfl, hrc, hread, rfl⟩
          · cases h

/-- The log is only added to. -/
theorem Node.log_step {M : Machine Server} {e : NodeEvent} (h : n.step M fuel e = some n') :
    n.log <+: n'.log := by
  obtain ⟨clock, -, rfl⟩ | ⟨i, chunk, -, -, rfl⟩ | ⟨i, chunk, rc, ret, c, -, -, -, rfl⟩ :=
    Node.step_cases h
  · exact List.prefix_rfl
  · exact List.prefix_rfl
  · exact List.prefix_append _ _

theorem Node.log_run {M : Machine Server} {es : List NodeEvent} (h : n.run M fuel es = some n') :
    n.log <+: n'.log := by
  induction es generalizing n with
  | nil =>
      cases h
      exact List.prefix_rfl
  | cons e es ih =>
      obtain ⟨n₁, hstep, hrun⟩ := Node.run_cons_eq_some.mp h
      exact (Node.log_step hstep).trans (ih hrun)

namespace Node.Withstands

theorem length_eq (h : n.Withstands L E stack hL dbNum clients honest pipelines future ms as) :
    as.length = n.log.length := by
  rw [Keyspaces.length_answerAll h.spec, List.length_map]

theorem tick (hproto : L.AppendsProto) (hemb : L.EmbedsSds) (hdb : ∀ rc ∈ clients, rc.dbid < dbNum)
    (h : n.Withstands L E stack hL dbNum clients honest pipelines future ms as) (clock : Clock) :
    Node.Withstands L E stack hL dbNum clients honest pipelines future
      { n with server := { n.server with clock := clock } } ms as := by
  refine ⟨h.realises.tick clock, h.spec, h.length, h.dbids, h.stands, ?_⟩
  intro i rc₀ rc hi h₀ hrc
  have hserving := h.serving i rc₀ rc hi h₀ hrc
  exact hserving.tick hproto hemb (hserving.dbid ▸ hdb rc₀ (List.mem_of_getElem? h₀)) h.realises clock

/-- What is going to arrive matters for the honest connections only. -/
theorem of_eq (h : n.Withstands L E stack hL dbNum clients honest pipelines future ms as)
    {future' : Nat → Bytes} (heq : ∀ i rc₀, clients[i]? = some rc₀ → future' i = future i) :
    n.Withstands L E stack hL dbNum clients honest pipelines future' ms as := by
  refine ⟨h.realises, h.spec, h.length, h.dbids, h.stands, ?_⟩
  intro i rc₀ rc hi h₀ hrc
  rw [heq i rc₀ h₀]
  exact h.serving i rc₀ rc hi h₀ hrc

/-- Bytes have arrived on connection `i`, whatever they are, and it has been served. -/
theorem served (hproto : L.AppendsProto) (hemb : L.EmbedsSds) (hdb : ∀ rc ∈ clients, rc.dbid < dbNum)
    (h : n.Withstands L E stack hL dbNum clients honest pipelines future ms as) {i : Nat}
    {chunk : Bytes} (rest : Bytes) (hfuture : future i = chunk ++ rest) {rc : RedisClient}
    (hrc : n.clients[i]? = some rc) {ret : Int} {c : Conn Server}
    (hread : serveRead (machine L E stack) fuel chunk (n.conn rc) = .returned ret c)
    (hloads : ∀ call ∈ (n.served i c).log, ¬ call.request.LoadsModule) :
    ∃ ms' as', (n.served i c).Withstands L E stack hL dbNum clients honest pipelines
      (Function.update future i rest) ms' as' := by
  obtain ⟨rc₀, h₀⟩ : ∃ rc₀, clients[i]? = some rc₀ :=
    ⟨_, List.getElem?_eq_getElem (h.length ▸ (List.getElem?_eq_some_iff.mp hrc).1)⟩
  obtain ⟨hstanding, hdbid, hcmd, ps, hanswers, hout⟩ := h.stands i rc₀ rc h₀ hrc
  have hlt : rc.dbid < dbNum := hdbid ▸ hdb rc₀ (List.mem_of_getElem? h₀)
  obtain ⟨done, ps', ms', hheard, hstanding'⟩ := Standing.read (c := n.conn rc) hL hproto hemb
    hstanding hlt h.realises hread fun args hargs hload ↦ hloads _
      (List.mem_append_right _ (List.mem_map_of_mem hargs)) (Loads.loadsModule hload)
  have hcdb : c.rc.dbid = rc.dbid := hheard.dbid
  have hlog : (n.served i c).log = n.log ++ (n.conn rc).requests i done :=
    Node.log_served hheard.calls hcdb
  have hlen : (ps'.filterMap Piece.answer?).length = done.length := by
    rw [Keyspaces.length_answerAll (hheard.spec 0), List.length_map, Conn.requests, List.length_map]
  obtain ⟨hown, hothers⟩ := Node.answersOf_served hlog h.length_eq hlen
  refine ⟨ms', as ++ ps'.filterMap Piece.answer?, hheard.realises, ?_, ?_, ?_, ?_, ?_⟩
  · rw [hlog, List.map_append]
    exact Keyspaces.answerAll_append h.spec (hheard.spec i)
  · exact List.length_set.trans h.length
  · intro call hcall
    rw [hlog, List.mem_append] at hcall
    rcases hcall with hcall | hcall
    · exact h.dbids call hcall
    · obtain ⟨hconn, hcall⟩ := Conn.conn_of_mem_requests hcall
      exact ⟨rc₀, by rw [hconn, h₀], hcall.trans hdbid⟩
  · intro j rc₁ rc' h₁ hrc'
    have hget : (n.clients.set i c.rc)[j]? = some rc' := hrc'
    by_cases hj : j = i
    · subst hj
      rw [List.getElem?_set_self (List.getElem?_eq_some_iff.mp hrc).1] at hget
      cases hget
      cases h₀.symm.trans h₁
      refine ⟨hstanding', hcdb.trans hdbid, fun hne ↦ hheard.cmd (hcmd hne), ps ++ ps', ?_, ?_⟩
      · rw [List.filterMap_append, hanswers, hown]
      · rw [hheard.out, show (n.conn rc).rc.reply.out = _ from hout, List.flatMap_append,
          List.append_assoc]
    · rw [List.getElem?_set_ne (Ne.symm hj)] at hget
      rw [hothers j hj]
      exact h.stands j rc₁ rc' h₁ hget
  · intro j rc₁ rc' hhonest h₁ hrc'
    have hget : (n.clients.set i c.rc)[j]? = some rc' := hrc'
    by_cases hj : j = i
    · subst hj
      rw [List.getElem?_set_self (List.getElem?_eq_some_iff.mp hrc).1] at hget
      cases hget
      have hserving := h.serving j rc₁ rc hhonest h₁ hrc
      rw [hfuture] at hserving
      -- with iterations enough the read returns, and there is one way to return
      obtain ⟨ret', c', done', as', ms'', hread', hanswers', hserving'⟩ :=
        hserving.read hproto hemb hlt h.realises h.length_eq (show (pipelines j).length <
          (n.callsOf j).length + (fuel + (pipelines j).length + 1) by omega)
      have hmono := serveRead_mono (m := fuel + (pipelines j).length + 1) (by omega) hread (by simp)
      cases hmono.symm.trans hread'
      obtain rfl : done = done' := List.append_cancel_left (hheard.calls.symm.trans hanswers'.calls)
      cases (hheard.spec j).symm.trans (hanswers'.spec j)
      rw [Function.update_self]
      exact hserving'
    · rw [List.getElem?_set_ne (Ne.symm hj)] at hget
      have hother := h.serving j rc₁ rc' hhonest h₁ hget
      rw [Function.update_of_ne hj]
      exact hother.of_served hproto hemb hj (hother.dbid ▸ hdb rc₁ (List.mem_of_getElem? h₁)) hlog
        h.length_eq hlen hheard.realises

/-- **Every run the server gets through without loading a module keeps the invariant.** -/
theorem run (hproto : L.AppendsProto) (hemb : L.EmbedsSds) (hdb : ∀ rc ∈ clients, rc.dbid < dbNum)
    {rest : Nat → Bytes} {es : List NodeEvent}
    (h : n.Withstands L E stack hL dbNum clients honest pipelines (fun i ↦ received i es ++ rest i)
      ms as)
    (hrun : n.run (machine L E stack) fuel es = some n')
    (hloads : ∀ call ∈ n'.log, ¬ call.request.LoadsModule) :
    ∃ ms' as', n'.Withstands L E stack hL dbNum clients honest pipelines rest ms' as' := by
  induction es generalizing n ms as with
  | nil =>
      cases hrun
      exact ⟨ms, as, h⟩
  | cons e es ih =>
      obtain ⟨n₁, hstep, hrest⟩ := Node.run_cons_eq_some.mp hrun
      have hloads₁ : ∀ call ∈ n₁.log, ¬ call.request.LoadsModule := fun call hcall ↦
        hloads call ((Node.log_run hrest).subset hcall)
      obtain ⟨clock, rfl, rfl⟩ | ⟨i, chunk, rfl, hrc, rfl⟩ | ⟨i, chunk, rc, ret, c, rfl, hrc, hread, rfl⟩ :=
        Node.step_cases hstep
      · exact ih (h.tick hproto hemb hdb clock) hrest
      · refine ih (h.of_eq fun j rc₀ h₀ ↦ ?_) hrest
        have hne : j ≠ i := by
          rintro rfl
          exact (List.getElem?_eq_none_iff.mp hrc).not_gt
            (h.length ▸ (List.getElem?_eq_some_iff.mp h₀).1)
        rw [received_read_of_ne hne]
      · obtain ⟨ms', as', h'⟩ := h.served hproto hemb hdb (received i es ++ rest i)
          (by rw [received_read_self, List.append_assoc]) hrc hread hloads₁
        refine ih (h'.of_eq fun j rc₀ _ ↦ ?_) hrest
        by_cases hj : j = i
        · rw [hj, Function.update_self]
        · rw [Function.update_of_ne hj, received_read_of_ne hj]

variable (E stack) in
/-- Before anything has arrived. -/
theorem start (hL : L.StrictString2ll) (hproto : L.AppendsProto) (hemb : L.EmbedsSds) {hz : Int}
    (hhz : hz ≠ 0) (clock : Clock) (hclients : ∀ rc ∈ clients, rc.AtRest ∧ rc.dbid < dbNum)
    (hpipelines : ∀ i, honest i → ∀ args ∈ pipelines i, Sendable args ∧ Safe args)
    (hfuture : ∀ i, honest i → future i = encodeAll (pipelines i)) :
    Node.Withstands L E stack hL dbNum clients honest pipelines future
      { server := startRedisServer dbNum hz clock, clients := clients } (fun _ ↦ .empty) [] := by
  have hreal := startRedisServer_realises L dbNum hhz clock
  refine ⟨hreal, rfl, rfl, by simp, ?_, ?_⟩
  · intro i rc₀ rc h₀ hrc
    cases h₀.symm.trans hrc
    obtain ⟨hreq, hargc, hmbl, hbl⟩ := (hclients rc₀ (List.mem_of_getElem? h₀)).1.isReset
    refine ⟨.ready hreq ⟨hmbl, hbl, hargc, ?_⟩, rfl, id, [], rfl, (List.append_nil _).symm⟩
    exact (hclients rc₀ (List.mem_of_getElem? h₀)).1.argv
  · intro i rc₀ rc hi h₀ hrc
    cases h₀.symm.trans hrc
    obtain ⟨hrest, hdb⟩ := hclients rc₀ (List.mem_of_getElem? h₀)
    rw [hfuture i hi]
    exact Node.serving_start E stack hL hproto hemb hreal rfl hrest hdb i (hpipelines i hi)

/-- Where no connection is asked anything. -/
theorem of_run (hL : L.StrictString2ll) (hproto : L.AppendsProto) (hemb : L.EmbedsSds) {hz : Int}
    (hhz : hz ≠ 0) {clock : Clock} (hclients : ∀ rc ∈ clients, rc.AtRest ∧ rc.dbid < dbNum)
    {es : List NodeEvent} (hrun : Node.run (machine L E stack) fuel
      { server := startRedisServer dbNum hz clock, clients := clients } es = some n)
    (hloads : ∀ call ∈ n.log, ¬ call.request.LoadsModule) :
    ∃ ms as, n.Withstands L E stack hL dbNum clients (fun _ ↦ False) (fun _ ↦ []) (fun _ ↦ []) ms as := by
  have hstart : Node.Withstands L E stack hL dbNum clients (fun _ ↦ False) (fun _ ↦ [])
      (fun i ↦ received i es ++ []) { server := startRedisServer dbNum hz clock, clients := clients }
      (fun _ ↦ .empty) [] :=
    .start E stack hL hproto hemb hhz clock hclients (fun _ h ↦ h.elim) fun _ h ↦ h.elim
  exact hstart.run hproto hemb (fun rc hrc ↦ (hclients rc hrc).2) hrun hloads

end Node.Withstands

end Nodes

end LatteRedis
