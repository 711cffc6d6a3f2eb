import LatteRedis.Foundation.Resp
import LatteRedis.Client.Simulation
import LatteRedis.Client.InputBuffer

/-!
# Pipelines

A client may send one command behind the other without waiting for replies, and the
transport cuts the stream of their encodings into reads as it likes.  `serveReads_pipeline`
says that the server undoes both: from the reset state, the handlers are called once for
each command, in order and with its arguments, and the client ends in the reset state with
nothing left to read.

This is about any server behind the client.  What is asked of it is `Backend.Serves`: the
handlers, called in this order, return and leave the connection open.

The proof follows the stream.  `Awaits c s cmds rest` says that the connection `c` is in
the situation `s` of the decoder and that the commands `cmds` are what it has to read yet,
when the bytes `rest` are still to come.  An iteration of the loop either completes the
first of these commands or consumes what there is and waits.
-/

namespace LatteRedis

open ByteString Incremental Resp

/-- A command the parser has no reason to refuse. -/
structure Sendable (args : List Bytes) : Prop where
  ne_nil : args ≠ []
  count_le : args.length ≤ 1024 * 1024
  length_le : ∀ s ∈ args, (s.length : Int) ≤ protoMaxBulkLen

/-- The commands, one behind the other. -/
def encodeAll (cmds : List (List Bytes)) : Bytes := (cmds.map encode).flatten

@[simp] theorem encodeAll_nil : encodeAll [] = [] := rfl

@[simp] theorem encodeAll_cons (args : List Bytes) (cmds : List (List Bytes)) :
    encodeAll (args :: cmds) = encode args ++ encodeAll cmds := rfl

/-! ## The decoder reads what clients encode -/

section Decode

variable {L : LatteC} {master : Bool}

theorem scanLine_header {mark : UInt8} (hcr : mark ≠ CR) (hz : mark ≠ 0) (n : Int) (rest : Bytes) :
    scanLine (header mark n ++ rest) = .line (mark :: decimal n).length := by
  obtain ⟨hz', hcr', -⟩ := decimal_clean n
  have hline : header mark n ++ rest = (mark :: decimal n) ++ CR :: LF :: rest := by
    simp [header, crlf]
  rw [hline]
  refine scanLine_of_strchr (strchr_line _ ?_ ?_) ?_
  · simp only [List.mem_cons, not_or]
    exact ⟨hcr.symm, hcr'⟩
  · simp only [List.mem_cons, not_or]
    exact ⟨hz.symm, hz'⟩
  · rw [List.length_append, List.length_cons (a := CR), List.length_cons (a := LF)]
    omega

/-- A header line is complete, and the verdict on it consumes it. -/
theorem onLine_header {mark : UInt8} (hcr : mark ≠ CR) (hz : mark ≠ 0) (n : Int) (rest : Bytes)
    (f : Bytes → Nat → Verdict Expect (List Bytes)) :
    onLine (header mark n ++ rest) f = f (mark :: decimal n) (header mark n).length := by
  rw [onLine_of_line (scanLine_header hcr hz n rest)]
  congr 1
  · rw [header, List.append_assoc, List.take_left]
  · simp [header, crlf]

theorem countVerdict_decimal (hL : L.StrictString2ll) {n : Nat} (hn : n + 1 ≤ 1024 * 1024)
    (k : Nat) : countVerdict L (42 :: decimal (n + 1 : Nat)) k = .next (.bulks n [] none) k := by
  unfold countVerdict
  rw [List.drop_one, List.tail_cons, hL.decimal (by omega) (by omega)]
  dsimp only
  rw [if_neg (by omega), if_neg (by omega), Int.toNat_natCast, Nat.add_sub_cancel]

theorem lengthVerdict_decimal (hL : L.StrictString2ll) {l : Nat} (hl : (l : Int) ≤ protoMaxBulkLen)
    (n : Nat) (args : List Bytes) (k : Nat) :
    lengthVerdict L master n args (36 :: decimal l) k = .next (.bulks n args (some l)) k := by
  have hbound : (l : Int) ≤ 1024 * 1024 := hl
  unfold lengthVerdict
  rw [if_neg (by simp), List.drop_one, List.tail_cons, hL.decimal (by omega) (by omega)]
  dsimp only
  rw [if_neg (by omega), Int.toNat_natCast]

/-- A length line is read, and then the bytes it announces. -/
theorem decodes_bulk (hL : L.StrictString2ll) {s : Bytes} (hs : (s.length : Int) ≤ protoMaxBulkLen)
    {n : Nat} {args : List Bytes} {u : Bytes} {o : Outcome UInt8 Expect (List Bytes)}
    (h : Decodes (multibulk L hL master) (.bulks n args (some s.length)) (s ++ crlf ++ u) o) :
    Decodes (multibulk L hL master) (.bulks n args none) (bulk s ++ u) o := by
  have hsplit : bulk s ++ u = header 36 s.length ++ (s ++ crlf ++ u) := by
    simp only [bulk, List.append_assoc]
  have hstep : (multibulk L hL master).step (.bulks n args none) (bulk s ++ u) =
      .next (.bulks n args (some s.length)) (header 36 s.length).length := by
    rw [hsplit]
    refine (onLine_header (by decide) (by decide) _ _ _).trans ?_
    exact lengthVerdict_decimal hL hs n args _
  refine .next hstep ?_
  rw [hsplit, List.drop_left]
  exact h

theorem onArg_bulk (n : Nat) (args : List Bytes) (s u : Bytes) :
    onArg n args s.length (s ++ crlf ++ u) = argVerdict (args ++ [s]) (s ++ crlf).length n := by
  rw [onArg_eq (by simp [crlf]), List.append_assoc, List.take_left]
  simp [crlf]

/-- The arguments that are missing are read one after the other. -/
theorem decodes_bulks (hL : L.StrictString2ll) {s : Bytes} {todo : List Bytes}
    (hlen : ∀ t ∈ s :: todo, (t.length : Int) ≤ protoMaxBulkLen) (args : List Bytes)
    (rest : Bytes) :
    Decodes (multibulk L hL master) (.bulks todo.length args none)
      (((s :: todo).map bulk).flatten ++ rest) (.done (args ++ s :: todo) rest) := by
  induction todo generalizing s args with
  | nil =>
      rw [List.map_singleton, List.flatten_singleton]
      refine decodes_bulk hL (hlen s (by simp)) ?_
      have hdone : (multibulk L hL master).step (.bulks 0 args (some s.length)) (s ++ crlf ++ rest) =
        .done (args ++ [s]) (s ++ crlf).length := onArg_bulk 0 args s rest
      have hrest := Decodes.done hdone
      rwa [List.drop_left] at hrest
  | cons t todo ih =>
      rw [List.map_cons, List.flatten_cons, List.append_assoc]
      refine decodes_bulk hL (hlen s (by simp)) (.next (onArg_bulk _ args s _) ?_)
      rw [List.drop_left]
      have htail := ih (fun t' ht' ↦ hlen t' (List.mem_cons_of_mem s ht')) (args ++ [s])
      rwa [List.append_assoc, List.singleton_append] at htail

/-- **Decoding undoes encoding.** -/
theorem decodes_encode (hL : L.StrictString2ll) {args : List Bytes} (h : Sendable args)
    (rest : Bytes) :
    Decodes (multibulk L hL master) .count (encode args ++ rest) (.done args rest) := by
  obtain ⟨s, todo, rfl⟩ := List.exists_cons_of_ne_nil h.ne_nil
  have hsplit : encode (s :: todo) ++ rest =
      header 42 (todo.length + 1 : Nat) ++ (((s :: todo).map bulk).flatten ++ rest) := by
    simp only [encode, List.append_assoc, List.length_cons]
  have hstep : (multibulk L hL master).step .count (encode (s :: todo) ++ rest) =
      .next (.bulks todo.length [] none) (header 42 (todo.length + 1 : Nat)).length := by
    rw [hsplit]
    refine (onLine_header (by decide) (by decide) _ _ _).trans ?_
    exact countVerdict_decimal hL h.count_le _
  refine .next hstep ?_
  rw [hsplit, List.drop_left]
  exact decodes_bulks hL h.length_le [] rest

end Decode

/-! ## What is asked of the server -/

variable {σ : Type}

/-- The client is not about to be closed. -/
def RedisClient.Open (rc : RedisClient) : Prop :=
  rc.closeAfterReply = false ∧ rc.closeAsap = false

/-- The client as the handler of `cmd` finds it. -/
structure RedisClient.Calling (rc : RedisClient) (cmd : RedisCommand) (dbid : Nat)
    (args : List Bytes) : Prop where
  called : rc.cmd = .live cmd ∧ rc.lastcmd = .live cmd
  dbid : rc.dbid = dbid
  isOpen : rc.Open
  holds : rc.Holds args

/-- The handlers of the commands, called one after the other for a client of the database
`dbid`, return and leave the connection open. -/
def Backend.Serves (B : Backend σ) (dbid : Nat) : List (List Bytes) → σ → Prop
  | [], _ => True
  | args :: cmds, s => ∃ name cmd, args.head? = some name ∧ B.lookup s name = some cmd ∧
      ∀ rc : RedisClient, rc.Calling cmd dbid args → ∃ s' rc', B.proc cmd s rc = .ok (s', rc') ∧
        rc'.Open ∧ B.clientGone s' = false ∧ B.Serves dbid cmds s'

variable {M : Machine σ}

/-- A request that is served leaves a reset client, and the next one can be served. -/
theorem processCommandAndResetClient_serves {c : Conn σ} {args : List Bytes}
    {cmds : List (List Bytes)} (hserves : M.backend.Serves c.rc.dbid (args :: cmds) c.server)
    (hholds : c.rc.Holds args) (hopen : c.rc.Open) :
    ∃ server reply lastcmd, M.backend.Serves c.rc.dbid cmds server ∧
      processCommandAndResetClient M c = .ok (0, { c with
        rc := { c.rc with
          reply := reply, lastcmd := lastcmd, argc := 0, cmd := .null, argvLenSum := 0
          reqType := 0, multiBulkLen := 0, bulkLen := -1 }
        server := server
        calls := c.calls ++ [args] }) := by
  obtain ⟨name, cmd, hname, hlookup, hproc⟩ := hserves
  obtain ⟨o, ho, htext, hcontent⟩ := hholds.argvAt (i := 0) (by rw [← List.head?_eq_getElem?, hname])
  obtain ⟨server, rc', hproc, hopen', hgone, hserves⟩ :=
    hproc { c.rc with cmd := .live cmd, lastcmd := .live cmd } ⟨⟨rfl, rfl⟩, rfl, hopen, hholds⟩
  -- the handler has only replied
  obtain ⟨reply, rfl⟩ : ∃ reply, rc' =
      { c.rc with cmd := .live cmd, lastcmd := .live cmd, reply := reply } := by
    refine ⟨rc'.reply, Eq.trans (M.backend.frame hproc) ?_⟩
    simp only [hopen'.1, hopen'.2, hopen.1, hopen.2]
  refine ⟨server, reply, .live cmd, hserves, ?_⟩
  have hargs : ({ c.rc with cmd := .live cmd, lastcmd := .live cmd, reply := reply } :
    RedisClient).args.length = c.rc.argc.toNat := hholds.args_eq.1
  unfold processCommandAndResetClient
  rw [processCommand_eq ho (htext.2.trans (congrArg _ hcontent)), hlookup]
  dsimp only
  rw [hproc]
  simp only [Except.map, Run.ok_bind, commandProcessed, if_true]
  rw [resetRedisClient_ok (by simp) hargs]
  simp only [hgone, Run.ok_bind, Bool.false_eq_true, if_false, hholds.args_eq.2]
  rfl

/-! ## What a connection has to read yet -/

/-- The bytes `b`, read from the situation `s` on, are the commands `cmds`; the first one
may have been read in part. -/
def Streams (D : Decoder UInt8 Expect (List Bytes)) (s : Expect) :
    List (List Bytes) → Bytes → Prop
  | [], b => b = []
  | args :: cmds, b => Decodes D s b (.done args (encodeAll cmds)) ∧ (s = .count → b.head? = some 42)

theorem streams_encodeAll {L : LatteC} {master : Bool} (hL : L.StrictString2ll)
    {cmds : List (List Bytes)} (h : ∀ args ∈ cmds, Sendable args) :
    Streams (multibulk L hL master) .count cmds (encodeAll cmds) := by
  cases cmds with
  | nil => rfl
  | cons args cmds => exact ⟨decodes_encode hL (h args (by simp)) _, fun _ ↦ rfl⟩

/-- In front of a stream of commands the parser waits in the middle of the first one, or has
read it; then the others are what follows. -/
theorem processMultibulkBuffer_streams {L : LatteC} {hL : L.StrictString2ll} {rc : RedisClient}
    {s : Expect} {args : List Bytes} {cmds : List (List Bytes)} {rest : Bytes} (hrep : Rep rc s)
    (hq : rc.InBuffer) (hstar : s = .count → ∀ b ∈ rc.unread.head?, b = 42)
    (hstream : Streams (multibulk L hL rc.isMaster) s (args :: cmds) (rc.unread ++ rest)) :
    (∃ s' rc', processMultibulkBuffer L rc = .ok (-1, rc') ∧ rc.ParsedInto rc' ∧ rc'.InBuffer ∧
        Rep rc' s' ∧ Streams (multibulk L hL rc'.isMaster) s' (args :: cmds) (rc'.unread ++ rest) ∧
        multibulkStep L rc'.isMaster s' rc'.unread = .more) ∨
      ∃ rc', processMultibulkBuffer L rc = .ok (0, rc') ∧ rc.ParsedInto rc' ∧ rc'.InBuffer ∧
        Loaded rc' args ∧ rc'.unread ++ rest = encodeAll cmds := by
  obtain ⟨o, ho⟩ := Decodes.total (D := multibulk L hL rc.isMaster) s rc.unread
  have hfollows := processMultibulkBuffer_follows hrep hq hstar ho
  cases o with
  | more s' u' =>
      obtain ⟨rc', hparse, hparsed, hq', hrep', rfl⟩ := hfollows
      -- what follows is read as if it had been there from the start
      obtain ⟨o, ho'⟩ := Decodes.total (D := multibulk L hL rc.isMaster) s' (rc'.unread ++ rest)
      cases (ho.append_more rest ho').det hstream.1
      refine .inl ⟨s', rc', hparse, hparsed, hq', hrep', ⟨?_, ?_⟩, ?_⟩
      · rw [hparsed.isMaster_eq]
        exact ho'
      · intro hs'
        subst hs'
        obtain ⟨hs, hrest⟩ := eq_of_decodes_count ho
        rw [← hrest]
        exact hstream.2 hs
      · rw [hparsed.isMaster_eq]
        exact ho.step_more
  | fail s' u' =>
      rcases ho.append_fail rest with hf | ⟨hm, -⟩
      · cases hf.det hstream.1
      · cases hm.det hstream.1
  | done args' u' =>
      obtain ⟨rc', hparse, hparsed, hq', hloaded, rfl⟩ := hfollows
      have heq := (ho.append_done rest).det hstream.1
      simp only [Outcome.done.injEq] at heq
      obtain ⟨rfl, hunread⟩ := heq
      exact .inr ⟨rc', hparse, hparsed, hq', hloaded, hunread⟩

/-- In front of a command, or in the middle of one, the multibulk parser is selected. -/
theorem selectReqType_streams {L : LatteC} {hL : L.StrictString2ll} {master : Bool}
    {rc : RedisClient} {s : Expect} {args : List Bytes} {cmds : List (List Bytes)} {rest : Bytes}
    (hreq : (rc.reqType = 0 ∧ s = .count) ∨ rc.reqType = protoReqMultibulk)
    (hstream : Streams (multibulk L hL master) s (args :: cmds) (rc.unread ++ rest))
    (hu : rc.unread ≠ []) :
    selectReqType rc = protoReqMultibulk ∧ (s = .count → ∀ b ∈ rc.unread.head?, b = 42) := by
  obtain ⟨b, u, hbu⟩ := List.exists_cons_of_ne_nil hu
  have hstar := hstream.2
  rw [hbu] at hstar
  have hb : s = .count → b = 42 := fun hs ↦ Option.some.inj (hstar hs)
  constructor
  · unfold selectReqType
    rcases hreq with ⟨hreq, hs⟩ | hreq
    · rw [if_pos hreq, hbu, hb hs]
      rfl
    · rw [if_neg (by rw [hreq]; decide), hreq]
  · intro hs b' hb'
    rw [hbu] at hb'
    rw [← Option.some.inj hb', hb hs]

theorem RedisClient.InBuffer.deliver {c : Conn σ} (h : c.rc.InBuffer) (chunk : Bytes) :
    (deliver chunk c).rc.InBuffer := by
  show c.rc.qbPos ≤ (c.rc.querybuf ++ chunk).length
  rw [List.length_append]
  exact Nat.le_add_right_of_le h

theorem RedisClient.InBuffer.dropConsumed {c : Conn σ} (h : c.rc.InBuffer) (ret : Int) :
    (dropConsumed ret c).rc.InBuffer := by
  unfold LatteRedis.dropConsumed
  split
  · exact Nat.zero_le _
  · exact h

/-- The connection `c` is in the situation `s`, and the bytes `rest` are still to come.
Together with what it has not consumed they are the commands `cmds`, the last ones of
`all`; the others have been executed. -/
structure Awaits (M : Machine σ) (hL : M.lib.StrictString2ll) (all : List (List Bytes))
    (rest : Bytes) (c : Conn σ) (s : Expect) (cmds : List (List Bytes)) : Prop where
  rep : Rep c.rc s
  inBuffer : c.rc.InBuffer
  isOpen : c.rc.Open
  reqType : (c.rc.reqType = 0 ∧ s = .count) ∨ (c.rc.reqType = protoReqMultibulk ∧ cmds ≠ [])
  sendable : ∀ args ∈ cmds, Sendable args
  serves : M.backend.Serves c.rc.dbid cmds c.server
  calls : c.calls ++ cmds = all
  stream : Streams (multibulk M.lib hL c.rc.isMaster) s cmds (c.rc.unread ++ rest)

section Awaits

variable {hL : M.lib.StrictString2ll} {all : List (List Bytes)} {rest : Bytes} {c : Conn σ}
  {s : Expect} {cmds : List (List Bytes)}

theorem Awaits.deliver {chunk : Bytes} (h : Awaits M hL all (chunk ++ rest) c s cmds) :
    Awaits M hL all rest (deliver chunk c) s cmds := by
  have hunread : (LatteRedis.deliver chunk c).rc.unread = c.rc.unread ++ chunk :=
    List.drop_append_of_le_length h.inBuffer
  refine ⟨?_, ?_, h.isOpen, h.reqType, h.sendable, h.serves, h.calls, ?_⟩
  · exact h.rep.of_eq rfl rfl rfl rfl
  · exact h.inBuffer.deliver chunk
  · rw [hunread, List.append_assoc]
    exact h.stream

theorem Awaits.dropConsumed (h : Awaits M hL all rest c s cmds) (ret : Int) :
    Awaits M hL all rest (dropConsumed ret c) s cmds ∧
      (dropConsumed ret c).rc.unread = c.rc.unread := by
  unfold LatteRedis.dropConsumed
  split
  · refine ⟨⟨?_, Nat.zero_le _, h.isOpen, h.reqType, h.sendable, h.serves, h.calls, h.stream⟩, rfl⟩
    exact h.rep.of_eq rfl rfl rfl rfl
  · exact ⟨h, rfl⟩

/-- Nothing is missing when nothing more is to come and the decoder waits. -/
theorem Awaits.finished (h : Awaits M hL all [] c s cmds)
    (hwait : multibulkStep M.lib c.rc.isMaster s c.rc.unread = .more) :
    c.calls = all ∧ c.rc.IsReset ∧ c.rc.unread = [] := by
  have hstream := h.stream
  rw [List.append_nil] at hstream
  cases cmds with
  | nil =>
      obtain ⟨hreq, rfl⟩ : c.rc.reqType = 0 ∧ s = .count := by
        rcases h.reqType with hreq | ⟨-, hne⟩
        · exact hreq
        · exact absurd rfl hne
      obtain ⟨hmbl, hbl, hargc, -⟩ := h.rep
      refine ⟨?_, ⟨hreq, hargc, hmbl, hbl⟩, hstream⟩
      rw [← h.calls, List.append_nil]
  | cons args cmds =>
      cases hstream.1.det (.more hwait)

/-! ## One iteration -/

theorem parseRequest_multibulk (h : c.rc.reqType = protoReqMultibulk) {code : Int}
    {rc' : RedisClient} (hp : processMultibulkBuffer M.lib c.rc = .ok (code, rc')) :
    parseRequest M c = .ok (code, { c with rc := rc' }) := by
  unfold parseRequest
  rw [if_neg (by rw [h]; decide), if_pos h, hp]
  rfl

/-- The pending command is read with the multibulk parser. -/
theorem Awaits.selected {args : List Bytes} (h : Awaits M hL all rest c s (args :: cmds))
    (hu : c.rc.unread ≠ []) :
    c.selected.rc.reqType = protoReqMultibulk ∧
      (s = .count → ∀ b ∈ c.selected.rc.unread.head?, b = 42) := by
  refine selectReqType_streams ?_ h.stream hu
  exact h.reqType.imp_right And.left

/-- The parser waits in the middle of the pending command, or has read it. -/
theorem Awaits.parse {args : List Bytes} (h : Awaits M hL all rest c s (args :: cmds))
    (hu : c.rc.unread ≠ []) :
    (∃ s' c', parseRequest M c.selected = .ok (-1, c') ∧
        Awaits M hL all rest c' s' (args :: cmds) ∧
        multibulkStep M.lib c'.rc.isMaster s' c'.rc.unread = .more) ∨
      ∃ rc', parseRequest M c.selected = .ok (0, { c.selected with rc := rc' }) ∧
        c.selected.rc.ParsedInto rc' ∧ rc'.InBuffer ∧ rc'.Holds args ∧ rc'.argv ≠ .wild ∧
        rc'.unread ++ rest = encodeAll cmds := by
  obtain ⟨hreq, hstar⟩ := h.selected hu
  have hrep : Rep c.selected.rc s := h.rep.of_eq rfl rfl rfl rfl
  rcases processMultibulkBuffer_streams hrep h.inBuffer hstar h.stream with
    ⟨s', rc', hparse, hparsed, hq, hrep', hstream, hwait⟩ |
    ⟨rc', hparse, hparsed, hq, hloaded, hunread⟩
  · refine .inl ⟨s', _, parseRequest_multibulk hreq hparse, ⟨hrep', hq, ?_, ?_, h.sendable, ?_,
      h.calls, hstream⟩, hwait⟩
    · rw [hparsed]
      exact h.isOpen
    · right
      rw [hparsed]
      exact ⟨hreq, by simp⟩
    · rw [hparsed]
      exact h.serves
  · have hholds := hloaded.holds (h.sendable args (by simp)).ne_nil
    exact .inr ⟨rc', parseRequest_multibulk hreq hparse, hparsed, hq, hholds, hloaded.argv, hunread⟩

/-- An iteration waits for more bytes, or executes the pending command. -/
theorem Awaits.loopBody {args : List Bytes} (h : Awaits M hL all rest c s (args :: cmds))
    (hu : c.rc.unread ≠ []) :
    (∃ ret s' c', loopBody M c = .ok (.stop ret c') ∧
        Awaits M hL all rest c' s' (args :: cmds) ∧
        multibulkStep M.lib c'.rc.isMaster s' c'.rc.unread = .more) ∨
      ∃ c', loopBody M c = .ok (.again true c') ∧ Awaits M hL all rest c' .count cmds := by
  rw [loopBody_eq hu h.isOpen.1 h.isOpen.2]
  rcases h.parse hu with ⟨s', c', hparse, hawaits, hwait⟩ |
    ⟨rc', hparse, hparsed, hq, hholds, hargv, hunread⟩
  · rw [hparse]
    exact .inl ⟨_, s', c', rfl, hawaits, hwait⟩
  · right
    have hopen : rc'.Open := by
      rw [hparsed]
      exact h.isOpen
    have hserves : M.backend.Serves rc'.dbid (args :: cmds) c.server := by
      rw [hparsed]
      exact h.serves
    have hargc : rc'.argc ≠ 0 := by
      rw [hholds.1]
      have := List.length_pos_iff.mpr (h.sendable args (by simp)).ne_nil
      omega
    obtain ⟨server, reply, lastcmd, hserves', hexec⟩ :=
      processCommandAndResetClient_serves (c := { c.selected with rc := rc' }) hserves hholds hopen
    rw [hparse, Run.ok_bind]
    dsimp only
    rw [if_neg (by decide), if_neg hargc, hexec]
    refine ⟨_, rfl, ⟨rfl, rfl, rfl, hargv⟩, hq, hopen, .inl ⟨rfl, rfl⟩, ?_, hserves', ?_, ?_⟩
    · exact fun args' hargs' ↦ h.sendable args' (List.mem_cons_of_mem args hargs')
    · rw [← h.calls, List.append_assoc]
      rfl
    · show Streams _ .count cmds (rc'.unread ++ rest)
      rw [hunread]
      exact streams_encodeAll hL fun args' hargs' ↦
        h.sendable args' (List.mem_cons_of_mem args hargs')

/-! ## One call, and all reads -/

/-- With nothing to read the decoder waits. -/
theorem multibulkStep_nil (L : LatteC) (master : Bool) (s : Expect) :
    multibulkStep L master s [] = .more := by
  match s with
  | .count | .bulks n args none => rfl
  | .bulks n args (some l) =>
      show onArg n args l [] = .more
      rw [onArg, if_pos (by rw [List.length_nil]; omega)]

/-- With nothing to read the call returns. -/
theorem redisProcessInputBuffer_nil (hu : c.rc.unread = []) (fuel : Nat) :
    redisProcessInputBuffer M (fuel + 1) c = .returned (exitCode c.rc) c := by
  have hstop : LatteRedis.loopBody M c = .ok (.stop (exitCode c.rc) c) :=
    if_pos fun hlt ↦ unread_ne_nil_iff.mpr hlt hu
  rw [redisProcessInputBuffer, hstop]

/-- The call returns, at the latest when the pending commands have been executed.  The
induction is on these commands. -/
theorem Awaits.call (h : Awaits M hL all rest c s cmds) {fuel : Nat} (hfuel : cmds.length ≤ fuel) :
    ∃ ret c' s' cmds', redisProcessInputBuffer M (fuel + 1) c = .returned ret c' ∧
      cmds'.length ≤ fuel ∧ Awaits M hL all rest c' s' cmds' ∧
      multibulkStep M.lib c'.rc.isMaster s' c'.rc.unread = .more := by
  induction cmds generalizing c s fuel with
  | nil =>
      have hu : c.rc.unread = [] := (List.append_eq_nil_iff.mp h.stream).1
      refine ⟨_, c, s, [], redisProcessInputBuffer_nil hu fuel, hfuel, h, ?_⟩
      rw [hu]
      exact multibulkStep_nil _ _ s
  | cons args cmds ih =>
      by_cases hu : c.rc.unread = []
      · refine ⟨_, c, s, args :: cmds, redisProcessInputBuffer_nil hu fuel, hfuel, h, ?_⟩
        rw [hu]
        exact multibulkStep_nil _ _ s
      · rcases h.loopBody hu with ⟨ret, s', c', hbody, hawaits, hwait⟩ | ⟨c', hbody, hawaits⟩
        · refine ⟨ret, c', s', args :: cmds, ?_, hfuel, hawaits, hwait⟩
          rw [redisProcessInputBuffer, hbody]
        · obtain ⟨fuel, rfl⟩ : ∃ n, fuel = n + 1 := Nat.exists_eq_add_one.mpr (by
            rw [List.length_cons] at hfuel
            omega)
          obtain ⟨ret, c'', s', cmds', hcall, hle, hrest⟩ :=
            ih hawaits (Nat.le_of_succ_le_succ hfuel)
          refine ⟨ret, c'', s', cmds', ?_, Nat.le_succ_of_le hle, hrest⟩
          rw [redisProcessInputBuffer, hbody]
          exact hcall

/-- The reads are served one after the other. -/
theorem Awaits.reads {reads : List Bytes} (h : Awaits M hL all reads.flatten c s cmds)
    (hwait : multibulkStep M.lib c.rc.isMaster s c.rc.unread = .more) {fuel : Nat}
    (hfuel : cmds.length ≤ fuel) :
    ∃ c' s' cmds', serveReads M (fuel + 1) reads c = .returned 0 c' ∧
      Awaits M hL all [] c' s' cmds' ∧
      multibulkStep M.lib c'.rc.isMaster s' c'.rc.unread = .more := by
  induction reads generalizing c s cmds with
  | nil => exact ⟨c, s, cmds, rfl, h, hwait⟩
  | cons chunk reads ih =>
      rw [List.flatten_cons] at h
      obtain ⟨ret, c', s', cmds', hcall, hle, hawaits, hwait'⟩ := h.deliver.call hfuel
      obtain ⟨hawaits', hunread⟩ := hawaits.dropConsumed ret
      have hmaster : (LatteRedis.dropConsumed ret c').rc.isMaster = c'.rc.isMaster := by
        unfold LatteRedis.dropConsumed
        split <;> rfl
      obtain ⟨c'', s'', cmds'', hserve, hrest⟩ :=
        ih hawaits' (by rw [hunread, hmaster]; exact hwait') hle
      refine ⟨c'', s'', cmds'', ?_, hrest⟩
      rw [serveReads, serveRead, hcall]
      exact hserve

end Awaits

/-- **Decoding undoes encoding for whole pipelines.**  However the encodings of the
commands are cut into reads, a server whose handlers return calls them once for each
command, in order and with its arguments, and leaves a reset client with no unread bytes. -/
theorem serveReads_pipeline {M : Machine σ} (hL : M.lib.StrictString2ll) {c : Conn σ}
    (hreset : c.rc.IsReset) (hargv : c.rc.argv ≠ .wild) (hempty : c.rc.qbPos = c.rc.querybuf.length)
    (hopen : c.rc.Open) {cmds : List (List Bytes)} (hcmds : ∀ args ∈ cmds, Sendable args)
    (hserves : M.backend.Serves c.rc.dbid cmds c.server) {reads : List Bytes}
    (hreads : reads.flatten = encodeAll cmds) {fuel : Nat} (hfuel : cmds.length ≤ fuel) :
    ∃ c', serveReads M (fuel + 1) reads c = .returned 0 c' ∧ c'.calls = c.calls ++ cmds ∧
      c'.rc.IsReset ∧ c'.rc.unread = [] := by
  obtain ⟨hreq, hargc, hmbl, hbl⟩ := hreset
  have hunread : c.rc.unread = [] := by rw [RedisClient.unread, hempty, List.drop_length]
  have hawaits : Awaits M hL (c.calls ++ cmds) reads.flatten c .count cmds := by
    refine ⟨⟨hmbl, hbl, hargc, hargv⟩, hempty.le, hopen, .inl ⟨hreq, rfl⟩, hcmds, hserves, rfl, ?_⟩
    rw [hunread, List.nil_append, hreads]
    exact streams_encodeAll hL hcmds
  obtain ⟨c', s', cmds', hserve, hawaits', hwait⟩ :=
    hawaits.reads (by rw [hunread]; exact multibulkStep_nil _ _ _) hfuel
  exact ⟨c', hserve, hawaits'.finished hwait⟩

end LatteRedis
