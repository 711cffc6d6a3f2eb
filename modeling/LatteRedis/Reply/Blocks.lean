import LatteRedis.Foundation.Resp
import LatteRedis.Foundation.Run
import LatteRedis.Library

/-!
# Replies (`client_reply.c`, `shared.c`)

A client's output is a list of blocks.  `add_reply_proto` extends it at the end; a
reply whose length is only known afterwards leaves a `NULL` node behind, which
`set_deferred_reply` later fills, merges into the block in front of it, or splices
into the block behind it.

`stream` is the byte stream the list stands for.  Each reply function has one
`stream_…` lemma saying which bytes it puts where; nothing else about the blocks is
used outside this file.
-/

namespace LatteRedis

open ByteString

/-- `client.reply` and `reply_bytes`. -/
structure ReplyBuf where
  list : ReplyList := []
  replyBytes : Nat := 0
deriving DecidableEq, Repr

/-- The bytes a reply list stands for; a `NULL` node stands for none. -/
def stream (l : ReplyList) : Bytes := l.flatMap fun n ↦ (n.map ReplyBlock.buf).getD []

@[simp] theorem stream_nil : stream [] = [] := rfl

@[simp] theorem stream_append (l m : ReplyList) : stream (l ++ m) = stream l ++ stream m :=
  List.flatMap_append

@[simp] theorem stream_cons_none (l : ReplyList) : stream (none :: l) = stream l := rfl

@[simp] theorem stream_cons_some (b : ReplyBlock) (l : ReplyList) :
    stream (some b :: l) = b.buf ++ stream l := rfl

@[simp] theorem stream_map_some (bs : List ReplyBlock) : stream (bs.map some) = blockBytes bs := by
  induction bs with
  | nil => rfl
  | cons b bs ih => simp [blockBytes, ih]

namespace ReplyBuf

/-- The bytes queued for the client. -/
def out (r : ReplyBuf) : Bytes := stream r.list

end ReplyBuf

variable (L : LatteC)

/-! ## Appending -/

def addReplyProto (r : ReplyBuf) (s : Bytes) : ReplyBuf :=
  { r with list := L.addReplyProto r.list s }

/-- `s` without its NUL is `err`, so its length is `strlen(err)`. -/
def addReplyErrorLength (r : ReplyBuf) (s : Bytes) : ReplyBuf :=
  -- the caller may bring its own error code
  let r := if s.head? = some 45 then r else addReplyProto L r (ascii "-ERR ")
  addReplyProto L (addReplyProto L r s) crlf

def addReplyError (r : ReplyBuf) (err : String) : ReplyBuf := addReplyErrorLength L r (ascii err)

/-- `s` is the formatted text. -/
def addReplyErrorFormat (r : ReplyBuf) (s : Bytes) : ReplyBuf :=
  addReplyErrorLength L r (sdsMapNewlines (sdsTrimNewlines s))

def addReply (r : ReplyBuf) (o : LatteObject) : ReplyBuf :=
  match o.encoding with
  | .raw s => addReplyProto L r s
  | .embstr s => addReplyProto L r (L.embstrSds s)
  | .int n => addReplyProto L r (decimal n)

/-- The objects of `init_shared_objects`. -/
def sharedCrlf : LatteObject := latteObjectNew crlf
@[inherit_doc sharedCrlf] def sharedOk : LatteObject := latteObjectNew (ascii "+OK" ++ crlf)
@[inherit_doc sharedCrlf] def sharedPong : LatteObject := latteObjectNew (ascii "+PONG" ++ crlf)
@[inherit_doc sharedCrlf] def sharedWrongtypeerr : LatteObject :=
  latteObjectNew (ascii "-WRONGTYPE Operation against a key holding the wrong kind of value" ++ crlf)
@[inherit_doc sharedCrlf] def sharedMbulkhdr (j : Int) : LatteObject :=
  latteObjectNew (42 :: decimal j ++ crlf)
@[inherit_doc sharedCrlf] def sharedBulkhdr (j : Int) : LatteObject :=
  latteObjectNew (36 :: decimal j ++ crlf)

/-- `OBJ_SHARED_BULKHDR_LEN`. -/
def objSharedBulkhdrLen : Int := 32

def addReplyLongLongWithPrefix (r : ReplyBuf) (ll : Int) (pre : UInt8) : ReplyBuf :=
  if pre = 42 ∧ ll < objSharedBulkhdrLen ∧ 0 ≤ ll then addReply L r (sharedMbulkhdr ll)
  else if pre = 36 ∧ ll < objSharedBulkhdrLen ∧ 0 ≤ ll then addReply L r (sharedBulkhdr ll)
  else addReplyProto L r (pre :: decimal ll ++ crlf)

def addReplyBulkLen (r : ReplyBuf) (o : LatteObject) : ReplyBuf :=
  addReplyLongLongWithPrefix L r o.content.length 36

def addReplyBulk (r : ReplyBuf) (o : LatteObject) : ReplyBuf :=
  addReply L (addReply L (addReplyBulkLen L r o) o) sharedCrlf

def addReplyStatusLength (r : ReplyBuf) (s : Bytes) : ReplyBuf :=
  addReplyProto L (addReplyProto L (addReplyProto L r [43]) s) crlf

/-! ## Deferred lengths -/

/-- The tail block is cut down when more than a quarter of it is unused. -/
def trimReplyUnusedTailSpace (r : ReplyBuf) : ReplyBuf :=
  match r.list.getLast? with
  | some (some tail) =>
      if usub tail.size tail.buf.length > tail.size / 4 ∧
          tail.buf.length < L.protoReplyChunkBytes then
        let size := usub (L.zmallocUsableSize (tail.buf.length + L.sizeofReplyBlock))
          L.sizeofReplyBlock
        { list := r.list.dropLast ++ [some { tail with size := size }]
          replyBytes := (r.replyBytes + size + (2 ^ 64 - tail.size)) % 2 ^ 64 }
      else r
  | _ => r

/-- Returns the position of the new `NULL` node. -/
def addReplyDeferredLen (r : ReplyBuf) : ReplyBuf × Nat :=
  let r := trimReplyUnusedTailSpace L r
  ({ r with list := r.list ++ [none] }, r.list.length)

/-- The second half of `set_deferred_reply`: the text goes in front of the next block
when that has room, and into a block of its own otherwise. -/
def setDeferredNext (r : ReplyBuf) (pre post : ReplyList) (s : Bytes) : ReplyBuf :=
  let newNode : ReplyBuf :=
    let size := usub (L.zmallocUsableSize (s.length + L.sizeofReplyBlock)) L.sizeofReplyBlock
    { list := pre ++ some { size := size, buf := s } :: post
      replyBytes := (r.replyBytes + size) % 2 ^ 64 }
  match post with
  | some next :: post' =>
      if s.length ≤ usub next.size next.buf.length ∧
          next.buf.length < L.protoReplyChunkBytes * 4 then
        { r with list := pre ++ some { next with buf := s ++ next.buf } :: post' }
      else newNode
  | _ => newNode

def setDeferredReply (r : ReplyBuf) (node : Nat) (s : Bytes) : Except Fault ReplyBuf :=
  match r.list[node]? with
  | some none =>
      let pre := r.list.take node
      let post := r.list.drop (node + 1)
      match pre.getLast? with
      | some (some prev) =>
          if usub prev.size prev.buf.length > 0 then
            let lenToCopy := min (usub prev.size prev.buf.length) s.length
            let pre' := pre.dropLast ++ [some { prev with buf := prev.buf ++ s.take lenToCopy }]
            if s.length - lenToCopy = 0 then .ok { r with list := pre' ++ post }
            else .ok (setDeferredNext L r pre' post (s.drop lenToCopy))
          else .ok (setDeferredNext L r pre post s)
      | _ => .ok (setDeferredNext L r pre post s)
  | some (some _) => .error (.assertion "!list_node_value(ln)")
  | none => .error .badPointer

def setDeferredAggregateLen (r : ReplyBuf) (node : Nat) (length : Int) (pre : UInt8) :
    Except Fault ReplyBuf :=
  if length < 0 then .error (.assertion "length >= 0")
  else setDeferredReply L r node (pre :: decimal length ++ crlf)

def setDeferredArrayLen (r : ReplyBuf) (node : Nat) (length : Int) : Except Fault ReplyBuf :=
  setDeferredAggregateLen L r node length 42

/-- The header line of a help reply, for the command name as the client typed it. -/
def helpHeader (cmd : Bytes) : Bytes :=
  (cString cmd).map upper ++
    ascii " <subcommand> [<arg> [value] [opt] ...]. Subcommands are:"

/-- The loop of `add_reply_help` over the strings from `help[blen]` on.  `blen` is an
`int`, and one that has become negative points in front of the array. -/
def addReplyHelpLines (r : ReplyBuf) (help : List Bytes) (blen : Int) :
    Except Fault (ReplyBuf × Int) :=
  if blen < 0 then .error .badPointer
  else match help with
  | [] => .ok (r, blen)
  | s :: help => addReplyHelpLines (addReplyStatusLength L r s) help (wrap32 (blen + 1))

def addReplyHelp (r : ReplyBuf) (cmd : Bytes) (help : List Bytes) : Except Fault ReplyBuf := do
  let (r, blenp) := addReplyDeferredLen L r
  let r := addReplyStatusLength L r (helpHeader cmd)
  let (r, blen) ← addReplyHelpLines L r help 0
  let r := addReplyStatusLength L r (ascii "HELP")
  let r := addReplyStatusLength L r (ascii "   Prints this help.")
  -- the header, then the footer
  setDeferredArrayLen L r blenp (wrap32 (wrap32 (blen + 1) + 2))

/-! ## What the appending functions put on the stream -/

variable {L}

/-- `r` is the list `l`, which is empty or ends in a `NULL` node, followed by blocks
that hold `s`. -/
def GrownFrom (l : ReplyList) (r : ReplyBuf) (s : Bytes) : Prop :=
  ∃ bs : List ReplyBlock, r.list = l ++ bs.map some ∧ blockBytes bs = s

/-- Every reply list is a `NULL`-ended prefix followed by blocks. -/
theorem exists_grownFrom (r : ReplyBuf) :
    ∃ l s, (l = [] ∨ l.getLast? = some none) ∧ GrownFrom l r s := by
  obtain ⟨list, n⟩ := r
  induction list using List.reverseRecOn with
  | nil => exact ⟨[], [], .inl rfl, [], rfl, rfl⟩
  | append_singleton xs x ih =>
      cases x with
      | none => exact ⟨xs ++ [none], [], .inr (by simp), [], by simp, rfl⟩
      | some b =>
          obtain ⟨l, s, hl, bs, heq, hs⟩ := ih
          refine ⟨l, s ++ b.buf, hl, bs ++ [b], ?_, ?_⟩
          · simp only at heq
            simp [heq]
          · simp [blockBytes, ← hs]

theorem GrownFrom.out {l : ReplyList} {r : ReplyBuf} {s : Bytes} (h : GrownFrom l r s) :
    r.out = stream l ++ s := by
  obtain ⟨bs, heq, rfl⟩ := h
  rw [ReplyBuf.out, heq, stream_append, stream_map_some]

theorem GrownFrom.proto (hL : L.AppendsProto) {l : ReplyList} (hl : l = [] ∨ l.getLast? = some none)
    {r : ReplyBuf} {s : Bytes} (h : GrownFrom l r s) (t : Bytes) :
    GrownFrom l (addReplyProto L r t) (s ++ t) := by
  obtain ⟨bs, heq, rfl⟩ := h
  obtain ⟨bs', heq', hs'⟩ := hL l bs t hl
  exact ⟨bs', by rw [addReplyProto, heq]; exact heq', hs'⟩

@[simp] theorem out_addReplyProto (hL : L.AppendsProto) (r : ReplyBuf) (s : Bytes) :
    (addReplyProto L r s).out = r.out ++ s := by
  obtain ⟨l, t, hl, h⟩ := exists_grownFrom r
  rw [(h.proto hL hl s).out, h.out, List.append_assoc]

/-- The bytes of an error reply. -/
def errorLine (s : Bytes) : Bytes :=
  (if s.head? = some 45 then [] else ascii "-ERR ") ++ s ++ crlf

theorem out_addReplyErrorLength (hL : L.AppendsProto) (r : ReplyBuf) (s : Bytes) :
    (addReplyErrorLength L r s).out = r.out ++ errorLine s := by
  unfold addReplyErrorLength errorLine
  split <;> simp [hL]

/-- The bytes `add_reply` sends for an object. -/
def LatteC.objectBytes (L : LatteC) (o : LatteObject) : Bytes :=
  match o.encoding with
  | .raw s => s
  | .embstr s => L.embstrSds s
  | .int n => decimal n

theorem out_addReply (hL : L.AppendsProto) (r : ReplyBuf) (o : LatteObject) :
    (addReply L r o).out = r.out ++ L.objectBytes o := by
  unfold addReply LatteC.objectBytes
  cases o.encoding <;> simp [hL]

theorem objectBytes_latteObjectNew (s : Bytes) : L.objectBytes (latteObjectNew s) = s := rfl

/-- The shared headers are what the formatter would print. -/
theorem out_addReplyLongLongWithPrefix (hL : L.AppendsProto) (r : ReplyBuf) (ll : Int)
    (pre : UInt8) : (addReplyLongLongWithPrefix L r ll pre).out =
      r.out ++ (pre :: decimal ll ++ crlf) := by
  unfold addReplyLongLongWithPrefix
  split
  · next h => rw [out_addReply hL, sharedMbulkhdr, objectBytes_latteObjectNew, h.1]
  · split
    · next h => rw [out_addReply hL, sharedBulkhdr, objectBytes_latteObjectNew, h.1]
    · exact out_addReplyProto hL r _

theorem out_addReplyBulk (hL : L.AppendsProto) (r : ReplyBuf) (o : LatteObject) :
    (addReplyBulk L r o).out =
      r.out ++ (36 :: decimal o.content.length ++ crlf ++ L.objectBytes o ++ crlf) := by
  unfold addReplyBulk addReplyBulkLen
  rw [out_addReply hL, out_addReply hL, out_addReplyLongLongWithPrefix hL, sharedCrlf,
    objectBytes_latteObjectNew]
  simp only [List.append_assoc]

/-- The bytes of a status reply. -/
def statusLine (s : Bytes) : Bytes := 43 :: s ++ crlf

theorem GrownFrom.status (hL : L.AppendsProto) {l : ReplyList}
    (hl : l = [] ∨ l.getLast? = some none) {r : ReplyBuf} {s : Bytes} (h : GrownFrom l r s)
    (t : Bytes) : GrownFrom l (addReplyStatusLength L r t) (s ++ statusLine t) := by
  have h₃ := ((h.proto hL hl [43]).proto hL hl t).proto hL hl crlf
  simpa [addReplyStatusLength, statusLine] using h₃

theorem GrownFrom.statuses (hL : L.AppendsProto) {l : ReplyList}
    (hl : l = [] ∨ l.getLast? = some none) (help : List Bytes) {r : ReplyBuf} {s : Bytes}
    (h : GrownFrom l r s) :
    GrownFrom l (help.foldl (addReplyStatusLength L) r) (s ++ help.flatMap statusLine) := by
  induction help generalizing r s with
  | nil => simpa using h
  | cons t ts ih =>
      rw [List.foldl_cons, List.flatMap_cons, ← List.append_assoc]
      exact ih (h.status hL hl t)

/-! ## What filling a deferred length puts on the stream -/

@[simp] theorem out_trimReplyUnusedTailSpace (r : ReplyBuf) :
    (trimReplyUnusedTailSpace L r).out = r.out := by
  unfold trimReplyUnusedTailSpace
  split
  · next tail htail =>
      split
      · have hlist : r.list = r.list.dropLast ++ [some tail] := by
          have hne : r.list ≠ [] := by
            intro h
            rw [h] at htail
            cases htail
          rw [List.getLast?_eq_some_getLast hne] at htail
          conv_lhs => rw [← List.dropLast_concat_getLast hne]
          rw [Option.some.inj htail]
        rw [ReplyBuf.out, ReplyBuf.out, stream_append]
        conv_rhs => rw [hlist, stream_append]
        simp
      · rfl
  · rfl

theorem out_setDeferredNext (r : ReplyBuf) (pre post : ReplyList) (s : Bytes) :
    (setDeferredNext L r pre post s).out = stream pre ++ s ++ stream post := by
  unfold setDeferredNext
  split
  · split <;> simp [ReplyBuf.out]
  · simp [ReplyBuf.out]

/-- What filling a node does to the list in front of it: nothing, or its last block takes
as many bytes of the text as it has room for. -/
inductive TakenInFront (s : Bytes) : ReplyList → ReplyList → Nat → Prop
  | none (pre : ReplyList) : TakenInFront s pre pre 0
  | prev (front : ReplyList) (prev : ReplyBlock) :
      TakenInFront s (front ++ [some prev])
        (front ++ [some { prev with
          buf := prev.buf ++ s.take (min (usub prev.size prev.buf.length) s.length) }])
        (min (usub prev.size prev.buf.length) s.length)

theorem TakenInFront.stream {s : Bytes} {pre pre' : ReplyList} {k : Nat}
    (h : TakenInFront s pre pre' k) : stream pre' = stream pre ++ s.take k := by
  cases h with
  | none => simp
  | prev front prev => simp

/-- The text is taken in front up to some byte, and what is left of it goes on to the
next block; if nothing is left the node is removed. -/
theorem setDeferredReply_cases (r : ReplyBuf) {node : Nat} (hnode : r.list[node]? = some none)
    (s : Bytes) :
    ∃ pre' k, TakenInFront s (r.list.take node) pre' k ∧
      (setDeferredReply L r node s =
          .ok (setDeferredNext L r pre' (r.list.drop (node + 1)) (s.drop k)) ∨
        s.drop k = [] ∧
          setDeferredReply L r node s = .ok { r with list := pre' ++ r.list.drop (node + 1) }) := by
  unfold setDeferredReply
  simp only [hnode]
  generalize r.list.take node = pre
  cases hprev : pre.getLast? with
  | none => exact ⟨_, _, .none pre, .inl rfl⟩
  | some last =>
      cases last with
      | none => exact ⟨_, _, .none pre, .inl rfl⟩
      | some prev =>
          obtain ⟨front, rfl⟩ : ∃ front, pre = front ++ [some prev] :=
            List.getLast?_eq_some_iff.mp hprev
          simp only [List.dropLast_concat]
          split
          · refine ⟨_, _, .prev front prev, ?_⟩
            split
            · next hzero =>
                refine .inr ⟨?_, rfl⟩
                rw [← List.length_eq_zero_iff, List.length_drop, hzero]
            · exact .inl rfl
          · exact ⟨_, _, .none _, .inl rfl⟩

/-- Filling a `NULL` node puts the text between the bytes in front of it and those
behind it. -/
theorem setDeferredReply_ok {r : ReplyBuf} {node : Nat} (hnode : r.list[node]? = some none)
    (s : Bytes) :
    ∃ r', setDeferredReply L r node s = .ok r' ∧
      r'.out = stream (r.list.take node) ++ s ++ stream (r.list.drop (node + 1)) := by
  obtain ⟨pre', k, htaken, hok | ⟨hend, hok⟩⟩ := setDeferredReply_cases (L := L) r hnode s
  · refine ⟨_, hok, ?_⟩
    rw [out_setDeferredNext, htaken.stream, List.append_assoc (stream _), List.take_append_drop]
  · refine ⟨_, hok, ?_⟩
    have hall : s.take k = s := by
      conv_rhs => rw [← List.take_append_drop k s, hend, List.append_nil]
    rw [ReplyBuf.out, stream_append, htaken.stream, hall]

/-! ## Help replies -/

/-- Line terminators have no upper case. -/
theorem upper_eq_newline (b : UInt8) : (upper b = CR → b = CR) ∧ (upper b = LF → b = LF) := by
  unfold upper CR LF
  grind

theorem helpHeader_clean {cmd : Bytes} (hcmd : CR ∉ cmd ∧ LF ∉ cmd) :
    CR ∉ helpHeader cmd ∧ LF ∉ helpHeader cmd := by
  have htail : CR ∉ ascii " <subcommand> [<arg> [value] [opt] ...]. Subcommands are:" ∧
      LF ∉ ascii " <subcommand> [<arg> [value] [opt] ...]. Subcommands are:" := by decide
  have hname : ∀ b ∈ (cString cmd).map upper, b ≠ CR ∧ b ≠ LF := by
    intro b hb
    obtain ⟨a, ha, rfl⟩ := List.mem_map.mp hb
    have ha : a ∈ cmd := (List.takeWhile_sublist _).subset ha
    constructor
    · intro h
      exact hcmd.1 ((upper_eq_newline a).1 h ▸ ha)
    · intro h
      exact hcmd.2 ((upper_eq_newline a).2 h ▸ ha)
  unfold helpHeader
  simp only [List.mem_append, not_or]
  exact ⟨⟨fun h ↦ (hname _ h).1 rfl, htail.1⟩, fun h ↦ (hname _ h).2 rfl, htail.2⟩

/-- As long as the counter does not overflow it counts the strings. -/
theorem addReplyHelpLines_ok (help : List Bytes) (r : ReplyBuf) {blen : Int} (h₀ : 0 ≤ blen)
    (hlen : blen + help.length < 2 ^ 31) :
    addReplyHelpLines L r help blen =
      .ok (help.foldl (addReplyStatusLength L) r, blen + help.length) := by
  induction help generalizing r blen with
  | nil => simp [addReplyHelpLines, Int.not_lt.mpr h₀]
  | cons s help ih =>
      rw [List.length_cons, Nat.cast_succ] at hlen
      have hnext : wrap32 (blen + 1) = blen + 1 := wrap32_eq_self_iff.mpr (by omega)
      rw [addReplyHelpLines, if_neg (Int.not_lt.mpr h₀)]
      simp only [hnext]
      rw [ih _ (by omega) (by omega), List.foldl_cons, List.length_cons, Nat.cast_succ,
        Int.add_assoc, Int.add_comm 1]

section Count

variable {help : List Bytes} (hlen : help.length + 3 < 2 ^ 31)
include hlen

theorem helpCount_range : (0 : Int) + help.length < 2 ^ 31 := by
  omega

/-- The header and the footer are counted without overflow. -/
theorem helpCount : wrap32 (wrap32 ((0 : Int) + help.length + 1) + 2) = help.length + 1 + 2 := by
  have hheader : wrap32 ((0 : Int) + help.length + 1) = help.length + 1 := by
    rw [Int.zero_add]
    exact wrap32_eq_self_iff.mpr (by omega)
  rw [hheader]
  exact wrap32_eq_self_iff.mpr (by omega)

end Count

theorem helpCount_nonneg (help : List Bytes) : (0 : Int) ≤ help.length + 1 + 2 := by
  omega

theorem setDeferredArrayLen_of_nonneg {r : ReplyBuf} {node : Nat} {length : Int}
    (h : 0 ≤ length) : setDeferredArrayLen L r node length =
      setDeferredReply L r node (42 :: decimal length ++ crlf) :=
  if_neg (Int.not_lt.mpr h)

theorem addReplyHelp_eq {r : ReplyBuf} {cmd : Bytes} {help : List Bytes} {p : ReplyBuf × Int}
    (h : addReplyHelpLines L (addReplyStatusLength L (addReplyDeferredLen L r).1 (helpHeader cmd))
      help 0 = .ok p) :
    addReplyHelp L r cmd help =
      setDeferredArrayLen L
        (addReplyStatusLength L (addReplyStatusLength L p.1 (ascii "HELP"))
          (ascii "   Prints this help."))
        (addReplyDeferredLen L r).2 (wrap32 (wrap32 (p.2 + 1) + 2)) := by
  unfold addReplyHelp
  dsimp only
  rw [h, Run.ok_bind]

/-- **A help reply is one array**: the deferred header ends up in front of the lines
that were appended after it. -/
theorem addReplyHelp_ok (hL : L.AppendsProto) (r : ReplyBuf) (cmd : Bytes) {help : List Bytes}
    (hlen : help.length + 3 < 2 ^ 31) :
    ∃ r', addReplyHelp L r cmd help = .ok r' ∧
      r'.out = r.out ++ ((42 :: decimal (help.length + 1 + 2) ++ crlf) ++
        (helpHeader cmd :: help ++ [ascii "HELP", ascii "   Prints this help."]).flatMap
          statusLine) := by
  obtain ⟨rt, hrt⟩ : ∃ rt, trimReplyUnusedTailSpace L r = rt := ⟨_, rfl⟩
  have hout : rt.out = r.out := by rw [← hrt, out_trimReplyUnusedTailSpace]
  have hl : rt.list ++ [none] = [] ∨ (rt.list ++ [none]).getLast? = some none := .inr (by simp)
  have h₀ : GrownFrom (rt.list ++ [none]) { rt with list := rt.list ++ [none] } [] :=
    ⟨[], by simp, rfl⟩
  have h := (((h₀.status hL hl (helpHeader cmd)).statuses hL hl help).status hL hl
    (ascii "HELP")).status hL hl (ascii "   Prints this help.")
  obtain ⟨bs, heq, hbytes⟩ := h
  rw [addReplyHelp_eq (addReplyHelpLines_ok help _ le_rfl (helpCount_range hlen)), helpCount hlen,
    setDeferredArrayLen_of_nonneg (helpCount_nonneg help)]
  unfold addReplyDeferredLen
  simp only [hrt]
  generalize hr₁ : addReplyStatusLength L _ (ascii "   Prints this help.") = r₁ at heq ⊢
  rw [List.append_assoc, List.singleton_append] at heq
  have hnode : r₁.list[rt.list.length]? = some none := by
    rw [heq]
    simp
  obtain ⟨r', hok, hr'⟩ := setDeferredReply_ok (L := L) hnode
    (42 :: decimal (help.length + 1 + 2) ++ crlf)
  refine ⟨r', hok, ?_⟩
  have hpre : stream (r₁.list.take rt.list.length) = r.out := by
    rw [heq, List.take_left]
    exact hout
  have hpost : r₁.list.drop (rt.list.length + 1) = bs.map some := by
    rw [heq, List.drop_append]
    simp
  rw [hr', hpre, hpost, stream_map_some, hbytes]
  simp

/-! ## Strings come back -/

/-- A string in a reply is its length and its content, a client that reads it gets the
content and goes on behind it, and the numbers in headers are printed in full. -/
structure BulkRoundTrips (L : LatteC) (o : LatteObject) : Prop where
  sent : ∀ r : ReplyBuf, (addReplyBulk L r o).out =
    r.out ++ (36 :: decimal o.content.length ++ crlf ++ o.content ++ crlf)
  read : ∀ (r : ReplyBuf) (rest : Bytes),
    Resp.readBulk ((addReplyBulk L r o).out.drop r.out.length ++ rest) = some (o.content, rest)
  header : ∀ (r : ReplyBuf) (n : Int), -2 ^ 63 ≤ n → n < 2 ^ 63 → ∀ pre ∈ [42, 36, 58],
    (addReplyLongLongWithPrefix L r n pre).out = r.out ++ (pre :: decimal n ++ crlf)

/-- What is sent for an object is its content unless the object is an `EMBSTR` one whose
length `sds_len` gets wrong. -/
theorem objectBytes_eq_content_iff {o : LatteObject} :
    L.objectBytes o = o.content ↔ ∀ s, o.encoding = .embstr s → L.embstrSds s = s := by
  unfold LatteC.objectBytes LatteObject.content Encoding.content
  cases o.encoding <;> simp

/-- **Bulk replies.**  A string comes back exactly if it is no `EMBSTR` object, or
`sds_len` happens to find its length. -/
theorem bulkRoundTrips_iff (hL : L.AppendsProto) (o : LatteObject) :
    BulkRoundTrips L o ↔ ∀ s, o.encoding = .embstr s → L.embstrSds s = s := by
  rw [← objectBytes_eq_content_iff]
  constructor
  · intro h
    have hsent := h.sent {}
    rw [out_addReplyBulk hL] at hsent
    exact List.append_cancel_left (List.append_cancel_right (List.append_cancel_left hsent))
  · intro hbytes
    have hsent : ∀ r : ReplyBuf, (addReplyBulk L r o).out = r.out ++ Resp.bulk o.content := by
      intro r
      rw [out_addReplyBulk hL, hbytes]
      rfl
    refine ⟨hsent, ?_, fun r n _ _ pre _ ↦ out_addReplyLongLongWithPrefix hL r n pre⟩
    intro r rest
    rw [hsent, List.drop_left]
    exact Resp.readBulk_eq_some_iff.mpr rfl

/-- A number is no `EMBSTR` object. -/
theorem bulkRoundTrips_iff_int : BulkRoundTrips LatteC.sample { encoding := .int 42 } := by
  refine (bulkRoundTrips_iff LatteC.sample_appends { encoding := .int 42 }).mpr ?_
  rintro s ⟨⟩

/-- A library in which the byte in front of inline data is zero, as it is in the header of
an empty sds. -/
def LatteC.zeroBeforeInline : LatteC := { LatteC.sample with embstrSds := fun _ ↦ [] }

/-- The length announces a byte, and none comes. -/
theorem not_bulkRoundTrips_embstr :
    ¬BulkRoundTrips LatteC.zeroBeforeInline { encoding := .embstr (ascii "v") } := by
  intro h
  exact absurd (h.read {} (ascii "+OK" ++ crlf)) (by decide)

end LatteRedis
