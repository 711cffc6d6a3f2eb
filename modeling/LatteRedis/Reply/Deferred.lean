import LatteRedis.Reply.Blocks

/-!
# Deferred replies (`client_reply.c`)

A reply list is the bytes the client will read, cut into blocks, with `NULL` nodes where
something is still to come.  Filling such a node may put its text into the block in
front, into the block behind, into a block of its own, or into two of them.
`setDeferredReply_fills` says that none of this shows: the text stands where the node
stood, the other nodes are where they were, and no block is overrun.

A help reply is the one place of the server that uses this.  Its counter is an `int`, and
`readsAsHelp_iff` says how far it carries.
-/

namespace LatteRedis

open ByteString

variable {L : LatteC}

/-! ## Filling a placeholder -/

/-- `zmalloc_usable_size` is at least what was asked for. -/
def LatteC.UsableCovers (L : LatteC) : Prop := ∀ n, n ≤ L.zmallocUsableSize n

/-- No block uses more than its size. -/
def BlocksFit (l : ReplyList) : Prop := ∀ b, some b ∈ l → b.buf.length ≤ b.size

theorem blocksFit_append {l m : ReplyList} :
    BlocksFit (l ++ m) ↔ BlocksFit l ∧ BlocksFit m := by
  unfold BlocksFit
  constructor
  · intro h
    exact ⟨fun b hb ↦ h b (List.mem_append_left m hb), fun b hb ↦ h b (List.mem_append_right l hb)⟩
  · rintro ⟨hl, hm⟩ b hb
    exact (List.mem_append.mp hb).elim (hl b) (hm b)

theorem blocksFit_cons {b : ReplyBlock} {l : ReplyList} :
    BlocksFit (some b :: l) ↔ b.buf.length ≤ b.size ∧ BlocksFit l := by
  unfold BlocksFit
  constructor
  · intro h
    exact ⟨h b List.mem_cons_self, fun c hc ↦ h c (List.mem_cons_of_mem _ hc)⟩
  · rintro ⟨hb, hl⟩ c hc
    rcases List.mem_cons.mp hc with hc | hc
    · cases hc
      exact hb
    · exact hl c hc

/-- Which nodes of a list are `NULL`. -/
def placeholders (l : ReplyList) : List Bool := l.map Option.isNone

/-- `l` is the list with `s` in place of the `NULL` node between `pre` and `post`. -/
structure FilledAt (pre post : ReplyList) (s : Bytes) (l : ReplyList) : Prop where
  bytes : stream l = stream pre ++ s ++ stream post
  fits : BlocksFit l
  /-- The node is gone or holds a block.  Of the other nodes at most its two neighbours have
  changed, and they are blocks if they were. -/
  nodes : ∃ (pre' post' : ReplyList) (here : Option ReplyBlock),
    l = pre' ++ here.toList.map some ++ post' ∧
      placeholders pre' = placeholders pre ∧ pre'.dropLast = pre.dropLast ∧
      placeholders post' = placeholders post ∧ post'.tail = post.tail

/-- What went into the block in front may be counted as part of the text. -/
theorem FilledAt.of_taken {pre pre' post l : ReplyList} {s : Bytes} {k : Nat}
    (htaken : TakenInFront s pre pre' k) (h : FilledAt pre' post (s.drop k) l) :
    FilledAt pre post s l := by
  have hpre : placeholders pre' = placeholders pre ∧ pre'.dropLast = pre.dropLast := by
    cases htaken with
    | none => exact ⟨rfl, rfl⟩
    | prev front prev => simp [placeholders]
  refine ⟨?_, h.fits, ?_⟩
  · rw [h.bytes, htaken.stream, List.append_assoc (stream pre), List.take_append_drop]
  · rw [← hpre.1, ← hpre.2]
    exact h.nodes

/-- The block in front takes no more than it has room for. -/
theorem TakenInFront.fits {pre pre' : ReplyList} {s : Bytes} {k : Nat}
    (htaken : TakenInFront s pre pre' k) (h : BlocksFit pre) : BlocksFit pre' := by
  cases htaken with
  | none => exact h
  | prev front prev =>
      obtain ⟨hfront, hprev⟩ := blocksFit_append.mp h
      obtain ⟨hprev, hnil⟩ := blocksFit_cons.mp hprev
      refine blocksFit_append.mpr ⟨hfront, blocksFit_cons.mpr ⟨?_, hnil⟩⟩
      rw [List.length_append, List.length_take, usub_of_le hprev]
      show prev.buf.length + _ ≤ prev.size
      omega

/-- The next block takes the whole text, or a new block does. -/
theorem setDeferredNext_cases (r : ReplyBuf) (pre post : ReplyList) (s : Bytes) :
    (∃ next post', post = some next :: post' ∧ s.length ≤ usub next.size next.buf.length ∧
      (setDeferredNext L r pre post s).list =
        pre ++ some { next with buf := s ++ next.buf } :: post') ∨
    ∃ size, size =
        usub (L.zmallocUsableSize (s.length + L.sizeofReplyBlock)) L.sizeofReplyBlock ∧
      (setDeferredNext L r pre post s).list = pre ++ some ⟨size, s⟩ :: post := by
  unfold setDeferredNext
  split
  · split
    · next next post' hroom => exact .inl ⟨next, post', rfl, hroom.1, rfl⟩
    · exact .inr ⟨_, rfl, rfl⟩
  · exact .inr ⟨_, rfl, rfl⟩

theorem setDeferredNext_fills (hL : L.UsableCovers) (r : ReplyBuf) {pre post : ReplyList}
    (hpre : BlocksFit pre) (hpost : BlocksFit post) (s : Bytes) :
    FilledAt pre post s (setDeferredNext L r pre post s).list := by
  have hbytes := out_setDeferredNext (L := L) r pre post s
  obtain ⟨next, post', rfl, hroom, heq⟩ | ⟨size, hsize, heq⟩ :=
    setDeferredNext_cases (L := L) r pre post s
  · obtain ⟨hnext, hpost'⟩ := blocksFit_cons.mp hpost
    refine ⟨hbytes, ?_, pre, some { next with buf := s ++ next.buf } :: post', none, ?_, rfl, rfl,
      rfl, rfl⟩
    · rw [heq]
      refine blocksFit_append.mpr ⟨hpre, blocksFit_cons.mpr ⟨?_, hpost'⟩⟩
      rw [usub_of_le hnext] at hroom
      rw [List.length_append]
      show s.length + next.buf.length ≤ next.size
      omega
    · rw [heq]
      simp
  · refine ⟨hbytes, ?_, pre, post, some ⟨size, s⟩, ?_, rfl, rfl, rfl, rfl⟩
    · rw [heq]
      refine blocksFit_append.mpr ⟨hpre, blocksFit_cons.mpr ⟨?_, hpost⟩⟩
      have hcovers := hL (s.length + L.sizeofReplyBlock)
      rw [usub_of_le (by omega)] at hsize
      show s.length ≤ size
      omega
    · rw [heq, List.append_assoc]
      rfl

/-- **A deferred reply is filled in place.** -/
theorem setDeferredReply_fills (hL : L.UsableCovers) {r : ReplyBuf} (hfit : BlocksFit r.list)
    {node : Nat} (hnode : r.list[node]? = some none) (s : Bytes) :
    ∃ r', setDeferredReply L r node s = .ok r' ∧
      FilledAt (r.list.take node) (r.list.drop (node + 1)) s r'.list := by
  have hpre : BlocksFit (r.list.take node) := fun b hb ↦ hfit b (List.mem_of_mem_take hb)
  have hpost : BlocksFit (r.list.drop (node + 1)) := fun b hb ↦ hfit b (List.mem_of_mem_drop hb)
  obtain ⟨pre', k, htaken, hok | ⟨hend, hok⟩⟩ := setDeferredReply_cases (L := L) r hnode s
  · exact ⟨_, hok, .of_taken htaken (setDeferredNext_fills hL r (htaken.fits hpre) hpost _)⟩
  · refine ⟨_, hok, .of_taken htaken ⟨?_, ?_, pre', _, none, ?_, rfl, rfl, rfl, rfl⟩⟩
    · rw [hend, stream_append, List.append_nil]
    · exact blocksFit_append.mpr ⟨htaken.fits hpre, hpost⟩
    · simp

/-- A text of five bytes goes into a block with two bytes of room and the block behind it;
a second placeholder stays. -/
theorem setDeferredReply_fills_split :
    ∃ r', setDeferredReply LatteC.sample
        ⟨[some ⟨4, ascii "ab"⟩, none, some ⟨8, ascii "xy"⟩, none], 0⟩ 1 (ascii "*10" ++ crlf) = .ok r' ∧
      FilledAt [some ⟨4, ascii "ab"⟩] [some ⟨8, ascii "xy"⟩, none] (ascii "*10" ++ crlf) r'.list := by
  have hfit : BlocksFit [some ⟨4, ascii "ab"⟩, none, some ⟨8, ascii "xy"⟩, none] := by
    intro b hb
    simp only [List.mem_cons, Option.some.injEq, List.not_mem_nil, reduceCtorEq, or_false,
      false_or] at hb
    rcases hb with rfl | rfl <;> decide
  exact setDeferredReply_fills (r := ⟨_, 0⟩) (fun n ↦ le_refl n) hfit rfl (ascii "*10" ++ crlf)

/-! ## Help replies -/

/-- The two lines at the end of every help reply. -/
def helpFooter : List Bytes := [ascii "HELP", ascii "   Prints this help."]

theorem helpFooter_clean : ∀ s ∈ helpFooter, CR ∉ s ∧ LF ∉ s := by decide

/-- The call returns; what was queued is still in front, and what it has added is, for a
client that reads on, one array of statuses: the header line with the name in upper case, the
strings, the footer. -/
def ReadsAsHelp (L : LatteC) (r : ReplyBuf) (cmd : Bytes) (help : List Bytes) : Prop :=
  ∃ r' added, addReplyHelp L r cmd help = .ok r' ∧ r'.out = r.out ++ added ∧
    ∀ rest, Resp.readArray Resp.readStatus (added ++ rest) =
      some (((cString cmd).map upper ++
        ascii " <subcommand> [<arg> [value] [opt] ...]. Subcommands are:") :: help ++ helpFooter, rest)

theorem addReplyHelpLines_of_neg (help : List Bytes) (r : ReplyBuf) {blen : Int} (h : blen < 0) :
    addReplyHelpLines L r help blen = .error .badPointer := by
  unfold addReplyHelpLines
  exact if_pos h

theorem setDeferredArrayLen_of_neg {r : ReplyBuf} {node : Nat} {length : Int} (h : length < 0) :
    setDeferredArrayLen L r node length = .error (.assertion "length >= 0") := if_pos h

/-- With 2³¹ strings or more the counter becomes negative before the end of the array. -/
theorem addReplyHelpLines_overflow (help : List Bytes) (r : ReplyBuf) {blen : Int} (h₀ : 0 ≤ blen)
    (hblen : blen < 2 ^ 31) (hlen : 2 ^ 31 ≤ blen + help.length) :
    addReplyHelpLines L r help blen = .error .badPointer := by
  induction help generalizing r blen with
  | nil =>
      rw [List.length_nil] at hlen
      omega
  | cons s help ih =>
      rw [List.length_cons, Nat.cast_succ] at hlen
      rw [addReplyHelpLines, if_neg (Int.not_lt.mpr h₀)]
      by_cases hlast : blen + 1 < 2 ^ 31
      · rw [wrap32_eq_self_iff.mpr (by omega)]
        exact ih _ (by omega) hlast (by omega)
      · refine addReplyHelpLines_of_neg help _ ?_
        unfold wrap32
        omega

/-- With a few less the header and the footer make it negative. -/
theorem helpCount_neg {n : Int} (hlo : 2 ^ 31 ≤ n + 3) (hhi : n < 2 ^ 31) :
    wrap32 (wrap32 (n + 1) + 2) < 0 := by
  unfold wrap32
  omega

theorem addReplyHelp_overflow (r : ReplyBuf) (cmd : Bytes) {help : List Bytes}
    (hlen : 2 ^ 31 ≤ help.length + 3) : ∃ e, addReplyHelp L r cmd help = .error e := by
  by_cases hcount : help.length < 2 ^ 31
  · refine ⟨.assertion "length >= 0", ?_⟩
    have hlines := addReplyHelpLines_ok (L := L) help
      (addReplyStatusLength L (addReplyDeferredLen L r).1 (helpHeader cmd)) le_rfl
      (by omega)
    rw [addReplyHelp_eq hlines]
    exact setDeferredArrayLen_of_neg (helpCount_neg (by omega) (by omega))
  · refine ⟨.badPointer, ?_⟩
    unfold addReplyHelp
    dsimp only
    rw [addReplyHelpLines_overflow help _ le_rfl (by omega) (by omega), Run.error_bind]

/-- **Help replies.**  They read as one array exactly if their number of lines is an `int`. -/
theorem readsAsHelp_iff (hL : L.AppendsProto) (r : ReplyBuf) {cmd : Bytes}
    (hcmd : CR ∉ cmd ∧ LF ∉ cmd) {help : List Bytes} (hhelp : ∀ s ∈ help, CR ∉ s ∧ LF ∉ s) :
    ReadsAsHelp L r cmd help ↔ help.length + 3 < 2 ^ 31 := by
  constructor
  · rintro ⟨r', added, hok, -⟩
    by_contra hlen
    obtain ⟨e, he⟩ := addReplyHelp_overflow (L := L) r cmd (Nat.not_lt.mp hlen)
    rw [he] at hok
    cases hok
  · intro hlen
    obtain ⟨r', hok, hout⟩ := addReplyHelp_ok hL r cmd hlen
    refine ⟨r', _, hok, hout, fun rest ↦ ?_⟩
    refine (Resp.readArray_eq_some_iff Resp.readStatus_eq_some_iff).mpr ⟨?_, ?_⟩
    · have hcount : ((helpHeader cmd :: help ++ helpFooter).length : Int) = help.length + 1 + 2 := by
        simp [helpFooter]
        omega
      show _ = Resp.header 42 ((helpHeader cmd :: help ++ helpFooter).length : Int) ++ _ ++ rest
      rw [hcount]
      rfl
    · intro s hs
      rcases List.mem_append.mp hs with hs | hs
      · rcases List.mem_cons.mp hs with rfl | hs
        · exact helpHeader_clean hcmd
        · exact hhelp s hs
      · exact helpFooter_clean s hs

theorem readsAsHelp_iff_list :
    ReadsAsHelp LatteC.sample ⟨[some ⟨20, ascii "+OK" ++ crlf⟩, none], 20⟩ (ascii "module")
        [ascii "LIST", ascii "  Return a list of loaded modules."] ↔
      [ascii "LIST", ascii "  Return a list of loaded modules."].length + 3 < 2 ^ 31 :=
  readsAsHelp_iff LatteC.sample_appends _ (by decide) (by decide)

/-- A counter that ends up at 2³¹ fails the assertion on the length. -/
theorem not_readsAsHelp_overflow :
    (∀ s ∈ List.replicate (2 ^ 31 - 3) (ascii "x"), CR ∉ s ∧ LF ∉ s) ∧
      ¬ReadsAsHelp LatteC.sample {} (ascii "module") (List.replicate (2 ^ 31 - 3) (ascii "x")) := by
  constructor
  · intro s hs
    rw [List.eq_of_mem_replicate hs]
    decide
  · rintro ⟨r', added, hok, -⟩
    have hlen : 2 ^ 31 ≤ (List.replicate (2 ^ 31 - 3) (ascii "x")).length + 3 := by
      rw [List.length_replicate]
      exact le_refl (2 ^ 31)
    obtain ⟨e, he⟩ := addReplyHelp_overflow (L := LatteC.sample) {} (ascii "module") hlen
    rw [he] at hok
    cases hok

end LatteRedis
