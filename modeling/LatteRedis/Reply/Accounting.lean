import LatteRedis.Reply.Deferred
import Mathlib.Data.Int.ModEq

/-!
# The accounting of reply blocks (`client_reply.c`)

`reply_bytes` is meant to be the sum of the sizes of the blocks of a reply list, and the
output limits are checked against it.  The list is never summed up: each function adjusts
the counter where it changes a block.  The tail is cut down to what it uses, at a size the
allocator decides; a text that is put into a block with room changes no size; a text that
gets a block of its own adds that block.

`replyAccounting` says that the counter follows the sum through any sequence of calls.
The counter is an `unsigned long long`, so this is a congruence first, and an equation as
long as the sizes of the blocks together fit into 64 bits.
-/

namespace LatteRedis

open ByteString

/-! ## The sum of the sizes -/

/-- The sum of the sizes of the blocks of a reply list; a `NULL` node has none. -/
def sizeSum (l : ReplyList) : Nat := (l.map fun n ↦ (n.map ReplyBlock.size).getD 0).sum

@[simp] theorem sizeSum_nil : sizeSum [] = 0 := rfl

@[simp] theorem sizeSum_append (l m : ReplyList) : sizeSum (l ++ m) = sizeSum l + sizeSum m := by
  unfold sizeSum
  rw [List.map_append, List.sum_append]

@[simp] theorem sizeSum_cons_none (l : ReplyList) : sizeSum (none :: l) = sizeSum l :=
  Nat.zero_add _

@[simp] theorem sizeSum_cons_some (b : ReplyBlock) (l : ReplyList) :
    sizeSum (some b :: l) = b.size + sizeSum l := rfl

/-- From `r` to `r'`, `reply_bytes` has changed as the sum of the sizes has. -/
def FollowsSizes (r r' : ReplyBuf) : Prop :=
  (r'.replyBytes - r.replyBytes : Int) ≡ sizeSum r'.list - sizeSum r.list [ZMOD 2 ^ 64]

/-- The fields are what their types allow: `reply_bytes` is an `unsigned long long`, the
size of a block a `size_t`. -/
structure ReplyBuf.Typed (r : ReplyBuf) : Prop where
  replyBytes : r.replyBytes < 2 ^ 64
  sizes : ∀ b, some b ∈ r.list → b.size < 2 ^ 64

/-- What the accounting relies on. -/
structure LatteC.SizesBlocks (L : LatteC) : Prop where
  /-- `zmalloc_usable_size` is at least what was asked for. -/
  covers : ∀ n < 2 ^ 64, n ≤ L.zmallocUsableSize n
  /-- It is a `size_t`. -/
  size_t : ∀ n, L.zmallocUsableSize n < 2 ^ 64
  /-- A chunk and its header can be asked for. -/
  chunk : L.protoReplyChunkBytes + L.sizeofReplyBlock ≤ 2 ^ 64

/-! ## The calls -/

/-- A call of one of the functions that change blocks.  The node `set_deferred_reply` is
given may be `NULL`. -/
inductive ReplyCall where
  | trimReplyUnusedTailSpace
  | addReplyDeferredLen
  | setDeferredReply (node : Option Nat) (s : Bytes)
deriving DecidableEq, Repr

def ReplyCall.run (L : LatteC) (r : ReplyBuf) : ReplyCall → Except Fault ReplyBuf
  | .trimReplyUnusedTailSpace => .ok (LatteRedis.trimReplyUnusedTailSpace L r)
  | .addReplyDeferredLen => .ok (LatteRedis.addReplyDeferredLen L r).1
  | .setDeferredReply none _ => .ok r
  | .setDeferredReply (some node) s => LatteRedis.setDeferredReply L r node s

variable {L : LatteC} {r r' : ReplyBuf}

namespace FollowsSizes

theorem refl (r : ReplyBuf) : FollowsSizes r r := by
  unfold FollowsSizes
  rw [sub_self, sub_self]

theorem trans {r'' : ReplyBuf} (h : FollowsSizes r r') (h' : FollowsSizes r' r'') :
    FollowsSizes r r'' := by
  have hadd := h'.add h
  rwa [sub_add_sub_cancel, sub_add_sub_cancel] at hadd

/-- Nothing is accounted where no size changes. -/
theorem of_eq (hbytes : r'.replyBytes = r.replyBytes) (hsum : sizeSum r'.list = sizeSum r.list) :
    FollowsSizes r r' := by
  unfold FollowsSizes
  rw [hbytes, hsum, sub_self, sub_self]

end FollowsSizes

/-! ## Cutting the tail -/

/-- The tail is as it was, or it has its bytes in a block that is large enough. -/
theorem trimReplyUnusedTailSpace_cases (hL : L.SizesBlocks) (r : ReplyBuf) :
    trimReplyUnusedTailSpace L r = r ∨
      ∃ front tail size, r.list = front ++ [some tail] ∧ tail.buf.length ≤ size ∧ size < 2 ^ 64 ∧
        trimReplyUnusedTailSpace L r =
          { list := front ++ [some { tail with size := size }]
            replyBytes := (r.replyBytes + size + (2 ^ 64 - tail.size)) % 2 ^ 64 } := by
  unfold trimReplyUnusedTailSpace
  split
  · next tail htail =>
      obtain ⟨front, hlist⟩ := List.getLast?_eq_some_iff.mp htail
      dsimp only
      split
      · next hcut =>
          right
          have hchunk := hL.chunk
          have hcovers := hL.covers (tail.buf.length + L.sizeofReplyBlock) (by omega)
          have hsize_t := hL.size_t (tail.buf.length + L.sizeofReplyBlock)
          refine ⟨front, tail, _, hlist, ?_, ?_, by rw [hlist, List.dropLast_concat]⟩
          · rw [usub_of_le (by omega)]
            omega
          · rw [usub_of_le (by omega)]
            omega
      · exact .inl rfl
  · exact .inl rfl

theorem trimReplyUnusedTailSpace_follows (hL : L.SizesBlocks) (hr : r.Typed) :
    (trimReplyUnusedTailSpace L r).Typed ∧ FollowsSizes r (trimReplyUnusedTailSpace L r) := by
  obtain h | ⟨front, tail, size, hlist, -, hsize, h⟩ := trimReplyUnusedTailSpace_cases hL r
  · rw [h]
    exact ⟨hr, .refl r⟩
  · rw [h]
    have htail : tail.size < 2 ^ 64 := hr.sizes tail (by rw [hlist]; simp)
    refine ⟨⟨Nat.mod_lt _ (by decide), ?_⟩, ?_⟩
    · intro b hb
      rcases List.mem_append.mp hb with hb | hb
      · exact hr.sizes b (by rw [hlist]; exact List.mem_append_left _ hb)
      · cases List.mem_singleton.mp hb
        exact hsize
    · unfold FollowsSizes
      rw [hlist]
      simp only [sizeSum_append, sizeSum_cons_some, sizeSum_nil]
      unfold Int.ModEq
      omega

/-- A placeholder has no size. -/
theorem addReplyDeferredLen_follows (hL : L.SizesBlocks) (hr : r.Typed) :
    (addReplyDeferredLen L r).1.Typed ∧ FollowsSizes r (addReplyDeferredLen L r).1 := by
  obtain ⟨htyped, hfollows⟩ := trimReplyUnusedTailSpace_follows hL hr
  refine ⟨⟨htyped.replyBytes, ?_⟩, hfollows.trans (.of_eq rfl ?_)⟩
  · intro b hb
    rcases List.mem_append.mp hb with hb | hb
    · exact htyped.sizes b hb
    · cases List.mem_singleton.mp hb
  · show sizeSum ((trimReplyUnusedTailSpace L r).list ++ [none]) = _
    rw [sizeSum_append, sizeSum_cons_none, sizeSum_nil, Nat.add_zero]

/-! ## Filling a placeholder -/

/-- Bytes in the block in front do not change its size. -/
theorem TakenInFront.sizes {s : Bytes} {pre pre' : ReplyList} {k : Nat}
    (h : TakenInFront s pre pre' k) :
    sizeSum pre' = sizeSum pre ∧ ∀ b, some b ∈ pre' → ∃ b', some b' ∈ pre ∧ b.size = b'.size := by
  cases h with
  | none => exact ⟨rfl, fun b hb ↦ ⟨b, hb, rfl⟩⟩
  | prev front prev =>
      refine ⟨by simp only [sizeSum_append, sizeSum_cons_some], ?_⟩
      intro b hb
      rcases List.mem_append.mp hb with hb | hb
      · exact ⟨b, List.mem_append_left _ hb, rfl⟩
      · cases List.mem_singleton.mp hb
        exact ⟨prev, by simp, rfl⟩

/-- The rest of the text goes into the next block, which keeps its size, or adds one. -/
theorem setDeferredNext_follows (hL : L.SizesBlocks) {pre post : ReplyList} (hr : r.replyBytes < 2 ^ 64)
    (hsizes : ∀ b, some b ∈ pre ++ post → b.size < 2 ^ 64) (s : Bytes) :
    (setDeferredNext L r pre post s).Typed ∧
      FollowsSizes ⟨pre ++ post, r.replyBytes⟩ (setDeferredNext L r pre post s) := by
  -- a block of its own
  have hnew : ∀ size < 2 ^ 64,
      ReplyBuf.Typed ⟨pre ++ some ⟨size, s⟩ :: post, (r.replyBytes + size) % 2 ^ 64⟩ ∧
      FollowsSizes ⟨pre ++ post, r.replyBytes⟩
        ⟨pre ++ some ⟨size, s⟩ :: post, (r.replyBytes + size) % 2 ^ 64⟩ := by
    intro size hsize
    refine ⟨⟨Nat.mod_lt _ (by decide), ?_⟩, ?_⟩
    · intro b hb
      rcases List.mem_append.mp hb with hb | hb
      · exact hsizes b (List.mem_append_left _ hb)
      · rcases List.mem_cons.mp hb with hb | hb
        · cases hb
          exact hsize
        · exact hsizes b (List.mem_append_right _ hb)
    · unfold FollowsSizes
      simp only [sizeSum_append, sizeSum_cons_some]
      unfold Int.ModEq
      omega
  have hsize : usub (L.zmallocUsableSize (s.length + L.sizeofReplyBlock)) L.sizeofReplyBlock < 2 ^ 64 := by
    have hsize_t := hL.size_t (s.length + L.sizeofReplyBlock)
    unfold usub
    split <;> omega
  unfold setDeferredNext
  split
  · next next post' =>
      dsimp only
      split
      · refine ⟨⟨hr, ?_⟩, .of_eq rfl (by simp only [sizeSum_append, sizeSum_cons_some])⟩
        intro b hb
        rcases List.mem_append.mp hb with hb | hb
        · exact hsizes b (List.mem_append_left _ hb)
        · rcases List.mem_cons.mp hb with hb | hb
          · cases hb
            exact hsizes next (by simp)
          · exact hsizes b (by simp [hb])
      · exact hnew _ hsize
  · exact hnew _ hsize

/-- A `NULL` node is a place in the list without a size. -/
theorem sizeSum_of_null {l : ReplyList} {node : Nat} (h : l[node]? = some none) :
    sizeSum (l.take node ++ l.drop (node + 1)) = sizeSum l := by
  obtain ⟨hlt, hnone⟩ := List.getElem?_eq_some_iff.mp h
  conv_rhs => rw [← List.take_append_drop node l, List.drop_eq_getElem_cons hlt, hnone]
  simp

theorem setDeferredReply_follows (hL : L.SizesBlocks) (hr : r.Typed) {node : Nat} {s : Bytes}
    (h : setDeferredReply L r node s = .ok r') : r'.Typed ∧ FollowsSizes r r' := by
  obtain hnode | ⟨e, herr⟩ : r.list[node]? = some none ∨ ∃ e, setDeferredReply L r node s = .error e := by
    unfold setDeferredReply
    cases hn : r.list[node]? with
    | none => exact .inr ⟨_, rfl⟩
    | some n =>
        cases n with
        | none => exact .inl rfl
        | some b => exact .inr ⟨_, rfl⟩
  · obtain ⟨pre', k, htaken, hok⟩ := setDeferredReply_cases (L := L) r hnode s
    obtain ⟨hsum, hmem⟩ := htaken.sizes
    have hsizes : ∀ b, some b ∈ pre' ++ r.list.drop (node + 1) → b.size < 2 ^ 64 := by
      intro b hb
      rcases List.mem_append.mp hb with hb | hb
      · obtain ⟨b', hb', heq⟩ := hmem b hb
        rw [heq]
        exact hr.sizes b' (List.mem_of_mem_take hb')
      · exact hr.sizes b (List.mem_of_mem_drop hb)
    have hpre : FollowsSizes r ⟨pre' ++ r.list.drop (node + 1), r.replyBytes⟩ := by
      refine .of_eq rfl ?_
      rw [← sizeSum_of_null hnode, sizeSum_append, sizeSum_append, hsum]
    rcases hok with hok | ⟨-, hok⟩
    · cases hok.symm.trans h
      obtain ⟨htyped, hfollows⟩ := setDeferredNext_follows hL hr.replyBytes hsizes (s.drop k)
      exact ⟨htyped, hpre.trans hfollows⟩
    · cases hok.symm.trans h
      exact ⟨⟨hr.replyBytes, hsizes⟩, hpre⟩
  · rw [herr] at h
    cases h

/-! ## Runs -/

theorem ReplyCall.follows (hL : L.SizesBlocks) (hr : r.Typed) {call : ReplyCall}
    (h : call.run L r = .ok r') : r'.Typed ∧ FollowsSizes r r' := by
  cases call with
  | trimReplyUnusedTailSpace =>
      cases h
      exact trimReplyUnusedTailSpace_follows hL hr
  | addReplyDeferredLen =>
      cases h
      exact addReplyDeferredLen_follows hL hr
  | setDeferredReply node s =>
      cases node with
      | none =>
          cases h
          exact ⟨hr, .refl r⟩
      | some node => exact setDeferredReply_follows hL hr h

/-- A counter that has followed the sum from where it matched it is the sum. -/
theorem FollowsSizes.matches (h : FollowsSizes r r') (hr' : r'.replyBytes < 2 ^ 64)
    (hmatch : r.replyBytes = sizeSum r.list) : r'.replyBytes = sizeSum r'.list % 2 ^ 64 := by
  unfold FollowsSizes Int.ModEq at h
  rw [hmatch] at h
  omega

/-- **Reply accounting.**  On every reply list:

* a call changes `reply_bytes` by the change in the sum of the sizes of the blocks, as an
  `unsigned long long` counts;
* so after any sequence of calls that starts with the sum, `reply_bytes` is the sum modulo
  2⁶⁴, and the sum itself while the blocks together are smaller than that;
* cutting the tail leaves the list as it is, or gives the tail another size, with its bytes
  as they are and room for them. -/
theorem replyAccounting (hL : L.SizesBlocks) :
    (∀ (r r' : ReplyBuf) (call : ReplyCall), r.Typed → call.run L r = .ok r' → FollowsSizes r r') ∧
      (∀ (calls : List ReplyCall) (r r' : ReplyBuf), r.Typed → r.replyBytes = sizeSum r.list →
        calls.foldlM (ReplyCall.run L) r = .ok r' →
        r'.replyBytes = sizeSum r'.list % 2 ^ 64 ∧
          (sizeSum r'.list < 2 ^ 64 → r'.replyBytes = sizeSum r'.list)) ∧
      ∀ r : ReplyBuf, (trimReplyUnusedTailSpace L r).list = r.list ∨
        ∃ front tail size, r.list = front ++ [some tail] ∧ tail.buf.length ≤ size ∧
          (trimReplyUnusedTailSpace L r).list = front ++ [some { tail with size := size }] := by
  refine ⟨?_, ?_, ?_⟩
  · intro r r' call hr h
    exact (call.follows hL hr h).2
  · intro calls r r' hr hmatch h
    obtain ⟨hr', hfollows⟩ := Run.invariant (P := fun r' ↦ r'.Typed ∧ FollowsSizes r r')
      (Q := fun _ ↦ True)
      (fun _ ⟨hs, hfollows⟩ hrun ↦
        have hcall := ReplyCall.follows hL hs hrun
        ⟨hcall.1, hfollows.trans hcall.2⟩)
      (fun _ _ ↦ trivial) ⟨hr, .refl r⟩ h
    have hmod := hfollows.matches hr'.replyBytes hmatch
    exact ⟨hmod, fun hlt ↦ hmod.trans (Nat.mod_eq_of_lt hlt)⟩
  · intro r
    obtain h | ⟨front, tail, size, hlist, hroom, -, h⟩ := trimReplyUnusedTailSpace_cases hL r
    · exact .inl (congrArg ReplyBuf.list h)
    · exact .inr ⟨front, tail, size, hlist, hroom, congrArg ReplyBuf.list h⟩

/-- The sample library with an allocator that knows the limit of the address space. -/
def LatteC.bounded : LatteC := { LatteC.sample with zmallocUsableSize n := min n (2 ^ 64 - 1) }

theorem LatteC.bounded_sizesBlocks : LatteC.bounded.SizesBlocks where
  covers n hn := Nat.le_min.mpr ⟨le_rfl, Nat.le_sub_one_of_lt hn⟩
  size_t n := lt_of_le_of_lt (Nat.min_le_right _ _) (by decide)
  chunk := by decide

/-- A tail of a hundred bytes with two in use is cut, a placeholder behind it is filled. -/
theorem replyAccounting_cut :
    ∃ r', [.addReplyDeferredLen, .setDeferredReply (some 1) (ascii "*1" ++ crlf)].foldlM
        (ReplyCall.run LatteC.bounded) ⟨[some ⟨100, ascii "ab"⟩], 100⟩ = .ok r' ∧
      r'.list = [some ⟨2, ascii "ab"⟩, some ⟨4, ascii "*1" ++ crlf⟩] ∧
      r'.replyBytes = sizeSum r'.list := by
  have htyped : ReplyBuf.Typed ⟨[some ⟨100, ascii "ab"⟩], 100⟩ := by
    refine ⟨by decide, ?_⟩
    intro b hb
    cases List.mem_singleton.mp hb
    decide
  have hruns := (replyAccounting LatteC.bounded_sizesBlocks).2.1
    [.addReplyDeferredLen, .setDeferredReply (some 1) (ascii "*1" ++ crlf)] _ _ htyped rfl rfl
  exact ⟨_, rfl, rfl, hruns.2 (by decide)⟩

end LatteRedis
