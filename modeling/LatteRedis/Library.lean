import LatteRedis.Foundation.Bytes

/-!
# The library the server is built on

The server links against `latte_c`, whose sources are not part of the repository.
What the server uses of it enters the model as the parameters `LatteC`, and what it
relies on as named properties of those parameters.  Everything that is only a
buffer operation (`sds_len`, `sds_range`, `sds_new_len`, …) is the corresponding
list operation.

The file also holds the two types every other module shares: the ways the process
can stop (`Fault`) and the string objects (`LatteObject`).
-/

namespace LatteRedis

open ByteString

/-- The ways a call can stop the process instead of returning. -/
inductive Fault where
  | /-- `latte_assert_with_info(0, info)`. -/ assertion (info : String)
  | /-- `redis_panic(msg)`. -/ panic (msg : String)
  | /-- A read, a write or a `zfree` through a pointer that was never set, or past the
    end of the block it points to. -/ badPointer
  | /-- An integer division by zero. -/ divisionByZero
deriving DecidableEq, Repr

/-- A pointer field: `NULL`, whatever the allocator left there, or a live target. -/
inductive Ptr (α : Type) where
  | null
  | wild
  | live (a : α)
deriving DecidableEq, Repr

/-! ## Objects -/

/-- `o->type`. -/
inductive ObjType where
  | string
  | other (n : Nat)
deriving DecidableEq, Repr

/-- `o->encoding` together with what `o->ptr` stands for in it. -/
inductive Encoding where
  | /-- `OBJ_ENCODING_RAW`: `ptr` is an sds. -/ raw (s : Bytes)
  | /-- `OBJ_ENCODING_EMBSTR`: `ptr` is inline data, not a full sds. -/ embstr (s : Bytes)
  | /-- `OBJ_ENCODING_INT`: `ptr` is the number itself. -/ int (n : Int)
deriving DecidableEq, Repr

/-- `latte_object_t`. -/
structure LatteObject where
  type : ObjType := .string
  encoding : Encoding
  /-- The 24-bit `lru` field. -/
  lru : Nat := 0
  /-- `refcount == OBJ_SHARED_REFCOUNT`. -/
  shared : Bool := false
deriving DecidableEq, Repr

/-- The bytes a string object stands for. -/
def Encoding.content : Encoding → Bytes
  | .raw s | .embstr s => s
  | .int n => decimal n

/-- The bytes a string object stands for; `string_object_len` is their number. -/
def LatteObject.content (o : LatteObject) : Bytes := o.encoding.content

/-- The bytes at `o->ptr`, which is a pointer unless the object is a number. -/
def LatteObject.ptr (o : LatteObject) : Except Fault Bytes :=
  match o.encoding with
  | .raw s | .embstr s => .ok s
  | .int _ => .error .badPointer

/-- The objects the parsers make: strings that are not kept as numbers. -/
def LatteObject.IsText (o : LatteObject) : Prop := o.type = .string ∧ o.ptr = .ok o.content

instance (o : LatteObject) : Decidable o.IsText := inferInstanceAs (Decidable (_ ∧ _))

/-- `latte_object_new(OBJ_STRING, s)`. -/
def latteObjectNew (s : Bytes) : LatteObject := { encoding := .raw s }

@[simp] theorem content_latteObjectNew (s : Bytes) : (latteObjectNew s).content = s := rfl

theorem isText_latteObjectNew (s : Bytes) : (latteObjectNew s).IsText := ⟨rfl, rfl⟩

/-! ## Reply blocks -/

/-- `client_reply_block_t`; `used` is the length of `buf`. -/
structure ReplyBlock where
  size : Nat
  buf : Bytes
deriving DecidableEq, Repr

/-- `client.reply`: a list of blocks, with a `NULL` value for a length not yet known. -/
abbrev ReplyList := List (Option ReplyBlock)

/-- The bytes of a list of blocks. -/
def blockBytes (bs : List ReplyBlock) : Bytes := bs.flatMap ReplyBlock.buf

/-! ## The parameters -/

/-- What the server takes from `latte_c`. -/
structure LatteC where
  /-- `string2ll`. -/
  string2ll : Bytes → Option Int
  /-- `sds_split_args`; `none` for unbalanced quotes. -/
  sdsSplitArgs : Bytes → Option (List Bytes)
  /-- `PROTO_MBULK_BIG_ARG`. -/
  protoMbulkBigArg : Nat
  /-- Whether `string_object_new` makes a string of this length an `EMBSTR` object. -/
  embstrLen : Nat → Bool
  /-- The `sds_len(ptr)` bytes at `ptr`, for an `EMBSTR` object with this content. -/
  embstrSds : Bytes → Bytes
  /-- `add_reply_proto`, on the reply list. -/
  addReplyProto : ReplyList → Bytes → ReplyList
  /-- `PROTO_REPLY_CHUNK_BYTES`. -/
  protoReplyChunkBytes : Nat
  /-- `sizeof(client_reply_block_t)`. -/
  sizeofReplyBlock : Nat
  /-- `zmalloc_usable_size` of a block that was asked for with this many bytes. -/
  zmallocUsableSize : Nat → Nat

namespace LatteC

/-- `string2ll` is a strict decimal parser: it accepts exactly the numerals of the
64-bit integers.  In particular it rejects every string of more than twenty bytes. -/
def StrictString2ll (L : LatteC) : Prop :=
  ∀ s n, L.string2ll s = some n ↔ s = decimal n ∧ -2 ^ 63 ≤ n ∧ n < 2 ^ 63

/-- `sds_split_args` finds no words in an empty line. -/
def SplitsBlank (L : LatteC) : Prop := L.sdsSplitArgs [] = some []

/-- `add_reply_proto` appends its bytes at the end of the reply list.  The list up to
its last `NULL` node is untouched; the run of blocks behind that node grows. -/
def AppendsProto (L : LatteC) : Prop :=
  ∀ (l : ReplyList) (bs : List ReplyBlock) (s : Bytes), (l = [] ∨ l.getLast? = some none) →
    ∃ bs', L.addReplyProto (l ++ bs.map some) s = l ++ bs'.map some ∧
      blockBytes bs' = blockBytes bs ++ s

theorem StrictString2ll.of_length {L : LatteC} (h : L.StrictString2ll) {s : Bytes}
    (hs : 20 < s.length) : L.string2ll s = none := by
  cases hn : L.string2ll s with
  | none => rfl
  | some n =>
      obtain ⟨rfl, hlo, hhi⟩ := (h s n).mp hn
      have := decimal_length_le hlo hhi
      omega

theorem StrictString2ll.decimal {L : LatteC} (h : L.StrictString2ll) {n : Int}
    (hlo : -2 ^ 63 ≤ n) (hhi : n < 2 ^ 63) : L.string2ll (decimal n) = some n :=
  (h _ n).mpr ⟨rfl, hlo, hhi⟩

/-- `string_object_new`. -/
def stringObjectNew (L : LatteC) (s : Bytes) : LatteObject :=
  { encoding := if L.embstrLen s.length then .embstr s else .raw s }

@[simp] theorem content_stringObjectNew (L : LatteC) (s : Bytes) :
    (L.stringObjectNew s).content = s := by
  unfold stringObjectNew LatteObject.content
  split <;> rfl

theorem isText_stringObjectNew (L : LatteC) (s : Bytes) : (L.stringObjectNew s).IsText := by
  unfold stringObjectNew
  split <;> exact ⟨rfl, rfl⟩

end LatteC

/-! ## A library

The assumptions above hold together: here is a library that satisfies them, small
enough to be run.  Blocks are filled up before a new one is started. -/

namespace LatteC

/-- The words of a line without quotes. -/
def splitWords : Bytes → List Bytes
  | [] => []
  | b :: bs =>
      if b = 32 ∨ (9 ≤ b ∧ b ≤ 13) then splitWords bs
      else match bs, splitWords bs with
      | c :: _, w :: ws => if c = 32 ∨ (9 ≤ c ∧ c ≤ 13) then [b] :: w :: ws else (b :: w) :: ws
      | _, ws => [b] :: ws

/-- Fills the last block of a list, then starts a new one. -/
def fillTail (chunk : Nat) (l : ReplyList) (s : Bytes) : ReplyList :=
  match l.getLast? with
  | some (some tail) =>
      let room := tail.size - tail.buf.length
      l.dropLast ++ some { tail with buf := tail.buf ++ s.take room } ::
        (if s.length ≤ room then [] else [some ⟨max chunk (s.length - room), s.drop room⟩])
  | _ => l ++ [some ⟨max chunk s.length, s⟩]

/-- A library for running the model. -/
def sample : LatteC where
  string2ll := strictDecimal
  sdsSplitArgs s := if (34 : UInt8) ∈ s ∨ (39 : UInt8) ∈ s then none else some (splitWords s)
  protoMbulkBigArg := 32 * 1024
  embstrLen n := n ≤ 44
  embstrSds := id
  addReplyProto := fillTail (16 * 1024)
  protoReplyChunkBytes := 16 * 1024
  sizeofReplyBlock := 16
  zmallocUsableSize := id

theorem sample_strict : sample.StrictString2ll := fun _ _ ↦ strictDecimal_eq_some_iff

theorem sample_appends : sample.AppendsProto := by
  intro l bs s hl
  show ∃ bs' : List ReplyBlock,
    fillTail (16 * 1024) (l ++ bs.map some) s = l ++ bs'.map some ∧ _
  induction bs using List.reverseRecOn with
  | nil =>
      refine ⟨[⟨max (16 * 1024) s.length, s⟩], ?_, by simp [blockBytes]⟩
      unfold fillTail
      rcases hl with rfl | hl
      · rfl
      · simp [hl]
  | append_singleton bs b _ =>
      unfold fillTail
      simp only [List.map_append, List.map_cons, List.map_nil, ← List.append_assoc,
        List.getLast?_append, List.getLast?_singleton, Option.some_or, List.dropLast_concat]
      by_cases hroom : s.length ≤ b.size - b.buf.length
      · refine ⟨bs ++ [{ b with buf := b.buf ++ s }], ?_, by simp [blockBytes]⟩
        simp [hroom, List.take_of_length_le hroom]
      · refine ⟨bs ++ [{ b with buf := b.buf ++ s.take (b.size - b.buf.length) },
          ⟨max (16 * 1024) (s.length - (b.size - b.buf.length)), s.drop (b.size - b.buf.length)⟩],
          ?_, by simp [blockBytes]⟩
        simp [hroom]

end LatteC

/-! ## `sds` text helpers -/

/-- `sds_trim(s, "\r\n")`. -/
def sdsTrimNewlines (s : Bytes) : Bytes :=
  let isNl : UInt8 → Bool := fun b ↦ b = CR ∨ b = LF
  ((s.dropWhile isNl).reverse.dropWhile isNl).reverse

/-- `sds_map_chars(s, "\r\n", "  ", 2)`. -/
def sdsMapNewlines (s : Bytes) : Bytes := s.map fun b ↦ if b = CR ∨ b = LF then 32 else b

/-- Mapping leaves no line terminator behind. -/
theorem newline_notMem_sdsMapNewlines (s : Bytes) :
    CR ∉ sdsMapNewlines s ∧ LF ∉ sdsMapNewlines s := by
  have hne : ∀ b : UInt8, (if b = CR ∨ b = LF then (32 : UInt8) else b) ≠ CR ∧
      (if b = CR ∨ b = LF then (32 : UInt8) else b) ≠ LF := fun b ↦ by
    split
    · decide
    · next h => exact not_or.mp h
  constructor <;>
  · intro h
    obtain ⟨b, -, hb⟩ := List.mem_map.mp h
    first
      | exact (hne b).1 hb
      | exact (hne b).2 hb

/-- `sds_trim(s, cset)`. -/
def sdsTrim (cset : UInt8 → Bool) (s : Bytes) : Bytes :=
  ((s.dropWhile cset).reverse.dropWhile cset).reverse

/-- An index into a string of length `len`; a negative one counts from the end. -/
def sdsIndex (len : Nat) (i : Int) : Nat := if i < 0 then (len + i).toNat else i.toNat

/-- `sds_range`: the bytes from `start` to `stop`, both included. -/
def sdsRange (s : Bytes) (start stop : Int) : Bytes :=
  if sdsIndex s.length start > sdsIndex s.length stop then []
  else (s.take (sdsIndex s.length stop + 1)).drop (sdsIndex s.length start)

theorem sdsIndex_natCast (len n : Nat) : sdsIndex len n = n := if_neg (by omega)

theorem sdsIndex_neg (len n : Nat) : sdsIndex len (-(n + 1)) = len - (n + 1) := by
  unfold sdsIndex
  rw [if_pos (by omega)]
  omega

theorem sdsRange_drop (s : Bytes) (n : Nat) : sdsRange s n (-1) = s.drop n := by
  unfold sdsRange
  rw [sdsIndex_natCast, show (-1 : Int) = -((0 : Nat) + 1) from rfl, sdsIndex_neg]
  split
  · rw [List.drop_eq_nil_of_le (by omega)]
  · rw [List.take_of_length_le (by omega)]

theorem sdsRange_take {s : Bytes} {n : Nat} (h : n < s.length) :
    sdsRange s 0 (-(n + 1)) = s.take (s.length - n) := by
  unfold sdsRange
  rw [show (0 : Int) = (0 : Nat) from rfl, sdsIndex_natCast, sdsIndex_neg, if_neg (by omega),
    show s.length - (n + 1) + 1 = s.length - n by omega, List.drop_zero]

/-! ## 64-bit arithmetic -/

/-- `a - b` on `size_t`. -/
def usub (a b : Nat) : Nat := if b ≤ a then a - b else 2 ^ 64 + a - b

@[simp] theorem usub_of_le {a b : Nat} (h : b ≤ a) : usub a b = a - b := if_pos h

/-- A value brought back into the range of `long long`. -/
def wrap64 (n : Int) : Int := (n + 2 ^ 63) % 2 ^ 64 - 2 ^ 63

theorem wrap64_eq_self_iff {n : Int} : wrap64 n = n ↔ -2 ^ 63 ≤ n ∧ n < 2 ^ 63 := by
  unfold wrap64
  omega

/-- A sum may be brought back late. -/
theorem wrap64_add_wrap64 (m n : Int) : wrap64 (m + wrap64 n) = wrap64 (m + n) := by
  unfold wrap64
  omega

theorem wrap64_add_left (m n : Int) : wrap64 (wrap64 m + n) = wrap64 (m + n) := by
  rw [Int.add_comm, wrap64_add_wrap64, Int.add_comm]

theorem wrap64_emod (n : Int) : wrap64 n % 2 ^ 64 = n % 2 ^ 64 := by
  unfold wrap64
  omega

theorem wrap64_eq_of_emod {m n : Int} (h : m % 2 ^ 64 = n % 2 ^ 64) : wrap64 m = wrap64 n := by
  unfold wrap64
  omega

/-- A product may be brought back late. -/
theorem wrap64_mul_left (m n : Int) : wrap64 (wrap64 m * n) = wrap64 (m * n) := by
  apply wrap64_eq_of_emod
  rw [Int.mul_emod, wrap64_emod, ← Int.mul_emod]

/-- A value brought back into the range of `int`. -/
def wrap32 (n : Int) : Int := (n + 2 ^ 31) % 2 ^ 32 - 2 ^ 31

theorem wrap32_eq_self_iff {n : Int} : wrap32 n = n ↔ -2 ^ 31 ≤ n ∧ n < 2 ^ 31 := by
  unfold wrap32
  omega

theorem wrap32_range (n : Int) : -2 ^ 31 ≤ wrap32 n ∧ wrap32 n < 2 ^ 31 := by
  unfold wrap32
  omega

end LatteRedis
