import LatteRedis.Foundation.Bytes

/-!
# RESP

The serialisation Redis clients and servers talk in.  A value is a line (a status, an
error or an integer), a string with its length in front, an array with its number of
elements in front, or one of the two null values.

A client reads one value after another and matches them with its requests by position,
so what matters about a reply is that it is one value, neither less nor more.

`readBulk`, `readStatus` and `readArray` are the parts of such a client that read a string,
a status and an array.  Each accepts exactly what is written in its form, and stops
behind it.
-/

namespace Resp

open ByteString

/-- The first line of a string or of an array: its mark and a number. -/
def header (mark : UInt8) (n : Int) : Bytes := mark :: decimal n ++ crlf

/-- A string with its length in front. -/
def bulk (s : Bytes) : Bytes := header 36 s.length ++ s ++ crlf

/-- The bytes are one value. -/
inductive IsValue : Bytes → Prop
  | line {b : UInt8} {s : Bytes} (hb : b = 43 ∨ b = 45 ∨ b = 58) (hcr : CR ∉ s) (hlf : LF ∉ s) :
      IsValue (b :: s ++ crlf)
  | bulk (s : Bytes) : IsValue (bulk s)
  | array (vs : List Bytes) (hvs : ∀ v ∈ vs, IsValue v) :
      IsValue (header 42 vs.length ++ vs.flatten)
  | nullBulk : IsValue (header 36 (-1))
  | nullArray : IsValue (header 42 (-1))

/-- A command as clients send it: an array of strings. -/
def encode (args : List Bytes) : Bytes := header 42 args.length ++ (args.map bulk).flatten

/-! ## What a value begins with -/

/-- A value is announced by its first byte. -/
theorem IsValue.head {v : Bytes} (h : IsValue v) :
    ∃ b, v.head? = some b ∧ (b = 43 ∨ b = 45 ∨ b = 58 ∨ b = 36 ∨ b = 42) := by
  cases h with
  | @line b s hb hcr hlf =>
      refine ⟨b, rfl, ?_⟩
      rcases hb with hb | hb | hb
      · exact .inl hb
      · exact .inr (.inl hb)
      · exact .inr (.inr (.inl hb))
  | bulk s => exact ⟨36, rfl, by decide⟩
  | array vs hvs => exact ⟨42, rfl, by decide⟩
  | nullBulk => exact ⟨36, rfl, by decide⟩
  | nullArray => exact ⟨42, rfl, by decide⟩

theorem IsValue.ne_nil {v : Bytes} (h : IsValue v) : v ≠ [] := by
  rintro rfl
  obtain ⟨b, hb, -⟩ := h.head
  cases hb

/-- A header line can be read back. -/
theorem header_append_inj {mark mark' : UInt8} {n m : Int} {s t : Bytes}
    (h : header mark n ++ s = header mark' m ++ t) : mark = mark' ∧ n = m ∧ s = t := by
  unfold header crlf at h
  simp only [List.cons_append, List.append_assoc, List.nil_append, List.cons.injEq] at h
  obtain ⟨hmark, h⟩ := h
  -- both numerals end at the first CR
  obtain ⟨hz, hcr, -⟩ := decimal_clean n
  obtain ⟨hz', hcr', -⟩ := decimal_clean m
  have hfirst := strchr_line (LF :: s) hcr hz
  rw [h, strchr_line (LF :: t) hcr' hz'] at hfirst
  obtain ⟨hdec, hrest⟩ := List.append_inj h (Option.some.inj hfirst).symm
  refine ⟨hmark, decimal_injective hdec, ?_⟩
  simpa using hrest

/-- A string in a reply is a value exactly if the number in front of it is its length. -/
theorem isValue_bulk_iff {n : Nat} {s : Bytes} :
    IsValue (header 36 n ++ s ++ crlf) ↔ s.length = n := by
  constructor
  · intro h
    generalize hv : header 36 n ++ s ++ crlf = v at h
    rw [List.append_assoc] at hv
    cases h with
    | @line b t hb hcr hlf =>
        have hmark := congrArg List.head? hv
        simp only [header, List.cons_append, List.head?_cons, Option.some.injEq] at hmark
        subst hmark
        exact absurd hb (by decide)
    | bulk t =>
        rw [bulk, List.append_assoc] at hv
        obtain ⟨-, hn, hs⟩ := header_append_inj hv
        rw [List.append_cancel_right hs]
        exact_mod_cast hn.symm
    | array vs hvs => exact absurd (header_append_inj hv).1 (by decide)
    | nullBulk =>
        rw [← List.append_nil (header 36 (-1))] at hv
        have hn := (header_append_inj hv).2.1
        omega
    | nullArray =>
        rw [← List.append_nil (header 42 (-1))] at hv
        exact absurd (header_append_inj hv).1 (by decide)
  · rintro rfl
    exact .bulk s

/-! ## Reading strings -/

/-- What is behind `w`, if the input begins with it. -/
def expect (w u : Bytes) : Option Bytes := if w.isPrefixOf u then some (u.drop w.length) else none

theorem expect_eq_some_iff {w u rest : Bytes} : expect w u = some rest ↔ u = w ++ rest := by
  unfold expect
  rw [Option.ite_none_right_eq_some, List.isPrefixOf_iff_prefix]
  constructor
  · rintro ⟨⟨t, rfl⟩, hrest⟩
    rw [List.drop_left, Option.some.injEq] at hrest
    rw [hrest]
  · rintro rfl
    exact ⟨List.prefix_append w rest, by rw [List.drop_left]⟩

/-- A number without a sign, up to the end of its line. -/
def readNumeral (u : Bytes) : Option (Nat × Bytes) :=
  let digits := u.takeWhile (· ≠ CR)
  if decimalNat (ofDecimal digits) = digits then some (ofDecimal digits, u.drop digits.length)
  else none

theorem eq_append_of_readNumeral {u rest : Bytes} {n : Nat} (h : readNumeral u = some (n, rest)) :
    u = decimalNat n ++ rest := by
  unfold readNumeral at h
  rw [Option.ite_none_right_eq_some, Option.some.injEq, Prod.mk.injEq] at h
  obtain ⟨hdigits, hn, hrest⟩ := h
  rw [← hn, ← hrest, hdigits]
  exact (List.prefix_iff_eq_append.mp (List.takeWhile_prefix _)).symm

/-- A line ends at its first CR. -/
theorem takeWhile_line {s : Bytes} (hcr : CR ∉ s) (rest : Bytes) :
    (s ++ CR :: rest).takeWhile (· ≠ CR) = s := by
  rw [List.takeWhile_append_of_pos, List.takeWhile_cons_of_neg (by simp), List.append_nil]
  intro b hb
  refine decide_eq_true ?_
  rintro rfl
  exact hcr hb

theorem readNumeral_line (n : Nat) (rest : Bytes) :
    readNumeral (decimalNat n ++ CR :: rest) = some (n, CR :: rest) := by
  have hdigits : (decimalNat n ++ CR :: rest).takeWhile (· ≠ CR) = decimalNat n := by
    refine takeWhile_line ?_ rest
    intro hcr
    obtain ⟨d, hd, hb⟩ := mem_decimalNat hcr
    exact (digit_ne hd).2.2.1 hb.symm
  unfold readNumeral
  dsimp only
  rw [hdigits, ofDecimal_decimalNat, if_pos rfl, List.drop_left]

/-- The next `n` bytes. -/
def readBytes (n : Nat) (u : Bytes) : Option (Bytes × Bytes) :=
  if n ≤ u.length then some (u.take n, u.drop n) else none

theorem readBytes_eq_some_iff {n : Nat} {u s rest : Bytes} :
    readBytes n u = some (s, rest) ↔ u = s ++ rest ∧ s.length = n := by
  unfold readBytes
  rw [Option.ite_none_right_eq_some, Option.some.injEq, Prod.mk.injEq]
  constructor
  · rintro ⟨hlen, rfl, rfl⟩
    exact ⟨(List.take_append_drop n u).symm, List.length_take_of_le hlen⟩
  · rintro ⟨rfl, rfl⟩
    exact ⟨by simp, by simp, by simp⟩

/-- A string with its length in front, and what is behind it. -/
def readBulk (u : Bytes) : Option (Bytes × Bytes) := do
  let u ← expect [36] u
  let (n, u) ← readNumeral u
  let u ← expect crlf u
  let (s, u) ← readBytes n u
  let u ← expect crlf u
  return (s, u)

theorem header_eq (mark : UInt8) (n : Nat) : header mark n = mark :: (decimalNat n ++ crlf) := by
  unfold header decimal
  rw [if_neg (Int.not_lt.mpr (Int.natCast_nonneg _)), Int.natAbs_natCast]
  rfl

theorem bulk_eq (s : Bytes) : bulk s = 36 :: (decimalNat s.length ++ (crlf ++ (s ++ crlf))) := by
  unfold bulk
  rw [header_eq]
  simp

theorem readBulk_eq_some_iff {u s rest : Bytes} :
    readBulk u = some (s, rest) ↔ u = bulk s ++ rest := by
  rw [bulk_eq]
  constructor
  · intro h
    obtain ⟨u₁, h₁, h⟩ := Option.bind_eq_some_iff.mp h
    obtain ⟨⟨n, u₂⟩, h₂, h⟩ := Option.bind_eq_some_iff.mp h
    obtain ⟨u₃, h₃, h⟩ := Option.bind_eq_some_iff.mp h
    obtain ⟨⟨s', u₄⟩, h₄, h⟩ := Option.bind_eq_some_iff.mp h
    obtain ⟨u₅, h₅, h⟩ := Option.bind_eq_some_iff.mp h
    cases h
    obtain ⟨hu₃, rfl⟩ := readBytes_eq_some_iff.mp h₄
    rw [expect_eq_some_iff.mp h₁, eq_append_of_readNumeral h₂, expect_eq_some_iff.mp h₃, hu₃,
      expect_eq_some_iff.mp h₅]
    simp
  · rintro rfl
    have hmark : expect [36] (36 :: (decimalNat s.length ++ (crlf ++ (s ++ crlf))) ++ rest) =
        some (decimalNat s.length ++ CR :: (LF :: s ++ (crlf ++ rest))) :=
      expect_eq_some_iff.mpr (by simp [crlf])
    have hline : expect crlf (CR :: (LF :: s ++ (crlf ++ rest))) = some (s ++ (crlf ++ rest)) :=
      expect_eq_some_iff.mpr rfl
    have hbytes : readBytes s.length (s ++ (crlf ++ rest)) = some (s, crlf ++ rest) :=
      readBytes_eq_some_iff.mpr ⟨rfl, rfl⟩
    have hend : expect crlf (crlf ++ rest) = some rest := expect_eq_some_iff.mpr rfl
    unfold readBulk
    rw [hmark]
    refine Option.bind_eq_some_iff.mpr ⟨_, rfl, ?_⟩
    refine Option.bind_eq_some_iff.mpr ⟨_, readNumeral_line _ _, ?_⟩
    refine Option.bind_eq_some_iff.mpr ⟨_, hline, ?_⟩
    refine Option.bind_eq_some_iff.mpr ⟨_, hbytes, ?_⟩
    exact Option.bind_eq_some_iff.mpr ⟨_, hend, rfl⟩

/-! ## Reading arrays of statuses -/

/-- A status. -/
def status (s : Bytes) : Bytes := 43 :: s ++ crlf

/-- A status, and what is behind it. -/
def readStatus (u : Bytes) : Option (Bytes × Bytes) := do
  let u ← expect [43] u
  let s := u.takeWhile (· ≠ CR)
  let u ← expect crlf (u.drop s.length)
  if LF ∈ s then none else some (s, u)

theorem readStatus_eq_some_iff {u s rest : Bytes} :
    readStatus u = some (s, rest) ↔ u = status s ++ rest ∧ CR ∉ s ∧ LF ∉ s := by
  constructor
  · intro h
    obtain ⟨u₁, h₁, h⟩ := Option.bind_eq_some_iff.mp h
    obtain ⟨u₂, h₂, h⟩ := Option.bind_eq_some_iff.mp h
    rw [Option.ite_none_left_eq_some, Option.some.injEq, Prod.mk.injEq] at h
    obtain ⟨hlf, rfl, rfl⟩ := h
    refine ⟨?_, ?_, hlf⟩
    · have hu₁ := List.prefix_iff_eq_append.mp (List.takeWhile_prefix (p := (· ≠ CR)) (l := u₁))
      rw [expect_eq_some_iff.mp h₂] at hu₁
      conv_lhs => rw [expect_eq_some_iff.mp h₁, ← hu₁]
      simp [status]
    · intro hcr
      have hne := List.mem_takeWhile_imp hcr
      exact of_decide_eq_true hne rfl
  · rintro ⟨rfl, hcr, hlf⟩
    have hmark : expect [43] (status s ++ rest) = some (s ++ CR :: LF :: rest) :=
      expect_eq_some_iff.mpr (by simp [status, crlf])
    have hend : expect crlf ((s ++ CR :: LF :: rest).drop s.length) = some rest :=
      expect_eq_some_iff.mpr (by simp [crlf])
    unfold readStatus
    refine Option.bind_eq_some_iff.mpr ⟨_, hmark, ?_⟩
    dsimp only
    rw [takeWhile_line hcr, hend, Option.bind_eq_bind, Option.bind_some, if_neg hlf]

/-- The first line of an array or a string, and what is behind it. -/
def readHeader (mark : UInt8) (u : Bytes) : Option (Nat × Bytes) := do
  let u ← expect [mark] u
  let (n, u) ← readNumeral u
  let u ← expect crlf u
  return (n, u)

theorem readHeader_eq_some_iff {mark : UInt8} {u rest : Bytes} {n : Nat} :
    readHeader mark u = some (n, rest) ↔ u = header mark n ++ rest := by
  rw [header_eq]
  constructor
  · intro h
    obtain ⟨u₁, h₁, h⟩ := Option.bind_eq_some_iff.mp h
    obtain ⟨⟨m, u₂⟩, h₂, h⟩ := Option.bind_eq_some_iff.mp h
    obtain ⟨u₃, h₃, h⟩ := Option.bind_eq_some_iff.mp h
    cases h
    rw [expect_eq_some_iff.mp h₁, eq_append_of_readNumeral h₂, expect_eq_some_iff.mp h₃]
    simp
  · rintro rfl
    have hmark : expect [mark] (mark :: (decimalNat n ++ crlf) ++ rest) =
        some (decimalNat n ++ CR :: LF :: rest) := expect_eq_some_iff.mpr (by simp [crlf])
    have hend : expect crlf (CR :: LF :: rest) = some rest := expect_eq_some_iff.mpr rfl
    unfold readHeader
    refine Option.bind_eq_some_iff.mpr ⟨_, hmark, ?_⟩
    refine Option.bind_eq_some_iff.mpr ⟨_, readNumeral_line _ _, ?_⟩
    exact Option.bind_eq_some_iff.mpr ⟨_, hend, rfl⟩

section Array

variable {α : Type} {read : Bytes → Option (α × Bytes)} {write : α → Bytes} {P : α → Prop}

/-- `n` things one after the other, and what is behind them. -/
def readTimes (read : Bytes → Option (α × Bytes)) : Nat → Bytes → Option (List α × Bytes)
  | 0, u => some ([], u)
  | n + 1, u => do
      let (a, u) ← read u
      let (as, u) ← readTimes read n u
      return (a :: as, u)

/-- An array, and what is behind it. -/
def readArray (read : Bytes → Option (α × Bytes)) (u : Bytes) : Option (List α × Bytes) := do
  let (n, u) ← readHeader 42 u
  readTimes read n u

variable (hread : ∀ {u a rest}, read u = some (a, rest) ↔ u = write a ++ rest ∧ P a)
include hread

theorem readTimes_eq_some_iff {n : Nat} {u : Bytes} {as : List α} {rest : Bytes} :
    readTimes read n u = some (as, rest) ↔
      as.length = n ∧ u = as.flatMap write ++ rest ∧ ∀ a ∈ as, P a := by
  induction n generalizing u as with
  | zero =>
      constructor
      · rintro ⟨⟩
        exact ⟨rfl, rfl, by simp⟩
      · rintro ⟨hlen, rfl, -⟩
        rw [List.length_eq_zero_iff.mp hlen]
        rfl
  | succ n ih =>
      constructor
      · intro h
        obtain ⟨⟨a, u₁⟩, h₁, h⟩ := Option.bind_eq_some_iff.mp h
        obtain ⟨⟨as', u₂⟩, h₂, h⟩ := Option.bind_eq_some_iff.mp h
        cases h
        obtain ⟨rfl, ha⟩ := hread.mp h₁
        obtain ⟨rfl, rfl, has⟩ := ih.mp h₂
        exact ⟨rfl, by simp, List.forall_mem_cons.mpr ⟨ha, has⟩⟩
      · rintro ⟨hlen, rfl, has⟩
        obtain ⟨a, as, rfl⟩ := List.exists_cons_of_length_eq_add_one hlen
        obtain ⟨ha, has⟩ := List.forall_mem_cons.mp has
        refine Option.bind_eq_some_iff.mpr ⟨(a, as.flatMap write ++ rest), ?_, ?_⟩
        · exact hread.mpr ⟨by simp, ha⟩
        · refine Option.bind_eq_some_iff.mpr ⟨(as, rest), ?_, rfl⟩
          exact ih.mpr ⟨Nat.succ.inj hlen, rfl, has⟩

theorem readArray_eq_some_iff {u : Bytes} {as : List α} {rest : Bytes} :
    readArray read u = some (as, rest) ↔
      u = header 42 as.length ++ as.flatMap write ++ rest ∧ ∀ a ∈ as, P a := by
  constructor
  · intro h
    obtain ⟨⟨n, u₁⟩, h₁, h⟩ := Option.bind_eq_some_iff.mp h
    obtain ⟨rfl, rfl, has⟩ := (readTimes_eq_some_iff hread).mp h
    rw [readHeader_eq_some_iff.mp h₁, List.append_assoc]
    exact ⟨rfl, has⟩
  · rintro ⟨rfl, has⟩
    refine Option.bind_eq_some_iff.mpr ⟨(as.length, as.flatMap write ++ rest), ?_, ?_⟩
    · exact readHeader_eq_some_iff.mpr (List.append_assoc _ _ _)
    · exact (readTimes_eq_some_iff hread).mpr ⟨rfl, rfl, has⟩

end Array

end Resp
