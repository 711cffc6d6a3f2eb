import Mathlib.Data.List.TakeWhile
import Mathlib.Data.Nat.Digits.Lemmas
import Mathlib.Tactic.Ring

/-!
# Byte strings as a C program sees them

A length-counted buffer is a list of bytes.  A C function that is handed only a
pointer into such a buffer sees less: `strchr` stops at the first NUL, and so does
every string copy that is not told a length.  This file collects the two views and
the facts a streaming program needs about them:

* `strchr` scans for a byte and gives up at a NUL; `strchr_eq_some_iff` says which
  prefix it has skipped, and the `append` lemmas say how the answer changes when
  more bytes arrive behind the buffer;
* `cString` is the part of a buffer in front of its first NUL;
* `decimal` prints an integer; `decimal_injective` and `decimal_length_le` are what
  a strict parser needs to invert it.
-/

namespace ByteString

/-- A byte buffer together with its length. -/
abbrev Bytes := List UInt8

/-- The bytes of an ASCII literal of the source. -/
def ascii (s : String) : Bytes := s.toList.map fun c ↦ UInt8.ofNat c.toNat

/-- Carriage return. -/
def CR : UInt8 := 13

/-- Line feed. -/
def LF : UInt8 := 10

/-- The two-byte line terminator. -/
def crlf : Bytes := [CR, LF]

/-! ## Scanning for a byte -/

/-- `strchr(s, c)`, as an offset from `s`.  The buffer is followed by a NUL, so
running off its end and meeting a NUL inside it are the same answer. -/
def strchr (c : UInt8) : Bytes → Option Nat
  | [] => none
  | b :: bs => if b = c then some 0 else if b = 0 then none else (strchr c bs).map (· + 1)

@[simp] theorem strchr_nil (c : UInt8) : strchr c [] = none := rfl

/-- `strchr` finds `c` exactly behind a line that contains neither `c` nor a NUL. -/
theorem strchr_eq_some_iff {c : UInt8} {u : Bytes} {p : Nat} :
    strchr c u = some p ↔
      ∃ line rest, u = line ++ c :: rest ∧ line.length = p ∧ c ∉ line ∧ (0 : UInt8) ∉ line := by
  induction u generalizing p with
  | nil => simp
  | cons b bs ih =>
      unfold strchr
      by_cases hb : b = c
      · subst hb
        rw [if_pos rfl]
        constructor
        · rintro ⟨⟩
          exact ⟨[], bs, rfl, rfl, by simp, by simp⟩
        · rintro ⟨line, rest, heq, hlen, hc, -⟩
          cases line with
          | nil => rw [← hlen]; rfl
          | cons x xs =>
              simp only [List.cons_append, List.cons.injEq] at heq
              exact absurd (heq.1 ▸ List.mem_cons_self) hc
      · rw [if_neg hb]
        by_cases h0 : b = 0
        · subst h0
          rw [if_pos rfl]
          refine ⟨fun h ↦ by simp at h, ?_⟩
          rintro ⟨line, rest, heq, hlen, -, hz⟩
          cases line with
          | nil => simp only [List.nil_append, List.cons.injEq] at heq; exact absurd heq.1 hb
          | cons x xs =>
              simp only [List.cons_append, List.cons.injEq] at heq
              exact absurd (heq.1 ▸ List.mem_cons_self) hz
        · rw [if_neg h0]
          simp only [Option.map_eq_some_iff, ih]
          constructor
          · rintro ⟨q, ⟨line, rest, rfl, rfl, hc, hz⟩, rfl⟩
            refine ⟨b :: line, rest, rfl, rfl, ?_, ?_⟩
            · simp [hc, Ne.symm hb]
            · simp [hz, Ne.symm h0]
          · rintro ⟨line, rest, heq, hlen, hc, hz⟩
            cases line with
            | nil => simp only [List.nil_append, List.cons.injEq] at heq; exact absurd heq.1 hb
            | cons x xs =>
                simp only [List.cons_append, List.cons.injEq] at heq
                obtain ⟨rfl, rfl⟩ := heq
                simp only [List.mem_cons, not_or] at hc hz
                exact ⟨xs.length, ⟨xs, rest, rfl, rfl, hc.2, hz.2⟩, hlen⟩

/-- The scan of a line that hides nothing ends at its terminator. -/
theorem strchr_line {c : UInt8} {line : Bytes} (rest : Bytes) (hc : c ∉ line)
    (hz : (0 : UInt8) ∉ line) : strchr c (line ++ c :: rest) = some line.length :=
  strchr_eq_some_iff.mpr ⟨line, rest, rfl, rfl, hc, hz⟩

/-- The offset `strchr` answers lies inside the buffer. -/
theorem strchr_lt {c : UInt8} {u : Bytes} {p : Nat} (h : strchr c u = some p) : p < u.length := by
  obtain ⟨line, rest, rfl, rfl, -, -⟩ := strchr_eq_some_iff.mp h
  simp

/-- More bytes behind the buffer do not move a byte that was already found. -/
theorem strchr_append {c : UInt8} {u : Bytes} {p : Nat} (h : strchr c u = some p) (v : Bytes) :
    strchr c (u ++ v) = some p := by
  obtain ⟨line, rest, rfl, rfl, hc, hz⟩ := strchr_eq_some_iff.mp h
  rw [List.append_assoc, List.cons_append]
  exact strchr_line _ hc hz

/-- A byte that only shows up once more bytes have arrived lies among those. -/
theorem le_of_strchr_append {c : UInt8} {u v : Bytes} {p : Nat} (h : strchr c u = none)
    (h' : strchr c (u ++ v) = some p) : u.length ≤ p := by
  by_contra hlt
  obtain ⟨line, rest, heq, rfl, hc, hz⟩ := strchr_eq_some_iff.mp h'
  obtain ⟨mid, hmid, -⟩ | ⟨mid, hmid, -⟩ := List.append_eq_append_iff.mp heq
  · exact hlt (by simp [hmid])
  · cases mid with
    | nil => exact hlt (by simp [hmid])
    | cons x xs =>
        simp only [List.append_cancel_left_eq, List.cons_append, List.cons.injEq,
          hmid, List.append_assoc] at heq
        obtain ⟨rfl, -⟩ := heq
        rw [hmid, strchr_line xs hc hz] at h
        exact absurd h (by simp)

/-- Bytes that do not contain `c` do not make a scan for it succeed. -/
theorem strchr_append_of_notMem {c : UInt8} {u v : Bytes} (h : strchr c u = none) (hv : c ∉ v) :
    strchr c (u ++ v) = none := by
  cases h' : strchr c (u ++ v) with
  | none => rfl
  | some p =>
      have hle := le_of_strchr_append h h'
      obtain ⟨line, rest, heq, rfl, -, -⟩ := strchr_eq_some_iff.mp h'
      have hmem : c ∈ (u ++ v).drop u.length := by
        rw [heq, List.drop_append_of_le_length hle]
        simp
      exact absurd (by simpa using hmem) hv

/-! ## The C-string view -/

/-- The bytes a C string function sees of a buffer: those in front of its first NUL. -/
def cString (s : Bytes) : Bytes := s.takeWhile (· ≠ 0)

/-- A buffer without a NUL is its own C string. -/
theorem cString_of_notMem {s : Bytes} (h : (0 : UInt8) ∉ s) : cString s = s := by
  apply List.takeWhile_eq_self_iff.mpr
  intro b hb
  simp only [decide_eq_true_eq]
  exact fun h0 ↦ h (h0 ▸ hb)

theorem cString_ne {s : Bytes} (h : (0 : UInt8) ∈ s) : cString s ≠ s := by
  intro heq
  have hall := List.takeWhile_eq_self_iff.mp heq 0 h
  simp at hall

/-- ASCII lower case, as `tolower` in the C locale. -/
def lower (b : UInt8) : UInt8 := if 65 ≤ b ∧ b ≤ 90 then b + 32 else b

/-- ASCII upper case, as `toupper` in the C locale. -/
def upper (b : UInt8) : UInt8 := if 97 ≤ b ∧ b ≤ 122 then b - 32 else b

/-- `!strcasecmp(s, t)`. -/
def strcaseeq (s t : Bytes) : Bool := (cString s).map lower = (cString t).map lower

/-! ## Decimal numerals -/

/-- The ASCII digit of a number below ten. -/
def digit (d : Nat) : UInt8 := UInt8.ofNat (48 + d)

/-- The decimal numeral of a natural number. -/
def decimalNat (n : Nat) : Bytes :=
  if n = 0 then [48] else ((Nat.digits 10 n).reverse).map digit

/-- The decimal numeral of an integer, with a leading minus sign when negative. -/
def decimal (n : Int) : Bytes :=
  if n < 0 then 45 :: decimalNat n.natAbs else decimalNat n.natAbs

/-- Every byte of a numeral is an ASCII digit. -/
theorem mem_decimalNat {n : Nat} {b : UInt8} (h : b ∈ decimalNat n) : ∃ d < 10, b = digit d := by
  unfold decimalNat at h
  split at h
  · exact ⟨0, by omega, by simpa [digit] using h⟩
  · simp only [List.mem_map, List.mem_reverse] at h
    obtain ⟨d, hd, rfl⟩ := h
    exact ⟨d, Nat.digits_lt_base (by omega) hd, rfl⟩

/-- No digit is a minus sign, a NUL or a line terminator. -/
theorem digit_ne {d : Nat} (hd : d < 10) :
    digit d ≠ 45 ∧ digit d ≠ 0 ∧ digit d ≠ CR ∧ digit d ≠ LF := by
  unfold CR LF digit
  refine ⟨?_, ?_, ?_, ?_⟩ <;>
  · intro h
    have h' := congrArg UInt8.toNat h
    simp at h'
    omega

/-- The number a run of digits denotes. -/
def ofDecimal (s : Bytes) : Nat := s.foldl (fun acc b ↦ acc * 10 + (b.toNat - 48)) 0

theorem ofDecimal_decimalNat (n : Nat) : ofDecimal (decimalNat n) = n := by
  have hfold : ∀ l : List Nat, (∀ d ∈ l, d < 10) →
      (l.reverse.map digit).foldl (fun acc b ↦ acc * 10 + (b.toNat - 48)) 0 =
        Nat.ofDigits 10 l := by
    intro l hl
    rw [List.map_reverse, List.foldl_reverse, Nat.ofDigits_eq_foldr]
    induction l with
    | nil => rfl
    | cons d l ih =>
        have hd : (digit d).toNat - 48 = d := by
          have := hl d (by simp)
          simp only [digit, UInt8.toNat_ofNat']
          omega
        simp only [List.map_cons, List.foldr_cons, hd,
          ih (fun x hx ↦ hl x (by simp [hx])), Nat.cast_id]
        ring
  unfold ofDecimal decimalNat
  split
  · next h => simp [h]
  · rw [hfold _ fun d hd ↦ Nat.digits_lt_base (by omega) hd, Nat.ofDigits_digits]

theorem decimalNat_injective : Function.Injective decimalNat :=
  Function.LeftInverse.injective ofDecimal_decimalNat

theorem decimal_injective : Function.Injective decimal := by
  have hminus : ∀ n m : Nat, decimalNat n ≠ 45 :: decimalNat m := fun n m h ↦ by
    obtain ⟨d, hd, he⟩ := mem_decimalNat (n := n) (b := 45) (by rw [h]; simp)
    exact (digit_ne hd).1 he.symm
  intro n m h
  unfold decimal at h
  split at h <;> split at h
  · have := decimalNat_injective (List.cons.inj h).2
    omega
  · exact absurd h.symm (hminus _ _)
  · exact absurd h (hminus _ _)
  · have := decimalNat_injective h
    omega

/-- A numeral has neither a NUL nor a line terminator in it. -/
theorem decimal_clean (n : Int) :
    (0 : UInt8) ∉ decimal n ∧ CR ∉ decimal n ∧ LF ∉ decimal n := by
  have hnat : ∀ b ∈ decimalNat n.natAbs, b ≠ 0 ∧ b ≠ CR ∧ b ≠ LF := fun b hb ↦ by
    obtain ⟨d, hd, rfl⟩ := mem_decimalNat hb
    exact (digit_ne hd).2
  have hall : ∀ b ∈ decimal n, b ≠ 0 ∧ b ≠ CR ∧ b ≠ LF := fun b hb ↦ by
    unfold decimal at hb
    split at hb
    · rcases List.mem_cons.mp hb with rfl | hb
      · decide
      · exact hnat b hb
    · exact hnat b hb
  exact ⟨fun h ↦ (hall _ h).1 rfl, fun h ↦ (hall _ h).2.1 rfl, fun h ↦ (hall _ h).2.2 rfl⟩

theorem decimalNat_length_le {n k : Nat} (hk : 0 < k) (h : n < 10 ^ k) :
    (decimalNat n).length ≤ k := by
  unfold decimalNat
  split
  · exact hk
  · rw [List.length_map, List.length_reverse]
    exact (Nat.digits_length_le_iff (by omega) n).mpr h

/-- A 64-bit integer is printed in at most twenty bytes. -/
theorem decimal_length_le {n : Int} (h₁ : -2 ^ 63 ≤ n) (h₂ : n < 2 ^ 63) :
    (decimal n).length ≤ 20 := by
  have hn : (decimalNat n.natAbs).length ≤ 19 := decimalNat_length_le (by omega) (by omega)
  unfold decimal
  split
  · simp only [List.length_cons]; omega
  · omega

/-- A strict parser of 64-bit decimal integers: it accepts exactly what `decimal` prints. -/
def strictDecimal (s : Bytes) : Option Int :=
  let n : Int := if s.head? = some 45 then -ofDecimal s.tail else ofDecimal s
  if decimal n = s ∧ -2 ^ 63 ≤ n ∧ n < 2 ^ 63 then some n else none

theorem strictDecimal_eq_some_iff {s : Bytes} {n : Int} :
    strictDecimal s = some n ↔ s = decimal n ∧ -2 ^ 63 ≤ n ∧ n < 2 ^ 63 := by
  have hread : ∀ n : Int, (if (decimal n).head? = some 45 then -(ofDecimal (decimal n).tail : Int)
      else ofDecimal (decimal n)) = n := fun n ↦ by
    unfold decimal
    split
    · next hn =>
        simp only [List.head?_cons, ↓reduceIte, List.tail_cons, ofDecimal_decimalNat]
        omega
    · next hn =>
        rw [if_neg, ofDecimal_decimalNat]
        · omega
        · intro h
          obtain ⟨d, hd, he⟩ := mem_decimalNat (List.mem_of_mem_head? h)
          exact (digit_ne hd).1 he.symm
  unfold strictDecimal
  constructor
  · intro h
    simp only [Option.ite_none_right_eq_some] at h
    obtain ⟨⟨hs, hlo, hhi⟩, ⟨⟩⟩ := h
    exact ⟨hs.symm, hlo, hhi⟩
  · rintro ⟨rfl, hlo, hhi⟩
    simp only [hread]
    rw [if_pos ⟨trivial, hlo, hhi⟩]

end ByteString
