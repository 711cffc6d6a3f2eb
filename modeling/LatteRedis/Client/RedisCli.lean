import LatteRedis.Foundation.Incremental
import LatteRedis.Foundation.Resp
import LatteRedis.Library

/-!
# The client of the test suite

The tests talk to the server through `redis_cli` of `tests/support/client.tcl`.  A handle
writes one command to a blocking socket and reads one reply, which it hands to the script as
a string.  Strings are the bytes they stand for, since the channel is binary.

The reads block, so the reader is a function of what has arrived, and of whether the server
has closed its end.  `readOneRespReplyBlocking_steady` says that it returns when a reply is
complete, and the lemmas behind it what the script is handed.  `buildRespCommand_eq` is
about the other direction: what is written is the encoding of a command, though not always
of the words of the script, since a single word with spaces in it is taken apart.
-/

namespace LatteRedis

open ByteString Incremental Resp

namespace RedisCli

/-- What the scripts leave to the interpreter: the number in a string, and what `read` makes
of a number of characters. -/
structure Tcl where
  int : Bytes → Except String Int
  count : Int → Except String Nat

/-! ## Reading -/

/-- `gets`. -/
def gets (eof : Bool) : Reader UInt8 Bytes := fun u ↦
  if LF ∈ u then some (u.takeWhile (· ≠ LF), (u.dropWhile (· ≠ LF)).tail)
  else if eof then some (u, []) else none

/-- `read`, of `n` characters. -/
def read (eof : Bool) (n : Nat) : Reader UInt8 Bytes := fun u ↦
  if n ≤ u.length ∨ eof then some (u.take n, u.drop n) else none

/-- A line, without the line terminators at its ends. -/
def readRespLineBlocking (eof : Bool) : Reader UInt8 (Except String Bytes) := fun u ↦
  match gets eof u with
  | none => none
  | some (line, rest) =>
      -- an empty line at the end of the channel is none, also when it is asked for again
      if line = [] ∧ u = [] then some (.error "connection closed", rest)
      -- `string trim` removes the characters that `sds_trim` removes
      else some (.ok (sdsTrimNewlines line), rest)

/-- What the first line of a reply asks for. -/
inductive ReplyLine where
  | /-- Nothing more. -/ done (result : Except String Bytes)
  | /-- A string of `n` bytes, with the end of its line. -/ bulk (n : Nat)
  | /-- The only element of an array. -/ element

def replyLine (T : Tcl) : Bytes → ReplyLine
  | [] => .done (.error "empty line")
  | first :: payload =>
      if first = 43 ∨ first = 45 ∨ first = 58 then .done (.ok payload)
      else if first = 36 then
        if payload = ascii "-1" then .done (.ok [])
        else match T.int payload >>= fun len ↦ T.count (len + 2) with
          | .error e => .done (.error e)
          | .ok n => .bulk n
      else if first = 42 then
        match T.int payload with
        | .error e => .done (.error e)
        | .ok n =>
            if n ≤ 0 then .done (.ok [])
            else if n ≠ 1 then .done (.error "multi-element array not supported")
            else .element
      else .done (.ok (first :: payload))

/-- A line is followed by its LF. -/
theorem takeWhile_append_tail {u : Bytes} (h : LF ∈ u) :
    u.takeWhile (· ≠ LF) ++ LF :: (u.dropWhile (· ≠ LF)).tail = u := by
  have hne : u.dropWhile (· ≠ LF) ≠ [] := by
    intro hnil
    exact absurd (List.dropWhile_eq_nil_iff.mp hnil LF h) (by simp)
  have hhead : (u.dropWhile (· ≠ LF)).head hne = LF := by
    simpa using List.head_dropWhile_not (· ≠ LF) hne
  have hdrop := List.cons_head_tail hne
  rw [hhead] at hdrop
  rw [hdrop, List.takeWhile_append_dropWhile]

theorem length_lt_of_gets {eof : Bool} {u line rest : Bytes} (h : gets eof u = some (line, rest))
    (hu : u ≠ []) : rest.length < u.length := by
  unfold gets at h
  split at h
  · next hmem =>
      obtain ⟨-, rfl⟩ := Prod.mk.inj (Option.some.inj h)
      have hlen := congrArg List.length (takeWhile_append_tail hmem)
      rw [List.length_append, List.length_cons] at hlen
      omega
  · split at h
    · cases h
      exact List.length_pos_iff.mpr hu
    · cases h

theorem length_lt_of_line {eof : Bool} {u line rest : Bytes}
    (h : readRespLineBlocking eof u = some (.ok line, rest)) : rest.length < u.length := by
  unfold readRespLineBlocking at h
  cases hgets : gets eof u with
  | none =>
      rw [hgets] at h
      cases h
  | some p =>
      obtain ⟨line', rest'⟩ := p
      rw [hgets] at h
      dsimp only at h
      split at h
      · cases h
      · next hline =>
          cases h
          refine length_lt_of_gets hgets ?_
          rintro rfl
          refine hline ⟨?_, rfl⟩
          unfold gets at hgets
          split at hgets
          · next hmem => cases hmem
          · split at hgets
            · cases hgets
              rfl
            · cases hgets

/-- One reply, as the script is handed it. -/
def readOneRespReplyBlocking (T : Tcl) (eof : Bool) (u : Bytes) :
    Option (Except String Bytes × Bytes) :=
  match _h : readRespLineBlocking eof u with
  | none => none
  | some (.error e, rest) => some (.error e, rest)
  | some (.ok line, rest) =>
      match replyLine T line with
      | .done result => some (result, rest)
      | .bulk n => (read eof n rest).map fun p ↦ (.ok (p.1.take (p.1.length - 2)), p.2)
      | .element => readOneRespReplyBlocking T eof rest
termination_by u.length
decreasing_by exact length_lt_of_line _h

section Steady

variable {T : Tcl} {eof : Bool} {u v line rest : Bytes} {e : String} {r : Except String Bytes}

theorem readOneRespReplyBlocking_none (h : readRespLineBlocking eof u = none) :
    readOneRespReplyBlocking T eof u = none := by
  rw [readOneRespReplyBlocking]
  split <;> simp_all

theorem readOneRespReplyBlocking_error (h : readRespLineBlocking eof u = some (.error e, rest)) :
    readOneRespReplyBlocking T eof u = some (.error e, rest) := by
  rw [readOneRespReplyBlocking]
  split <;> simp_all

theorem readOneRespReplyBlocking_line (h : readRespLineBlocking eof u = some (.ok line, rest)) :
    readOneRespReplyBlocking T eof u = match replyLine T line with
      | .done result => some (result, rest)
      | .bulk n => (read eof n rest).map fun p ↦ (.ok (p.1.take (p.1.length - 2)), p.2)
      | .element => readOneRespReplyBlocking T eof rest := by
  rw [readOneRespReplyBlocking]
  split <;> simp_all

/-- A line ends at its first LF. -/
theorem gets_eq_some_iff : gets false u = some (line, rest) ↔ u = line ++ LF :: rest ∧ LF ∉ line := by
  unfold gets
  constructor
  · intro h
    split at h
    · next hmem =>
        obtain ⟨rfl, rfl⟩ := Prod.mk.inj (Option.some.inj h)
        refine ⟨(takeWhile_append_tail hmem).symm, ?_⟩
        exact fun hlf ↦ absurd (List.mem_takeWhile_imp hlf) (by simp)
    · cases h
  · rintro ⟨rfl, hlf⟩
    have hall : ∀ b ∈ line, decide (b ≠ LF) = true := by
      intro b hb
      refine decide_eq_true ?_
      rintro rfl
      exact hlf hb
    rw [if_pos (by simp), List.takeWhile_append_of_pos hall, List.dropWhile_append_of_pos hall,
      List.takeWhile_cons_of_neg (by simp), List.dropWhile_cons_of_neg (by simp), List.append_nil,
      List.tail_cons]

theorem gets_steady : Reader.Steady (gets false) := by
  intro u line rest h v
  obtain ⟨rfl, hlf⟩ := gets_eq_some_iff.mp h
  refine gets_eq_some_iff.mpr ⟨?_, hlf⟩
  rw [List.append_assoc, List.cons_append]

theorem read_steady (n : Nat) : Reader.Steady (read false n) := by
  intro u got rest h v
  unfold read at h ⊢
  split at h
  · next hlen =>
      obtain ⟨rfl, rfl⟩ := Prod.mk.inj (Option.some.inj h)
      have hle : n ≤ u.length := hlen.resolve_right Bool.false_ne_true
      rw [if_pos (.inl (by rw [List.length_append]; exact Nat.le_add_right_of_le hle)),
        List.take_append_of_le_length hle, List.drop_append_of_le_length hle]
  · cases h

theorem readRespLineBlocking_steady : Reader.Steady (readRespLineBlocking false) := by
  intro u r rest h v
  unfold readRespLineBlocking at h ⊢
  cases hgets : gets false u with
  | none =>
      rw [hgets] at h
      cases h
  | some p =>
      obtain ⟨line, rest'⟩ := p
      -- what has been read is not empty
      have hne : u ≠ [] := by
        rintro rfl
        cases hgets
      rw [hgets] at h
      rw [gets_steady u line rest' hgets v]
      dsimp only at h ⊢
      rw [if_neg fun hline ↦ hne hline.2] at h
      rw [if_neg fun hline ↦ hne (List.append_eq_nil_iff.mp hline.2).1]
      cases h
      rfl

/-- **The client reads one reply and no more**: what arrives behind it is left for later. -/
theorem readOneRespReplyBlocking_steady (T : Tcl) :
    Reader.Steady (readOneRespReplyBlocking T false) := by
  intro u
  -- each round has consumed a line
  induction hn : u.length using Nat.strong_induction_on generalizing u with
  | h n ih =>
      subst hn
      intro r rest h v
      cases hline : readRespLineBlocking false u with
      | none =>
          rw [readOneRespReplyBlocking_none hline] at h
          cases h
      | some p =>
          obtain ⟨line, rest'⟩ := p
          have hline' := readRespLineBlocking_steady u line rest' hline v
          cases line with
          | error e =>
              rw [readOneRespReplyBlocking_error hline] at h
              rw [readOneRespReplyBlocking_error hline']
              cases h
              rfl
          | ok line =>
              rw [readOneRespReplyBlocking_line hline] at h
              rw [readOneRespReplyBlocking_line hline']
              cases hask : replyLine T line with
              | done result =>
                  rw [hask] at h
                  cases h
                  rfl
              | bulk n =>
                  rw [hask] at h
                  obtain ⟨p, hread, hp⟩ := Option.map_eq_some_iff.mp h
                  obtain ⟨rfl, rfl⟩ := Prod.mk.inj hp
                  dsimp only
                  rw [read_steady n rest' p.1 p.2 hread v]
                  rfl
              | element =>
                  rw [hask] at h
                  exact ih rest'.length (length_lt_of_line hline) rest' rfl r rest h v

end Steady

/-! ## Replies -/

/-- Decimal numerals are read as numbers, and as many characters as fit a C `int` are read. -/
structure Tcl.Reads (T : Tcl) : Prop where
  int : ∀ n : Int, -2 ^ 63 ≤ n → n < 2 ^ 63 → T.int (decimal n) = .ok n
  count : ∀ n : Nat, n < 2 ^ 31 → T.count n = .ok n

/-- An interpreter that reads nothing else. -/
def Tcl.sample : Tcl where
  int s := match strictDecimal s with
    | none => .error "expected integer"
    | some n => .ok n
  count n := if 0 ≤ n ∧ n < 2 ^ 31 then .ok n.toNat else .error "expected non-negative integer"

theorem Tcl.sample_reads : Tcl.sample.Reads := by
  constructor
  · intro n hlo hhi
    unfold Tcl.sample
    dsimp only
    rw [strictDecimal_eq_some_iff.mpr ⟨rfl, hlo, hhi⟩]
  · intro n hn
    have hrange : 0 ≤ (n : Int) ∧ (n : Int) < 2 ^ 31 := ⟨Int.natCast_nonneg n, by omega⟩
    unfold Tcl.sample
    dsimp only
    rw [if_pos hrange, Int.toNat_natCast]

section Replies

variable {T : Tcl} {s : Bytes}

theorem ascii_minusOne : ascii "-1" = decimal (-1) := by decide

theorem sdsTrimNewlines_of_line (hcr : CR ∉ s) (hlf : LF ∉ s) : sdsTrimNewlines (s ++ [CR]) = s := by
  have hclean : ∀ t : Bytes, CR ∉ t → LF ∉ t →
      t.dropWhile (fun b ↦ decide (b = CR ∨ b = LF)) = t := by
    intro t hcr hlf
    rw [List.dropWhile_eq_self_iff]
    intro hlen hb
    rcases of_decide_eq_true hb with hb | hb
    · exact hcr (hb ▸ List.getElem_mem hlen)
    · exact hlf (hb ▸ List.getElem_mem hlen)
  unfold sdsTrimNewlines
  dsimp only
  cases s with
  | nil => rfl
  | cons b t =>
      simp only [List.mem_cons, not_or] at hcr hlf
      rw [List.cons_append, List.dropWhile_cons_of_neg (by simp [Ne.symm hcr.1, Ne.symm hlf.1]),
        List.reverse_cons, List.reverse_append, List.reverse_singleton, List.singleton_append,
        List.cons_append, List.dropWhile_cons_of_pos (by simp), ← List.reverse_cons, hclean,
        List.reverse_reverse]
      · simp [hcr]
      · simp [hlf]

theorem readRespLineBlocking_crlf (hcr : CR ∉ s) (hlf : LF ∉ s) (rest : Bytes) :
    readRespLineBlocking false (s ++ crlf ++ rest) = some (.ok s, rest) := by
  have hgets : gets false (s ++ crlf ++ rest) = some (s ++ [CR], rest) := by
    refine gets_eq_some_iff.mpr ⟨by simp [crlf], ?_⟩
    rw [List.mem_append, List.mem_singleton, not_or]
    exact ⟨hlf, by decide⟩
  unfold readRespLineBlocking
  rw [hgets]
  dsimp only
  rw [if_neg (by simp), sdsTrimNewlines_of_line hcr hlf]

/-- Statuses, errors and numbers. -/
theorem reads_line {first : UInt8} (hfirst : first = 43 ∨ first = 45 ∨ first = 58) (hcr : CR ∉ s)
    (hlf : LF ∉ s) : readOneRespReplyBlocking T false (first :: s ++ crlf) = some (.ok s, []) := by
  have hclean : CR ∉ first :: s ∧ LF ∉ first :: s := by
    rw [List.mem_cons, List.mem_cons, not_or, not_or]
    rcases hfirst with rfl | rfl | rfl
    · exact ⟨⟨by decide, hcr⟩, by decide, hlf⟩
    · exact ⟨⟨by decide, hcr⟩, by decide, hlf⟩
    · exact ⟨⟨by decide, hcr⟩, by decide, hlf⟩
  have hline := readRespLineBlocking_crlf hclean.1 hclean.2 []
  rw [List.append_nil] at hline
  rw [readOneRespReplyBlocking_line hline, replyLine, if_pos hfirst]

theorem reads_bulk (hT : T.Reads) (hlen : s.length + 2 < 2 ^ 31) :
    readOneRespReplyBlocking T false (bulk s) = some (.ok s, []) := by
  obtain ⟨-, hcr, hlf⟩ := decimal_clean s.length
  have hline : readRespLineBlocking false (bulk s) = some (.ok (36 :: decimal s.length), s ++ crlf) := by
    have hsplit : bulk s = (36 :: decimal s.length) ++ crlf ++ (s ++ crlf) := by
      simp only [bulk, header, List.append_assoc]
    rw [hsplit]
    refine readRespLineBlocking_crlf ?_ ?_ _
    · exact List.not_mem_cons_of_ne_of_not_mem (by decide) hcr
    · exact List.not_mem_cons_of_ne_of_not_mem (by decide) hlf
  have hcount : (T.int (decimal s.length) >>= fun len ↦ T.count (len + 2)) = .ok (s.length + 2) := by
    rw [hT.int s.length (by omega) (by omega)]
    exact hT.count (s.length + 2) hlen
  have hread : read false (s.length + 2) (s ++ crlf) = some (s ++ crlf, []) := by
    have hall : (s ++ crlf).length = s.length + 2 := List.length_append
    unfold read
    rw [if_pos (.inl hall.ge), ← hall, List.take_length, List.drop_length]
  have hminus : decimal s.length ≠ ascii "-1" := by
    intro h
    have := decimal_injective (h.trans ascii_minusOne)
    omega
  rw [readOneRespReplyBlocking_line hline, replyLine, if_neg (by decide), if_pos rfl,
    if_neg hminus, hcount]
  dsimp only
  rw [hread, Option.map_some]
  simp [crlf]

theorem reads_nullArray (hT : T.Reads) :
    readOneRespReplyBlocking T false (ascii "*-1" ++ crlf) = some (.ok [], []) := by
  have hline := readRespLineBlocking_crlf (s := ascii "*-1") (by decide) (by decide) []
  rw [List.append_nil] at hline
  have hint : T.int (ascii "-1") = .ok (-1) := by
    rw [ascii_minusOne]
    exact hT.int (-1) (by decide) (by decide)
  rw [readOneRespReplyBlocking_line hline]
  rw [show ascii "*-1" = 42 :: ascii "-1" from rfl, replyLine, if_neg (by decide),
    if_neg (by decide), if_pos rfl, hint]
  rfl

end Replies

/-! ## Commands -/

/-- The arguments of a command.  A single word is split at its spaces, and a single empty
word is no argument. -/
def respArgs (args : List Bytes) : List Bytes :=
  let args := match args with
    | [a] => if 32 ∈ a then a.splitOn 32 else [a]
    | args => args
  if args = [] ∨ args = [[]] then [] else args

def buildRespCommand (cmd : Bytes) (args : List Bytes) : Bytes :=
  let args := respArgs args
  let out := ascii "*" ++ decimal (1 + args.length : Nat) ++ crlf
  let out := out ++ (ascii "$" ++ decimal cmd.length ++ crlf ++ cmd ++ crlf)
  args.foldl (fun out a ↦ out ++ (ascii "$" ++ decimal a.length ++ crlf ++ a ++ crlf)) out

/-- What is written is one command. -/
theorem buildRespCommand_eq (cmd : Bytes) (args : List Bytes) :
    buildRespCommand cmd args = encode (cmd :: respArgs args) := by
  have hbulk : ∀ a : Bytes, ascii "$" ++ decimal a.length ++ crlf ++ a ++ crlf = bulk a := fun _ ↦ rfl
  unfold buildRespCommand encode
  simp only [hbulk, List.foldl_append_eq_append, List.map_cons, List.flatten_cons, List.length_cons,
    Nat.add_comm 1]
  rw [← List.append_assoc]
  rfl

end RedisCli

end LatteRedis
