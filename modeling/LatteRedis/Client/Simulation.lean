import LatteRedis.Client.Decoder

/-!
# `process_multibulk_buffer` follows the decoder

`Rep rc s` says that the fields of `rc` stand for the situation `s` of the decoder, and
`Follows` says what a call of `process_multibulk_buffer` has to return for each outcome
of the decoder on the unread bytes.  The proof goes through the function piece by piece:
one lemma for the count line, one for a length line, one for the bytes of an argument,
and an induction over the arguments that are missing.
-/

namespace LatteRedis

open ByteString Incremental

/-! ## Clients and situations -/

/-- `rc'` differs from `rc` only in the fields the multibulk parser works on. -/
def RedisClient.ParsedInto (rc rc' : RedisClient) : Prop :=
  rc' = { rc with
    querybuf := rc'.querybuf, qbPos := rc'.qbPos, argc := rc'.argc, argv := rc'.argv
    argvLenSum := rc'.argvLenSum, bulkLen := rc'.bulkLen, multiBulkLen := rc'.multiBulkLen }

theorem RedisClient.ParsedInto.refl (rc : RedisClient) : rc.ParsedInto rc := rfl

theorem RedisClient.ParsedInto.trans {a b c : RedisClient} (h : a.ParsedInto b)
    (h' : b.ParsedInto c) : a.ParsedInto c := by
  unfold RedisClient.ParsedInto at *
  rw [h', h]

/-- The position of the parser is inside the buffer. -/
def RedisClient.InBuffer (rc : RedisClient) : Prop := rc.qbPos ≤ rc.querybuf.length

/-- The client `rc` stands for the situation `s`. -/
def Rep (rc : RedisClient) : Expect → Prop
  | .count => rc.multiBulkLen = 0 ∧ rc.bulkLen = -1 ∧ rc.argc = 0 ∧ rc.argv ≠ .wild
  | .bulks n args bulk =>
      rc.multiBulkLen = n + 1 ∧ rc.bulkLen = bulk.elim (-1) Nat.cast ∧ rc.argc = args.length ∧
      ∃ vals, rc.argv = .live ⟨args.length + n + 1, vals⟩ ∧ Texts vals args

/-- The argument vector of `rc` is `args`, and nothing is missing. -/
structure Loaded (rc : RedisClient) (args : List Bytes) : Prop where
  multiBulkLen : rc.multiBulkLen = 0
  bulkLen : rc.bulkLen = -1
  argc : rc.argc = args.length
  holds : args ≠ [] → rc.Holds args
  args : rc.args.map LatteObject.content = args
  argv : rc.argv ≠ .wild

/-- What a call on `rc` returns when the decoder ends with a given outcome. -/
def Follows (L : LatteC) (rc : RedisClient) (r : Except Fault (Int × RedisClient)) :
    Outcome UInt8 Expect (List Bytes) → Prop
  | .more s u => ∃ rc', r = .ok (-1, rc') ∧ rc.ParsedInto rc' ∧ rc'.InBuffer ∧
      Rep rc' s ∧ rc'.unread = u
  | .fail s u => ∃ rc₁ rc', r = .ok (-1, rc') ∧ Errored L rc₁ rc' ∧ rc.ParsedInto rc₁ ∧
      rc₁.InBuffer ∧ Rep rc₁ s ∧ rc₁.unread = u
  | .done args u => ∃ rc', r = .ok (0, rc') ∧ rc.ParsedInto rc' ∧ rc'.InBuffer ∧
      Loaded rc' args ∧ rc'.unread = u

theorem Follows.of_parsedInto {L : LatteC} {rc rc₁ : RedisClient} (h : rc.ParsedInto rc₁)
    {r : Except Fault (Int × RedisClient)} {o : Outcome UInt8 Expect (List Bytes)}
    (hf : Follows L rc₁ r o) : Follows L rc r o := by
  match o, hf with
  | .more s u, ⟨rc', hr, hp, hrest⟩ => exact ⟨rc', hr, h.trans hp, hrest⟩
  | .fail s u, ⟨rc₂, rc', hr, he, hp, hrest⟩ => exact ⟨rc₂, rc', hr, he, h.trans hp, hrest⟩
  | .done args u, ⟨rc', hr, hp, hrest⟩ => exact ⟨rc', hr, h.trans hp, hrest⟩

/-- Which situation a client stands for is a matter of the counters and the vector. -/
theorem Rep.of_eq {rc rc' : RedisClient} {s : Expect} (h : Rep rc s)
    (hmbl : rc'.multiBulkLen = rc.multiBulkLen) (hbl : rc'.bulkLen = rc.bulkLen)
    (hargc : rc'.argc = rc.argc) (hargv : rc'.argv = rc.argv) : Rep rc' s := by
  cases s with
  | count | bulks n args bulk =>
      unfold Rep at h ⊢
      rw [hmbl, hbl, hargc, hargv]
      exact h

theorem RedisClient.InBuffer.usub_eq {rc : RedisClient} (h : rc.InBuffer) :
    usub rc.querybuf.length rc.qbPos = rc.unread.length := by
  rw [usub_of_le h, RedisClient.unread, List.length_drop]

theorem RedisClient.InBuffer.length_eq {rc : RedisClient} (h : rc.InBuffer) :
    rc.querybuf.length = rc.qbPos + rc.unread.length := by
  unfold RedisClient.InBuffer at h
  rw [RedisClient.unread, List.length_drop]
  omega

/-- Moving the position forward drops unread bytes. -/
theorem RedisClient.unread_advance (rc : RedisClient) (k : Nat) :
    ({ rc with qbPos := rc.qbPos + k } : RedisClient).unread = rc.unread.drop k := by
  unfold RedisClient.unread
  rw [List.drop_drop]

theorem RedisClient.InBuffer.advance {rc : RedisClient} (h : rc.InBuffer) {k : Nat}
    (hk : k ≤ rc.unread.length) : ({ rc with qbPos := rc.qbPos + k } : RedisClient).InBuffer := by
  have := h.length_eq
  show rc.qbPos + k ≤ rc.querybuf.length
  omega

/-! ## The count line -/

variable {L : LatteC} {master : Bool}

/-- The result of reading the count line, for each verdict on it. -/
def FollowsCount (L : LatteC) (rc : RedisClient) (r : Except Fault Flow) :
    Verdict Expect (List Bytes) → Prop
  | .more => r = .ok (.ret (-1) rc)
  | .fail => ∃ rc', r = .ok (.ret (-1) rc') ∧ Errored L rc rc'
  | .done args k => args = [] ∧ r = .ok (.ret 0 { rc with qbPos := rc.qbPos + k })
  | .next s k => ∃ n : Nat, s = .bulks n [] none ∧
      r = ({ rc with qbPos := rc.qbPos + k, multiBulkLen := n + 1 }.newArgv (n + 1)).map .next

theorem readMultibulkLen_follows {rc : RedisClient} (hargc : rc.argc = 0) (hq : rc.InBuffer)
    (hstar : ∀ b ∈ rc.unread.head?, b = 42) :
    FollowsCount L rc (readMultibulkLen L rc) (onLine rc.unread (countVerdict L)) := by
  have hlen := hq.length_eq
  unfold readMultibulkLen
  rw [if_neg (by simp [hargc]), hq.usub_eq]
  cases hcr : strchr CR rc.unread with
  | none =>
      by_cases hlong : rc.unread.length > protoInlineMaxSize
      · rw [onLine_of_tooLong (by rw [scanLine_of_none hcr, if_pos hlong])]
        simp only [hlong, if_true]
        exact ⟨_, rfl, errored_protocolError _ _ _ _⟩
      · rw [onLine_of_wait (by rw [scanLine_of_none hcr, if_neg hlong])]
        simp only [hlong, if_false]
        rfl
  | some p =>
      by_cases hp : p + 2 ≤ rc.unread.length
      · have hne : ¬ ((p : Int) > rc.querybuf.length - rc.qbPos - 2) := by omega
        have hhead : rc.unread.head? = some 42 := by
          cases hu : rc.unread.head? with
          | none =>
              rw [List.head?_eq_none_iff] at hu
              rw [hu] at hp
              simp at hp
          | some b => rw [hstar b hu]
        rw [onLine_of_line (scanLine_of_strchr hcr hp)]
        simp only [hne, hhead, if_false, ne_eq, not_true, countVerdict]
        cases hll : L.string2ll ((rc.unread.take p).drop 1) with
        | none => exact ⟨_, rfl, errored_protocolError _ _ _ _⟩
        | some ll =>
            by_cases hbig : ll > 1024 * 1024
            · simp only [hbig, if_true]
              exact ⟨_, rfl, errored_protocolError _ _ _ _⟩
            · by_cases hle : ll ≤ 0
              · simp only [hbig, hle, authRequired, if_true, if_false, Bool.false_eq_true, and_false]
                exact ⟨rfl, by rw [Nat.add_assoc]⟩
              · simp only [hbig, hle, authRequired, if_false, Bool.false_eq_true, and_false]
                refine ⟨ll.toNat - 1, rfl, ?_⟩
                rw [show ((ll.toNat - 1 : Nat) : Int) + 1 = ll by omega,
                  show ll.toNat - 1 + 1 = ll.toNat by omega, Nat.add_assoc]
                rfl
      · have hgt : (p : Int) > rc.querybuf.length - rc.qbPos - 2 := by omega
        rw [onLine_of_wait (scanLine_of_short hcr hp)]
        simp only [hgt, if_true]
        rfl

theorem newArgv_ok {rc : RedisClient} (h : rc.argv ≠ .wild) (slots : Nat) :
    rc.newArgv slots = .ok { rc with argv := .live ⟨slots, []⟩, argvLenSum := 0 } := by
  unfold RedisClient.newArgv
  cases ha : rc.argv with
  | wild => exact absurd ha h
  | null | live a => rfl

/-- Behind the count line the whole vector is missing. -/
theorem rep_newArgv {rc : RedisClient} (hbl : rc.bulkLen = -1) (hargc : rc.argc = 0) (n k : Nat) :
    Rep { rc with
      qbPos := rc.qbPos + k, multiBulkLen := n + 1, argv := .live ⟨n + 1, []⟩, argvLenSum := 0 }
      (.bulks n [] none) :=
  ⟨rfl, hbl, hargc, [], by rw [List.length_nil, Nat.zero_add], rfl, by simp⟩

/-- A vector that was never allocated cannot be freed. -/
theorem newArgv_wild {rc : RedisClient} (h : rc.argv = .wild) (slots : Nat) :
    rc.newArgv slots = .error .badPointer := by
  unfold RedisClient.newArgv
  rw [h]

/-! ## Length lines -/

/-- The result of reading a length line, for each verdict on it. -/
def FollowsLength (L : LatteC) (rc : RedisClient) (r : Flow) :
    Verdict Expect (List Bytes) → Prop
  | .more => r = .brk rc
  | .fail => ∃ rc', r = .ret (-1) rc' ∧ Errored L rc rc'
  | .done _ _ => False
  | .next s k => ∃ rc', r = .next rc' ∧ rc.ParsedInto rc' ∧ rc'.InBuffer ∧ Rep rc' s ∧
      rc'.unread = rc.unread.drop k

theorem readBulkLen_follows {rc : RedisClient} {n : Nat} {args : List Bytes}
    (hrep : Rep rc (.bulks n args none)) (hq : rc.InBuffer) :
    FollowsLength L rc (readBulkLen L rc)
      (onLine rc.unread (lengthVerdict L rc.isMaster n args)) := by
  obtain ⟨hmbl, -, hargc, vals, hargv, hvals⟩ := hrep
  have hlen := hq.length_eq
  unfold readBulkLen
  rw [hq.usub_eq]
  cases hcr : strchr CR rc.unread with
  | none =>
      by_cases hlong : rc.unread.length > protoInlineMaxSize
      · rw [onLine_of_tooLong (by rw [scanLine_of_none hcr, if_pos hlong])]
        simp only [hlong, if_true]
        exact ⟨_, rfl, errored_protocolError _ _ _ _⟩
      · rw [onLine_of_wait (by rw [scanLine_of_none hcr, if_neg hlong])]
        simp only [hlong, if_false]
        rfl
  | some p =>
      by_cases hp : p + 2 ≤ rc.unread.length
      · have hne : ¬ ((p : Int) > rc.querybuf.length - rc.qbPos - 2) := by omega
        have hhead : (rc.unread.take p).head? = some 36 ↔ rc.unread.head? = some 36 := by
          obtain ⟨line, rest, hu, rfl, -, -⟩ := strchr_eq_some_iff.mp hcr
          rw [hu, List.take_left]
          cases line with
          | nil => simp [CR]
          | cons b line => rfl
        rw [onLine_of_line (scanLine_of_strchr hcr hp)]
        simp only [hne, if_false, lengthVerdict, ne_eq, hhead]
        by_cases hmark : rc.unread.head? = some 36
        · simp only [hmark, not_true, if_false]
          cases hll : L.string2ll ((rc.unread.take p).drop 1) with
          | none => exact ⟨_, rfl, errored_protocolError _ _ _ _⟩
          | some ll =>
              by_cases hbad : ll < 0 ∨ (¬ rc.isMaster ∧ ll > protoMaxBulkLen)
              · simp only [hbad, if_true]
                exact ⟨_, rfl, errored_protocolError _ _ _ _⟩
              · simp only [hbad, authRequired, if_false, Bool.false_eq_true, and_false]
                have hcast : ll = ((ll.toNat : Nat) : Int) := by
                  rw [Int.toNat_of_nonneg]
                  omega
                rw [Nat.add_assoc]
                -- bringing the rest of the buffer to the front keeps the unread bytes
                split
                · exact ⟨_, rfl, rfl, Nat.zero_le _, ⟨hmbl, hcast, hargc, vals, hargv, hvals⟩,
                    rc.unread_advance (p + 2)⟩
                · exact ⟨_, rfl, rfl, hq.advance hp, ⟨hmbl, hcast, hargc, vals, hargv, hvals⟩,
                    rc.unread_advance (p + 2)⟩
        · simp only [hmark, not_false_iff, if_true]
          exact ⟨_, rfl, _, _, rfl⟩
      · have hgt : (p : Int) > rc.querybuf.length - rc.qbPos - 2 := by omega
        rw [onLine_of_wait (scanLine_of_short hcr hp)]
        simp only [hgt, if_true]
        rfl

/-! ## The bytes of an argument -/

/-- The client after argument number `args.length` has been read. -/
structure ArgRead (rc rc' : RedisClient) (n : Nat) (args : List Bytes) (k : Nat) : Prop where
  parsed : rc.ParsedInto rc'
  inBuffer : rc'.InBuffer
  multiBulkLen : rc'.multiBulkLen = n
  bulkLen : rc'.bulkLen = -1
  argc : rc'.argc = args.length
  argv : ∃ vals, rc'.argv = .live ⟨args.length + n, vals⟩ ∧ Texts vals args
  unread : rc'.unread = rc.unread.drop k

/-- There is room for the argument that is read. -/
theorem pushArg_ok {rc : RedisClient} {n : Nat} {args : List Bytes} {bulk : Option Nat}
    (hrep : Rep rc (.bulks n args bulk)) {o : LatteObject} (htext : o.IsText) {s : Bytes}
    (ho : o.content = s) :
    ∃ vals, Texts vals (args ++ [s]) ∧ rc.pushArg o = .ok { rc with
      argv := .live ⟨(args ++ [s]).length + n, vals⟩, argc := (args ++ [s]).length } := by
  obtain ⟨-, -, hargc, vals, hargv, hvals⟩ := hrep
  have hlen := hvals.length_eq
  refine ⟨vals ++ [o], hvals.concat htext ho, ?_⟩
  unfold RedisClient.pushArg
  rw [hargv]
  simp only [hargc]
  rw [if_pos ⟨by omega, by push_cast; omega⟩, Int.toNat_natCast, ← hlen, List.take_length,
    List.length_append, List.length_singleton, hlen, Nat.add_right_comm]
  rfl

theorem readBulkArg_short {rc : RedisClient} {n l : Nat} {args : List Bytes}
    (hrep : Rep rc (.bulks n args (some l))) (hq : rc.InBuffer) (h : rc.unread.length < l + 2) :
    readBulkArg L rc = .ok (.brk rc) := by
  unfold readBulkArg
  rw [hq.usub_eq, show rc.bulkLen = l from hrep.2.1, if_pos (by omega)]

theorem readBulkArg_full {rc : RedisClient} {n l : Nat} {args : List Bytes}
    (hrep : Rep rc (.bulks n args (some l))) (hq : rc.InBuffer) (h : l + 2 ≤ rc.unread.length) :
    ∃ rc', readBulkArg L rc = .ok (.next rc') ∧
      ArgRead rc rc' n (args ++ [rc.unread.take l]) (l + 2) := by
  have hmbl : rc.multiBulkLen = n + 1 := hrep.1
  have hlen := hq.length_eq
  unfold readBulkArg
  rw [hq.usub_eq, show rc.bulkLen = l from hrep.2.1, if_neg (by omega), Int.toNat_natCast]
  split
  · -- the buffer holds this argument and nothing else, and becomes the argument
    next hsteal =>
      obtain ⟨hpos, -, hexact⟩ := hsteal
      have hbuf : rc.unread = rc.querybuf := by rw [RedisClient.unread, hpos, List.drop_zero]
      obtain ⟨vals, hvals, hpush⟩ := pushArg_ok hrep (isText_latteObjectNew _)
        (show (latteObjectNew (rc.querybuf.take l)).content = rc.unread.take l by rw [hbuf]; rfl)
      rw [hpush]
      refine ⟨_, rfl, rfl, ?_, ?_, rfl, rfl, ⟨vals, rfl, hvals⟩, ?_⟩
      · show rc.qbPos ≤ 0
        omega
      · show rc.multiBulkLen - 1 = n
        omega
      · show ([] : Bytes).drop rc.qbPos = _
        rw [List.drop_nil, eq_comm, List.drop_eq_nil_iff]
        omega
  · obtain ⟨vals, hvals, hpush⟩ := pushArg_ok hrep (L.isText_stringObjectNew _)
      (L.content_stringObjectNew (rc.unread.take l))
    rw [hpush]
    refine ⟨_, rfl, rfl, ?_, ?_, rfl, rfl, ⟨vals, rfl, hvals⟩, ?_⟩
    · show rc.qbPos + l + 2 ≤ rc.querybuf.length
      omega
    · show rc.multiBulkLen - 1 = n
      omega
    · rw [← rc.unread_advance, ← Nat.add_assoc]
      rfl

/-! ## The loop and the whole function -/

variable {hL : L.StrictString2ll}

theorem ArgRead.rep {rc rc' : RedisClient} {n k : Nat} {args : List Bytes}
    (h : ArgRead rc rc' (n + 1) args k) : Rep rc' (.bulks n args none) :=
  ⟨by rw [h.multiBulkLen]; rfl, h.bulkLen, h.argc, h.argv⟩

theorem ArgRead.loaded {rc rc' : RedisClient} {k : Nat} {args : List Bytes}
    (h : ArgRead rc rc' 0 args k) : Loaded rc' args := by
  obtain ⟨vals, hargv, hvals⟩ := h.argv
  have hholds : rc'.Holds args := ⟨h.argc, _, vals, hargv, hvals⟩
  exact ⟨h.multiBulkLen, h.bulkLen, h.argc, fun _ ↦ hholds, hholds.args_eq.2, by rw [hargv]; simp⟩

theorem multibulkLoop_of_ne {rc : RedisClient} (h : rc.bulkLen ≠ -1) (n : Nat) :
    multibulkLoop L (n + 1) rc = (do
      match ← readBulkArg L rc with
      | .ret code rc => return (code, rc)
      | .brk rc => return (multibulkCode rc, rc)
      | .next rc => multibulkLoop L n rc) := by
  rewrite [multibulkLoop, if_neg h]
  rfl

/-- Once the length line has been read, the iteration continues as if it had been known. -/
theorem multibulkLoop_of_next {rc rc' : RedisClient} (h : rc.bulkLen = -1)
    (hread : readBulkLen L rc = .next rc') (h' : rc'.bulkLen ≠ -1) (n : Nat) :
    multibulkLoop L (n + 1) rc = multibulkLoop L (n + 1) rc' := by
  rewrite [multibulkLoop_of_ne h', multibulkLoop, if_pos h, hread]
  rfl

theorem multibulkCode_of_pos {rc : RedisClient} {n : Nat} (h : rc.multiBulkLen = n + 1) :
    multibulkCode rc = -1 := by
  unfold multibulkCode
  rw [if_neg (by omega)]

theorem Rep.multibulkCode {rc : RedisClient} {n : Nat} {args : List Bytes} {bulk : Option Nat}
    (h : Rep rc (.bulks n args bulk)) : multibulkCode rc = -1 := multibulkCode_of_pos h.1

theorem RedisClient.ParsedInto.isMaster_eq {rc rc' : RedisClient} (h : rc.ParsedInto rc') :
    rc'.isMaster = rc.isMaster := by
  rw [h]
  rfl

/-- The loop follows the decoder when `n + 1` arguments are missing. -/
def LoopFollows (hL : L.StrictString2ll) (n : Nat) (bulk : Option Nat) : Prop :=
  ∀ ⦃rc args o⦄, Rep rc (.bulks n args bulk) → rc.InBuffer →
    Decodes (multibulk L hL rc.isMaster) (.bulks n args bulk) rc.unread o →
    Follows L rc (multibulkLoop L (n + 1) rc) o

/-- One argument, with its length known. -/
theorem loopFollows_some {n : Nat} (ih : ∀ m, n = m + 1 → LoopFollows hL m none) (l : Nat) :
    LoopFollows hL n (some l) := by
  intro rc args o hrep hq h
  have hbl : rc.bulkLen ≠ -1 := by
    rw [show rc.bulkLen = l from hrep.2.1]
    omega
  rw [multibulkLoop_of_ne hbl]
  by_cases hlt : rc.unread.length < l + 2
  · rw [readBulkArg_short hrep hq hlt, Run.ok_bind]
    cases h.det (.more (if_pos hlt))
    refine ⟨rc, ?_, .refl rc, hq, hrep, rfl⟩
    rw [← hrep.multibulkCode]
    rfl
  · obtain ⟨rc', hread, harg⟩ := readBulkArg_full (L := L) hrep hq (by omega)
    have hstep : (multibulk L hL rc.isMaster).step (.bulks n args (some l)) rc.unread =
      argVerdict (args ++ [rc.unread.take l]) (l + 2) n := if_neg hlt
    rw [hread, Run.ok_bind]
    cases n with
    | zero =>
        cases h.det (.done hstep)
        refine ⟨rc', ?_, harg.parsed, harg.inBuffer, harg.loaded, harg.unread⟩
        show Except.ok (multibulkCode rc', rc') = _
        rw [multibulkCode, if_pos harg.loaded.multiBulkLen]
    | succ n =>
        refine .of_parsedInto harg.parsed (ih n rfl harg.rep harg.inBuffer ?_)
        cases h with
        | next hs hrest =>
            rw [hstep] at hs
            cases hs
            rw [harg.unread, harg.parsed.isMaster_eq]
            exact hrest
        | more hs | fail hs | done hs => rw [hstep] at hs; cases hs

/-- A length line, and the argument behind it. -/
theorem loopFollows_none {n : Nat} (hsome : ∀ l, LoopFollows hL n (some l)) :
    LoopFollows hL n none := by
  intro rc args o hrep hq h
  have hbl : rc.bulkLen = -1 := hrep.2.1
  have hread := readBulkLen_follows (L := L) hrep hq
  cases h with
  | more hs =>
      have hs' : onLine rc.unread (lengthVerdict L rc.isMaster n args) = .more := hs
      rw [hs'] at hread
      refine ⟨rc, ?_, .refl rc, hq, hrep, rfl⟩
      rw [multibulkLoop, if_pos hbl, show readBulkLen L rc = .brk rc from hread, ← hrep.multibulkCode]
  | fail hs =>
      have hs' : onLine rc.unread (lengthVerdict L rc.isMaster n args) = .fail := hs
      rw [hs'] at hread
      obtain ⟨rc', hread, herr⟩ := hread
      refine ⟨rc, rc', ?_, herr, .refl rc, hq, hrep, rfl⟩
      rw [multibulkLoop, if_pos hbl, hread]
  | done hs =>
      have hs' : onLine rc.unread (lengthVerdict L rc.isMaster n args) = .done _ _ := hs
      rw [hs'] at hread
      exact hread.elim
  | next hs hrest =>
      have hs' : onLine rc.unread (lengthVerdict L rc.isMaster n args) = .next _ _ := hs
      obtain ⟨l, rfl⟩ := lengthVerdict_next hs'
      rw [hs'] at hread
      obtain ⟨rc', hread, hparsed, hq', hrep', hunread⟩ := hread
      have hbl' : rc'.bulkLen ≠ -1 := by
        rw [show rc'.bulkLen = l from hrep'.2.1]
        omega
      rw [multibulkLoop_of_next hbl hread hbl']
      refine .of_parsedInto hparsed (hsome l hrep' hq' ?_)
      rw [hunread, hparsed.isMaster_eq]
      exact hrest

/-- The induction is on the number of arguments that are missing.  A client that knows
the length of its next argument is one step ahead of one that does not. -/
theorem loopFollows (n : Nat) (bulk : Option Nat) : LoopFollows hL n bulk := by
  have hsome : ∀ n l, LoopFollows hL n (some l) := by
    intro n
    induction n with
    | zero => exact loopFollows_some fun m hm ↦ by omega
    | succ n ih =>
        apply loopFollows_some
        intro m hm
        obtain rfl : n = m := by omega
        exact loopFollows_none ih
  cases bulk with
  | none => exact loopFollows_none (hsome n)
  | some l => exact hsome n l

/-- **`process_multibulk_buffer` follows the decoder.**  A client that expects a count
line must have its unread bytes start with `*`, which the caller has looked at. -/
theorem processMultibulkBuffer_follows {rc : RedisClient} {s : Expect} (hrep : Rep rc s)
    (hq : rc.InBuffer) (hstar : s = .count → ∀ b ∈ rc.unread.head?, b = 42)
    {o : Outcome UInt8 Expect (List Bytes)}
    (h : Decodes (multibulk L hL rc.isMaster) s rc.unread o) :
    Follows L rc (processMultibulkBuffer L rc) o := by
  unfold processMultibulkBuffer
  match s with
  | .bulks n args bulk =>
      have hmbl : rc.multiBulkLen = n + 1 := hrep.1
      rw [if_neg (by omega), Run.ok_bind]
      simp only [hmbl]
      rw [if_pos (by omega), show ((n : Int) + 1).toNat = n + 1 by omega]
      exact loopFollows n bulk hrep hq h
  | .count =>
      obtain ⟨hmbl, hbl, hargc, hargv⟩ := hrep
      rw [if_pos hmbl]
      have hread := readMultibulkLen_follows (L := L) hargc hq (hstar rfl)
      cases h with
      | more hs =>
          have hs' : onLine rc.unread (countVerdict L) = .more := hs
          rw [hs'] at hread
          rw [show readMultibulkLen L rc = .ok (.ret (-1) rc) from hread]
          exact ⟨rc, rfl, .refl rc, hq, ⟨hmbl, hbl, hargc, hargv⟩, rfl⟩
      | fail hs =>
          have hs' : onLine rc.unread (countVerdict L) = .fail := hs
          rw [hs'] at hread
          obtain ⟨rc', hread, herr⟩ := hread
          rw [hread]
          exact ⟨rc, rc', rfl, herr, .refl rc, hq, ⟨hmbl, hbl, hargc, hargv⟩, rfl⟩
      | done hs =>
          have hs' : onLine rc.unread (countVerdict L) = .done _ _ := hs
          have hle := (onLine_done countVerdict_onComplete hs').1
          rw [hs'] at hread
          obtain ⟨rfl, hread⟩ := hread
          rw [hread]
          refine ⟨_, rfl, rfl, hq.advance hle, ⟨hmbl, hbl, hargc, fun h ↦ absurd rfl h, ?_, hargv⟩,
            rc.unread_advance _⟩
          unfold RedisClient.args
          split <;> simp [hargc]
      | next hs hrest =>
          have hs' : onLine rc.unread (countVerdict L) = .next _ _ := hs
          have hle := (onLine_next countVerdict_onComplete hs').2.1
          rw [hs'] at hread
          obtain ⟨n, rfl, hread⟩ := hread
          rw [hread, newArgv_ok (by exact hargv)]
          show Follows L rc (if (n : Int) + 1 > 0 then multibulkLoop L ((n : Int) + 1).toNat _
            else _) o
          rw [if_pos (by omega), show ((n : Int) + 1).toNat = n + 1 by omega]
          rw [← rc.unread_advance] at hrest
          refine .of_parsedInto ?_ (loopFollows n none (rep_newArgv hbl hargc n _)
            (hq.advance hle) hrest)
          rfl

end LatteRedis
