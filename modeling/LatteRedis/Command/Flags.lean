import LatteRedis.Foundation.FlagWord
import LatteRedis.Library

/-!
# The flags of the built-in commands (`populate_command_table_parse_flags`)

A command's flags are a set in a 64-bit word, written down as a string of names.  The table
`acl_command_categories` has the flags of each name, and the parser adds them up; but it
keeps each in an `int` on the way.  Flags from bit 32 on get lost there, a name that has no
others is taken for unknown, and bit 31 is copied into all the bits above.
-/

namespace LatteRedis

open ByteString FlagWord

/-! ## The table and the parser -/

namespace Cmd

def write : BitVec 64 := 1 <<< 0
def readonly : BitVec 64 := 1 <<< 1
def denyoom : BitVec 64 := 1 <<< 2
def «module» : BitVec 64 := 1 <<< 3
def admin : BitVec 64 := 1 <<< 4
def pubsub : BitVec 64 := 1 <<< 5
def noscript : BitVec 64 := 1 <<< 6
def random : BitVec 64 := 1 <<< 7
def sortForScript : BitVec 64 := 1 <<< 8
def loading : BitVec 64 := 1 <<< 9
def stale : BitVec 64 := 1 <<< 10
def skipMonitor : BitVec 64 := 1 <<< 11
def skipSlowlog : BitVec 64 := 1 <<< 12
def asking : BitVec 64 := 1 <<< 13
def fast : BitVec 64 := 1 <<< 14
def noAuth : BitVec 64 := 1 <<< 15
def mayReplicate : BitVec 64 := 1 <<< 16
def categoryKeyspace : BitVec 64 := 1 <<< 19
def categoryRead : BitVec 64 := 1 <<< 20
def categoryWrite : BitVec 64 := 1 <<< 21
def categorySet : BitVec 64 := 1 <<< 22
def categorySortedset : BitVec 64 := 1 <<< 23
def categoryList : BitVec 64 := 1 <<< 24
def categoryHash : BitVec 64 := 1 <<< 25
def categoryString : BitVec 64 := 1 <<< 26
def categoryBitmap : BitVec 64 := 1 <<< 27
def categoryHyperloglog : BitVec 64 := 1 <<< 28
def categoryGeo : BitVec 64 := 1 <<< 29
def categoryStream : BitVec 64 := 1 <<< 30
def categoryPubsub : BitVec 64 := 1 <<< 31
def categoryAdmin : BitVec 64 := 1 <<< 32
def categoryFast : BitVec 64 := 1 <<< 33
def categorySlow : BitVec 64 := 1 <<< 34
def categoryBlocking : BitVec 64 := 1 <<< 35
def categoryDangerous : BitVec 64 := 1 <<< 36
def categoryConnection : BitVec 64 := 1 <<< 37
def categoryTransaction : BitVec 64 := 1 <<< 38
def categoryScripting : BitVec 64 := 1 <<< 39
def swapDatatypeKeyspace : BitVec 64 := 1 <<< 40
def swapDatatypeString : BitVec 64 := 1 <<< 41
def swapDatatypeHash : BitVec 64 := 1 <<< 42
def swapDatatypeSet : BitVec 64 := 1 <<< 43
def swapDatatypeZset : BitVec 64 := 1 <<< 44
def swapDatatypeList : BitVec 64 := 1 <<< 45
def swapDatatypeBitmap : BitVec 64 := 1 <<< 46

end Cmd

/-- `acl_command_categories`, up to its terminator. -/
def aclCommandCategories : List (Bytes × BitVec 64) :=
  [ (ascii "write", Cmd.write ||| Cmd.categoryWrite)
  , (ascii "read-only", Cmd.readonly ||| Cmd.categoryRead)
  , (ascii "use-memory", Cmd.denyoom)
  , (ascii "admin", Cmd.admin ||| Cmd.categoryAdmin ||| Cmd.categoryDangerous)
  , (ascii "pub-sub", Cmd.pubsub ||| Cmd.categoryPubsub)
  , (ascii "no-script", Cmd.noscript)
  , (ascii "random", Cmd.random)
  , (ascii "to-sort", Cmd.sortForScript)
  , (ascii "ok-loading", Cmd.loading)
  , (ascii "ok-stale", Cmd.stale)
  , (ascii "no-monitor", Cmd.skipMonitor)
  , (ascii "no-slowlog", Cmd.skipSlowlog)
  , (ascii "cluster-asking", Cmd.asking)
  , (ascii "fast", Cmd.fast ||| Cmd.categoryFast)
  , (ascii "no-auth", Cmd.noAuth)
  , (ascii "may-replicate", Cmd.mayReplicate)
  , (ascii "@keyspace", Cmd.categoryKeyspace)
  , (ascii "@read", Cmd.categoryRead)
  , (ascii "@write", Cmd.categoryWrite)
  , (ascii "@set", Cmd.categorySet)
  , (ascii "@sortedset", Cmd.categorySortedset)
  , (ascii "@list", Cmd.categoryList)
  , (ascii "@hash", Cmd.categoryHash)
  , (ascii "@string", Cmd.categoryString)
  , (ascii "@bitmap", Cmd.categoryBitmap)
  , (ascii "@hyperloglog", Cmd.categoryHyperloglog)
  , (ascii "@geo", Cmd.categoryGeo)
  , (ascii "@stream", Cmd.categoryStream)
  , (ascii "@pubsub", Cmd.categoryPubsub)
  , (ascii "@admin", Cmd.categoryAdmin)
  , (ascii "@fast", Cmd.categoryFast)
  , (ascii "@slow", Cmd.categorySlow)
  , (ascii "@blocking", Cmd.categoryBlocking)
  , (ascii "@dangerous", Cmd.categoryDangerous)
  , (ascii "@connection", Cmd.categoryConnection)
  , (ascii "@transaction", Cmd.categoryTransaction)
  , (ascii "@scripting", Cmd.categoryScripting)
  , (ascii "@swap_keyspace", Cmd.swapDatatypeKeyspace)
  , (ascii "@swap_string", Cmd.swapDatatypeString)
  , (ascii "@swap_hash", Cmd.swapDatatypeHash)
  , (ascii "@swap_set", Cmd.swapDatatypeSet)
  , (ascii "@swap_zset", Cmd.swapDatatypeZset)
  , (ascii "@swap_list", Cmd.swapDatatypeList)
  , (ascii "@swap_bitmap", Cmd.swapDatatypeBitmap) ]

/-- The flags of a name; no name has none. -/
def commandDataTypeFlagByName (name : Bytes) : BitVec 64 :=
  match aclCommandCategories.find? fun item ↦ strcaseeq name item.1 with
  | some item => item.2
  | none => 0

/-- The loop of `populate_command_table_parse_flags`: whether it comes to its end, and
`c->flags`.  `catflag` is an `int`. -/
def parseFlagsLoop (flags : BitVec 64) : List Bytes → Bool × BitVec 64
  | [] => (true, flags)
  | flag :: argv =>
      let catflag : BitVec 32 := (commandDataTypeFlagByName flag).setWidth 32
      if catflag ≠ 0 then parseFlagsLoop (flags ||| catflag.signExtend 64) argv else (false, flags)

/-- What it returns, and `c->flags` behind it. -/
def populateCommandTableParseFlags (L : LatteC) (flags : BitVec 64) (strflags : Bytes) :
    Int × BitVec 64 :=
  match L.sdsSplitArgs (cString strflags) with
  | none => (-1, flags)
  | some argv =>
      match parseFlagsLoop flags argv with
      | (false, flags) => (-1, flags)
      | (true, flags) =>
          (0, if flags &&& Cmd.categoryFast = 0 then flags ||| Cmd.categorySlow else flags)

/-! ## What a string of names stands for -/

/-- A name of `acl_command_categories`. -/
def KnownFlag (t : Bytes) : Prop := ∃ item ∈ aclCommandCategories, strcaseeq t item.1 = true

/-- What is true of every row of the table and of no flags at all is true of what a name
stands for. -/
theorem commandDataTypeFlagByName_of_rows {P : BitVec 64 → Prop} (hzero : P 0)
    (hrows : ∀ item ∈ aclCommandCategories, P item.2) (t : Bytes) :
    P (commandDataTypeFlagByName t) := by
  unfold commandDataTypeFlagByName
  split
  · next item hfind => exact hrows item (List.mem_of_find?_eq_some hfind)
  · exact hzero

theorem commandDataTypeFlagByName_unknown {t : Bytes} (h : ¬KnownFlag t) :
    commandDataTypeFlagByName t = 0 := by
  unfold commandDataTypeFlagByName
  split
  · next item hfind =>
      have hname : strcaseeq t item.1 = true := by simpa using List.find?_some hfind
      exact absurd ⟨item, List.mem_of_find?_eq_some hfind, hname⟩ h
  · rfl

/-- The flags of a list of names. -/
def flagsOf (argv : List Bytes) : List (BitVec 64) := argv.map commandDataTypeFlagByName

/-- The loop comes to its end unless a name has no flags below bit 32. -/
theorem parseFlagsLoop_fst (flags : BitVec 64) (argv : List Bytes) :
    (parseFlagsLoop flags argv).1 = true ↔ ∀ x ∈ flagsOf argv, x.setWidth 32 ≠ 0 := by
  induction argv generalizing flags with
  | nil => simp [parseFlagsLoop, flagsOf]
  | cons t argv ih =>
      unfold parseFlagsLoop flagsOf
      dsimp only
      rw [List.map_cons, List.forall_mem_cons]
      split
      · next hlow =>
          rw [ih]
          exact (and_iff_right hlow).symm
      · next hlow =>
          refine ⟨fun hfalse ↦ ?_, fun hall ↦ absurd hall.1 hlow⟩
          cases hfalse

/-- At its end it has added the flags as an `int` holds them. -/
theorem parseFlagsLoop_snd {flags : BitVec 64} {argv : List Bytes}
    (h : ∀ x ∈ flagsOf argv, x.setWidth 32 ≠ 0) :
    (parseFlagsLoop flags argv).2 = flags ||| union ((flagsOf argv).map (narrow 32)) := by
  induction argv generalizing flags with
  | nil => simp [parseFlagsLoop, flagsOf]
  | cons t argv ih =>
      rw [flagsOf, List.map_cons, List.forall_mem_cons] at h
      unfold parseFlagsLoop
      dsimp only
      rw [if_pos h.1, ih h.2, BitVec.or_assoc]
      rfl

/-- Commands that are not in the fast category get into the slow one. -/
def withSpeed (flags : BitVec 64) : BitVec 64 :=
  if flags &&& Cmd.categoryFast = 0 then flags ||| Cmd.categorySlow else flags

theorem populate_of_unsplit {L : LatteC} {strflags : Bytes}
    (h : L.sdsSplitArgs (cString strflags) = none) (f : BitVec 64) :
    populateCommandTableParseFlags L f strflags = (-1, f) := by
  unfold populateCommandTableParseFlags
  rw [h]

theorem populate_of_upper {L : LatteC} {strflags : Bytes} {argv : List Bytes}
    (h : L.sdsSplitArgs (cString strflags) = some argv)
    (hupper : ¬∀ x ∈ flagsOf argv, x.setWidth 32 ≠ 0) (f : BitVec 64) :
    (populateCommandTableParseFlags L f strflags).1 = -1 := by
  unfold populateCommandTableParseFlags
  rw [h]
  dsimp only
  split
  · rfl
  · next hloop =>
      rw [← parseFlagsLoop_fst f, hloop] at hupper
      exact absurd rfl hupper

theorem populate_of_lower {L : LatteC} {strflags : Bytes} {argv : List Bytes}
    (h : L.sdsSplitArgs (cString strflags) = some argv)
    (hlow : ∀ x ∈ flagsOf argv, x.setWidth 32 ≠ 0) (f : BitVec 64) :
    populateCommandTableParseFlags L f strflags =
      (0, withSpeed (f ||| union ((flagsOf argv).map (narrow 32)))) := by
  have hloop : parseFlagsLoop f argv = (true, f ||| union ((flagsOf argv).map (narrow 32))) :=
    Prod.ext ((parseFlagsLoop_fst f argv).mpr hlow) (parseFlagsLoop_snd hlow)
  unfold populateCommandTableParseFlags
  rw [h]
  dsimp only
  rw [hloop]
  rfl

/-- The speed is one bit, which depends on another one. -/
theorem getLsbD_withSpeed (flags : BitVec 64) (i : Nat) :
    (withSpeed flags).getLsbD i = (flags.getLsbD i || (decide (i = 34) && !flags.getLsbD 33)) := by
  have hfast : flags &&& Cmd.categoryFast = 0 ↔ flags.getLsbD 33 = false := by
    rw [show Cmd.categoryFast = BitVec.twoPow 64 33 from rfl, BitVec.and_twoPow]
    cases flags.getLsbD 33 <;> decide
  have hslow : Cmd.categorySlow.getLsbD i = decide (i = 34) := by
    rw [show Cmd.categorySlow = BitVec.twoPow 64 34 from rfl, BitVec.getLsbD_twoPow]
    simp [eq_comm]
  unfold withSpeed
  split
  · next h =>
      rw [hfast] at h
      rw [BitVec.getLsbD_or, hslow, h]
      simp
  · next h =>
      rw [hfast, Bool.not_eq_false] at h
      rw [h]
      simp

/-- The speed can be told from the other flags, unless somebody asked for the slow
category. -/
theorem withSpeed_inj {x y : BitVec 64} (hxy : x.getLsbD 33 = true ∨ x.getLsbD 34 = y.getLsbD 34)
    (h : withSpeed x = withSpeed y) : x = y := by
  have hbits : ∀ i, (x.getLsbD i || (decide (i = 34) && !x.getLsbD 33)) =
      (y.getLsbD i || (decide (i = 34) && !y.getLsbD 33)) := by
    intro i
    rw [← getLsbD_withSpeed, ← getLsbD_withSpeed, h]
  have hothers : ∀ i, i ≠ 34 → x.getLsbD i = y.getLsbD i := by
    intro i hi
    simpa [hi] using hbits i
  apply BitVec.eq_of_getLsbD_eq
  intro i _
  by_cases hi : i = 34
  · subst hi
    rcases hxy with hfast | hslow
    · have hfast' := hothers 33 (by decide)
      rw [hfast] at hfast'
      have hslow := hbits 34
      rwa [hfast, ← hfast', Bool.not_true, Bool.and_false, Bool.or_false, Bool.or_false] at hslow
    · exact hslow
  · exact hothers i hi

/-- The claim the comment over the parser makes: it fails exactly when the string cannot be
split or a name is unknown, and otherwise adds the flags of all names. -/
structure ParsesToUnion (L : LatteC) (f : BitVec 64) (strflags : Bytes) : Prop where
  fails_iff : (populateCommandTableParseFlags L f strflags).1 = -1 ↔
    ∀ argv ∈ L.sdsSplitArgs (cString strflags), ∃ t ∈ argv, ¬KnownFlag t
  union : ∀ argv ∈ L.sdsSplitArgs (cString strflags), (∀ t ∈ argv, KnownFlag t) →
    populateCommandTableParseFlags L f strflags = (0, f ||| union (flagsOf argv) |||
      if (f :: flagsOf argv).all (· &&& Cmd.categoryFast = 0) then Cmd.categorySlow else 0)

theorem withSpeed_or_union (f : BitVec 64) (l : List (BitVec 64)) :
    withSpeed (f ||| union l) = f ||| union l |||
      if (f :: l).all (· &&& Cmd.categoryFast = 0) then Cmd.categorySlow else 0 := by
  have hfast : (f ||| union l) &&& Cmd.categoryFast = 0 ↔
      (f :: l).all (· &&& Cmd.categoryFast = 0) = true := by
    rw [← union_cons, union_and_eq_zero_iff]
    simp
  unfold withSpeed
  by_cases h : (f ||| union l) &&& Cmd.categoryFast = 0
  · rw [if_pos h, if_pos (hfast.mp h)]
  · rw [if_neg h, if_neg (mt hfast.mpr h)]
    simp

/-- The `int` does no harm: every name has a flag below bit 32, and what happens to the bits
above makes no difference. -/
def SurvivesInt (f : BitVec 64) (argv : List Bytes) : Prop :=
  (∀ x ∈ flagsOf argv, x.setWidth 32 ≠ 0) ∧ Harmless 32 f (flagsOf argv)

/-- Of the flags below bit 32, none comes with the slow category. -/
theorem slow_of_lower {argv : List Bytes} (h : ∀ x ∈ flagsOf argv, x.setWidth 32 ≠ 0) :
    (union (flagsOf argv)).getLsbD 34 = false := by
  by_contra hslow
  rw [Bool.not_eq_false, getLsbD_union] at hslow
  obtain ⟨x, hx, hbit⟩ := hslow
  have hrows : x.setWidth 32 ≠ 0 → x.getLsbD 34 = false := by
    obtain ⟨t, -, rfl⟩ := List.mem_map.mp hx
    refine commandDataTypeFlagByName_of_rows
      (P := fun x ↦ x.setWidth 32 ≠ 0 → x.getLsbD 34 = false) (by decide) (by decide) t
  rw [hrows (h x hx)] at hbit
  cases hbit

theorem withSpeed_narrow_iff {f : BitVec 64} {argv : List Bytes}
    (h : ∀ x ∈ flagsOf argv, x.setWidth 32 ≠ 0) :
    withSpeed (f ||| union ((flagsOf argv).map (narrow 32))) =
        withSpeed (f ||| union (flagsOf argv)) ↔
      Harmless 32 f (flagsOf argv) := by
  rw [← or_union_narrow_eq_iff (by decide)]
  refine ⟨fun heq ↦ withSpeed_inj ?_ heq, fun heq ↦ by rw [heq]⟩
  have hbit : ∀ i < 64, 32 ≤ i → ((union ((flagsOf argv).map (narrow 32))).getLsbD i = true ↔
      Spills 32 (flagsOf argv)) := by
    intro i hi hle
    rw [getLsbD_union_narrow (by decide) hi, if_neg (Nat.not_lt_of_le hle)]
  by_cases hspills : Spills 32 (flagsOf argv)
  · left
    rw [BitVec.getLsbD_or, (hbit 33 (by decide) (by decide)).mpr hspills, Bool.or_true]
  · right
    have hno : (union ((flagsOf argv).map (narrow 32))).getLsbD 34 = false := by
      rw [← Bool.not_eq_true]
      exact fun htrue ↦ hspills ((hbit 34 (by decide) (by decide)).mp htrue)
    rw [BitVec.getLsbD_or, BitVec.getLsbD_or, hno, slow_of_lower h]

/-- **Command flags.**  The parser does what is said of it exactly when it fails anyway or
the `int` does no harm. -/
theorem parsesToUnion_iff (L : LatteC) (f : BitVec 64) (strflags : Bytes) :
    ParsesToUnion L f strflags ↔
      ∀ argv ∈ L.sdsSplitArgs (cString strflags), (∀ t ∈ argv, KnownFlag t) → SurvivesInt f argv := by
  constructor
  · intro h argv hargv hknown
    have hzero := h.union argv hargv hknown
    have hlow : ∀ x ∈ flagsOf argv, x.setWidth 32 ≠ 0 := by
      by_contra hupper
      have hfails := populate_of_upper hargv hupper f
      rw [hzero] at hfails
      cases hfails
    rw [populate_of_lower hargv hlow, ← withSpeed_or_union, Prod.mk.injEq] at hzero
    exact ⟨hlow, (withSpeed_narrow_iff hlow).mp hzero.2⟩
  · intro h
    have hunion : ∀ argv ∈ L.sdsSplitArgs (cString strflags), (∀ t ∈ argv, KnownFlag t) →
        populateCommandTableParseFlags L f strflags =
          (0, withSpeed (f ||| union (flagsOf argv))) := by
      intro argv hargv hknown
      obtain ⟨hlow, hharmless⟩ := h argv hargv hknown
      rw [populate_of_lower hargv hlow, (withSpeed_narrow_iff hlow).mpr hharmless]
    constructor
    · constructor
      · intro hfails argv hargv
        by_contra hknown
        push Not at hknown
        rw [hunion argv hargv hknown] at hfails
        cases hfails
      · intro hunknown
        cases hsplit : L.sdsSplitArgs (cString strflags) with
        | none => rw [populate_of_unsplit hsplit]
        | some argv =>
            obtain ⟨t, ht, hno⟩ := hunknown argv hsplit
            refine populate_of_upper hsplit (fun hlow ↦ ?_) f
            apply hlow _ (List.mem_map_of_mem ht)
            rw [commandDataTypeFlagByName_unknown hno]
            rfl
    · intro argv hargv hknown
      rw [hunion argv hargv hknown, withSpeed_or_union]

/-- The flags of `EXPIRE`: it gets into the slow category, although one of its names is in the
fast one. -/
theorem not_parsesToUnion_write_fast : ¬ParsesToUnion LatteC.sample 0 (ascii "write fast") := by
  intro h
  have hargv : LatteC.sample.sdsSplitArgs (cString (ascii "write fast")) =
      some [ascii "write", ascii "fast"] := rfl
  have hknown : ∀ t ∈ [ascii "write", ascii "fast"], KnownFlag t := by
    unfold KnownFlag
    decide
  exact absurd (h.union _ hargv hknown) (by decide)

end LatteRedis
