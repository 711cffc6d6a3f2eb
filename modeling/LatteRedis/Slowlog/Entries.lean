import LatteRedis.Slowlog.Manager

/-!
# What an entry of the slow log says (`slowlog_entry_new`)

An entry shows the arguments of a command, cut down: at most 32 of them, and of each at most
its first 128 bytes.  What was left out is said in words.  `describedArgs` is how an entry
should read.

Texts that are cut say how much is missing, unless `sds_len` is asked for the length of an
`EMBSTR` object.  Vectors that are cut do not: the number of the arguments that are missing is
computed as `argc-argc+1`, and `argc` has been cut down by then.
-/

namespace LatteRedis

open ByteString

/-! ## How an entry should read -/

/-- A text in full, or its beginning and how much is left. -/
def shown (s : Bytes) : Bytes :=
  if s.length ≤ slowlogEntryMaxString then s
  else s.take slowlogEntryMaxString ++ ascii "... (" ++
    decimal (s.length - slowlogEntryMaxString : Nat) ++ ascii " more bytes)"

/-- The last argument of a vector that was cut. -/
def moreArguments (m : Int) : Bytes := ascii "... (" ++ decimal m ++ ascii " more arguments)"

/-- All arguments, or 31 of them and how many are left. -/
def describedArgs (args : List Bytes) : List Bytes :=
  if args.length ≤ slowlogEntryMaxArgc then args.map shown
  else (args.take (slowlogEntryMaxArgc - 1)).map shown ++
    [moreArguments (args.length - (slowlogEntryMaxArgc - 1) : Nat)]

theorem shown_of_le {s : Bytes} (h : s.length ≤ slowlogEntryMaxString) : shown s = s := if_pos h

theorem length_shown_of_lt {s : Bytes} (h : slowlogEntryMaxString < s.length) :
    slowlogEntryMaxString < (shown s).length := by
  unfold shown
  rw [if_neg (Nat.not_le_of_lt h)]
  simp only [List.length_append, List.length_take, show (ascii "... (").length = 5 from rfl]
  omega

/-- Texts that are cut read the same only if what is shown of them and their lengths are the
same. -/
theorem shown_eq_shown_iff {s t : Bytes} (hs : slowlogEntryMaxString < s.length)
    (ht : slowlogEntryMaxString < t.length) :
    shown s = shown t ↔ s.length = t.length ∧
      s.take slowlogEntryMaxString = t.take slowlogEntryMaxString := by
  unfold shown
  rw [if_neg (Nat.not_le_of_lt hs), if_neg (Nat.not_le_of_lt ht)]
  constructor
  · intro h
    simp only [List.append_assoc] at h
    obtain ⟨htake, hrest⟩ := List.append_inj h (by simp [hs.le, ht.le])
    have hnum := decimal_injective (List.append_cancel_right (List.append_cancel_left hrest))
    exact ⟨by omega, htake⟩
  · rintro ⟨hlen, htake⟩
    rw [hlen, htake]

/-! ## One argument -/

/-- A string object: one that is kept as a number holds a `long`. -/
structure LatteObject.IsString (o : LatteObject) : Prop where
  type : o.type = .string
  fits : ∀ n, o.encoding = .int n → -2 ^ 63 ≤ n ∧ n < 2 ^ 63

variable (L : LatteC)

/-- `entry->argv[j]` for an argument that is not left out. -/
def slowlogArg (o : LatteObject) : LatteObject :=
  let copy := if o.shared then o else dupStringObject o
  match L.encodedSds o with
  | some s =>
      if o.type = .string ∧ s.length > slowlogEntryMaxString then
        latteObjectNew (s.take slowlogEntryMaxString ++ ascii "... (" ++
          decimal (s.length - slowlogEntryMaxString : Nat) ++ ascii " more bytes)")
      else copy
  | none => copy

/-- `sds_len` is right about an `EMBSTR` object as far as the limit goes.  The last case is
a text that reads the same in full and cut. -/
def LatteC.MeasuresShown (s : Bytes) : Prop :=
  if s.length ≤ slowlogEntryMaxString then (L.embstrSds s).length ≤ slowlogEntryMaxString
  else ((L.embstrSds s).length = s.length ∧
      (L.embstrSds s).take slowlogEntryMaxString = s.take slowlogEntryMaxString) ∨
    ((L.embstrSds s).length ≤ slowlogEntryMaxString ∧ shown s = s)

variable {L}

/-- What is long for `sds_len` is cut. -/
theorem content_slowlogArg_long {o : LatteObject} (h : o.type = .string) {s : Bytes}
    (hsds : L.encodedSds o = some s) (hs : slowlogEntryMaxString < s.length) :
    (slowlogArg L o).content = shown s := by
  unfold slowlogArg shown
  rw [hsds]
  dsimp only
  rw [if_pos ⟨h, hs⟩, if_neg (Nat.not_le_of_lt hs), content_latteObjectNew]

/-- Everything else is copied. -/
theorem content_slowlogArg_short {o : LatteObject}
    (h : ∀ s ∈ L.encodedSds o, s.length ≤ slowlogEntryMaxString) :
    (slowlogArg L o).content = o.content := by
  have hcopy : (if o.shared then o else dupStringObject o).content = o.content := by
    split <;> rfl
  unfold slowlogArg
  dsimp only
  split
  · next s hsds =>
      rw [if_neg (fun hlong ↦ Nat.not_le_of_lt hlong.2 (h s hsds)), hcopy]
  · exact hcopy

theorem content_slowlogArg_raw {o : LatteObject} (h : o.type = .string) {s : Bytes}
    (hraw : o.encoding = .raw s) : (slowlogArg L o).content = shown o.content := by
  have hsds : L.encodedSds o = some s := by rw [LatteC.encodedSds, hraw]
  have hcontent : o.content = s := by rw [LatteObject.content, hraw, Encoding.content]
  by_cases hs : slowlogEntryMaxString < s.length
  · rw [content_slowlogArg_long h hsds hs, hcontent]
  · have hle := Nat.le_of_not_lt hs
    rw [content_slowlogArg_short (by simpa [hsds] using hle), hcontent, shown_of_le hle]

theorem content_slowlogArg_int {o : LatteObject} {n : Int} (hint : o.encoding = .int n)
    (hlo : -2 ^ 63 ≤ n) (hhi : n < 2 ^ 63) : (slowlogArg L o).content = shown o.content := by
  have hsds : L.encodedSds o = none := by rw [LatteC.encodedSds, hint]
  have hcontent : o.content = decimal n := by rw [LatteObject.content, hint, Encoding.content]
  have hlen : (decimal n).length ≤ slowlogEntryMaxString :=
    (decimal_length_le hlo hhi).trans (by decide)
  rw [content_slowlogArg_short (by simp [hsds]), hcontent, shown_of_le hlen]

theorem content_slowlogArg_embstr_iff {o : LatteObject} (h : o.type = .string) {s : Bytes}
    (hembstr : o.encoding = .embstr s) :
    (slowlogArg L o).content = shown o.content ↔ L.MeasuresShown s := by
  have hsds : L.encodedSds o = some (L.embstrSds s) := by rw [LatteC.encodedSds, hembstr]
  have hcontent : o.content = s := by rw [LatteObject.content, hembstr, Encoding.content]
  unfold LatteC.MeasuresShown
  rw [hcontent]
  by_cases hcut : slowlogEntryMaxString < (L.embstrSds s).length
  · rw [content_slowlogArg_long h hsds hcut]
    split
    · next hs =>
        -- a cut text is longer than any that fits
        have hlong := length_shown_of_lt hcut
        refine ⟨fun heq ↦ ?_, fun hle ↦ absurd hcut (Nat.not_lt_of_le hle)⟩
        rw [heq, shown_of_le hs] at hlong
        exact absurd hlong (Nat.not_lt_of_le hs)
    · next hs =>
        rw [shown_eq_shown_iff hcut (Nat.lt_of_not_le hs)]
        exact (or_iff_left fun hle ↦ Nat.not_lt_of_le hle.1 hcut).symm
  · have hle := Nat.le_of_not_lt hcut
    rw [content_slowlogArg_short (by simpa [hsds] using hle), hcontent]
    split
    · next hs => simp [shown_of_le hs, hle]
    · next hs =>
        rw [eq_comm]
        constructor
        · intro heq
          exact .inr ⟨hle, heq⟩
        · rintro (hlen | hread)
          · exact absurd (hlen.1 ▸ hle) hs
          · exact hread.2

/-- An argument is shown as it should be exactly if `sds_len` is right about it. -/
theorem content_slowlogArg_eq_shown_iff {o : LatteObject} (h : o.IsString) :
    (slowlogArg L o).content = shown o.content ↔ ∀ s, o.encoding = .embstr s → L.MeasuresShown s := by
  cases hencoding : o.encoding with
  | raw s => simp [content_slowlogArg_raw h.type hencoding]
  | int n =>
      obtain ⟨hlo, hhi⟩ := h.fits n hencoding
      simp [content_slowlogArg_int hencoding hlo hhi]
  | embstr s =>
      rw [content_slowlogArg_embstr_iff h.type hencoding]
      simp

/-! ## The whole vector -/

theorem slowlogEntryArg_last {rc : RedisClient} {argc j : Nat} (hargc : rc.argc ≠ argc)
    (hj : j + 1 = argc) : slowlogEntryArg L rc argc j = .ok (latteObjectNew (moreArguments 1)) := by
  unfold slowlogEntryArg
  rw [if_pos ⟨hargc, hj⟩]
  simp [moreArguments]

theorem slowlogEntryArg_of_argvAt {rc : RedisClient} {argc j : Nat} {o : LatteObject}
    (h : ¬(rc.argc ≠ argc ∧ j + 1 = argc)) (ho : rc.argvAt j = .ok o) :
    slowlogEntryArg L rc argc j = .ok (slowlogArg L o) := by
  unfold slowlogEntryArg slowlogArg
  rw [if_neg h, ho, Run.ok_bind]
  dsimp only
  cases L.encodedSds o with
  | none => rfl
  | some s =>
      dsimp only
      split <;> rfl

theorem argvAt_of_args {rc : RedisClient} {j : Nat} {o : LatteObject} (h : rc.args[j]? = some o) :
    rc.argvAt j = .ok o := by
  unfold RedisClient.args at h
  unfold RedisClient.argvAt
  split at h
  · next a =>
      rw [List.getElem?_take, Option.ite_none_right_eq_some] at h
      rw [h.2]
  · simp at h

/-- The arguments of an entry. -/
theorem slowlogEntryNew_argv {c : TimedClient} (h : (SlowlogCall.pushIfNeeded c).Loggable) (id : Int) :
    ∃ e, slowlogEntryNew L id c = .ok e ∧ e.argv =
      if c.rc.args.length ≤ slowlogEntryMaxArgc then c.rc.args.map (slowlogArg L)
      else (c.rc.args.take (slowlogEntryMaxArgc - 1)).map (slowlogArg L) ++
        [latteObjectNew (moreArguments 1)] := by
  obtain ⟨⟨cmd, hcmd⟩, hargs⟩ := h
  suffices hargv : (List.range (min c.rc.argc.toNat slowlogEntryMaxArgc)).mapM
      (slowlogEntryArg L c.rc (min c.rc.argc.toNat slowlogEntryMaxArgc)) = .ok (
        if c.rc.args.length ≤ slowlogEntryMaxArgc then c.rc.args.map (slowlogArg L)
        else (c.rc.args.take (slowlogEntryMaxArgc - 1)).map (slowlogArg L) ++
          [latteObjectNew (moreArguments 1)]) by
    unfold slowlogEntryNew RedisClient.lastcmdName
    simp only [hcmd, Run.ok_bind, hargv]
    exact ⟨_, rfl, rfl⟩
  rw [← hargs]
  split
  · next hle =>
      rw [Nat.min_eq_left hle]
      apply Run.mapM_range
      intro j o ho
      have hj := (List.getElem?_eq_some_iff.mp ho).1
      refine slowlogEntryArg_of_argvAt ?_ (argvAt_of_args ho)
      rintro ⟨hne, -⟩
      omega
  · next hlong =>
      rw [Nat.min_eq_right (Nat.le_of_not_le hlong)]
      have hinit : (List.range (slowlogEntryMaxArgc - 1)).mapM
          (slowlogEntryArg L c.rc slowlogEntryMaxArgc) =
            .ok ((c.rc.args.take (slowlogEntryMaxArgc - 1)).map (slowlogArg L)) := by
        have hlen : (c.rc.args.take (slowlogEntryMaxArgc - 1)).length = slowlogEntryMaxArgc - 1 := by
          rw [List.length_take]
          omega
        have hread : ∀ j o, (c.rc.args.take (slowlogEntryMaxArgc - 1))[j]? = some o →
            slowlogEntryArg L c.rc slowlogEntryMaxArgc j = .ok (slowlogArg L o) := by
          intro j o ho
          rw [List.getElem?_take, Option.ite_none_right_eq_some] at ho
          refine slowlogEntryArg_of_argvAt ?_ (argvAt_of_args ho.2)
          rintro ⟨-, hj⟩
          omega
        have hrange := Run.mapM_range hread
        rwa [hlen] at hrange
      have hlast : slowlogEntryArg L c.rc slowlogEntryMaxArgc (slowlogEntryMaxArgc - 1) =
          .ok (latteObjectNew (moreArguments 1)) := by
        refine slowlogEntryArg_last ?_ rfl
        omega
      rw [show List.range slowlogEntryMaxArgc =
          List.range (slowlogEntryMaxArgc - 1) ++ [slowlogEntryMaxArgc - 1] from List.range_succ,
        List.mapM_append, hinit, Run.ok_bind, List.mapM_cons, hlast, Run.ok_bind]
      rfl

/-- **Entries of the slow log.**  An entry reads as it should exactly if the vector is not cut
and `sds_len` is right about every `EMBSTR` object in it. -/
theorem slowlogEntry_truthful_iff {c : TimedClient} (h : (SlowlogCall.pushIfNeeded c).Loggable)
    (hstrings : ∀ o ∈ c.rc.args, o.IsString) (id : Int) :
    (∃ e, slowlogEntryNew L id c = .ok e ∧
        e.argv.map LatteObject.content = describedArgs (c.rc.args.map LatteObject.content)) ↔
      c.rc.args.length ≤ slowlogEntryMaxArgc ∧
        ∀ o ∈ c.rc.args, ∀ s, o.encoding = .embstr s → L.MeasuresShown s := by
  obtain ⟨e, he, hargv⟩ := slowlogEntryNew_argv (L := L) h id
  have hunique : (∃ e', slowlogEntryNew L id c = .ok e' ∧
      e'.argv.map LatteObject.content = describedArgs (c.rc.args.map LatteObject.content)) ↔
        e.argv.map LatteObject.content = describedArgs (c.rc.args.map LatteObject.content) := by
    simp [he]
  rw [hunique, hargv]
  unfold describedArgs
  rw [List.length_map]
  split
  · next hle =>
      rw [List.map_map, List.map_map, List.map_inj_left]
      constructor
      · intro heq
        exact ⟨hle, fun o ho ↦ (content_slowlogArg_eq_shown_iff (hstrings o ho)).mp (heq o ho)⟩
      · intro hmeasures o ho
        exact (content_slowlogArg_eq_shown_iff (hstrings o ho)).mpr (hmeasures.2 o ho)
  · next hlong =>
      refine ⟨fun heq ↦ absurd heq ?_, fun hle ↦ absurd hle.1 hlong⟩
      intro heq
      -- the last text says one argument is missing, and there are at least two
      have hlast := congrArg List.getLast? heq
      rw [List.map_append, List.map_singleton, List.getLast?_concat, List.getLast?_concat,
        Option.some.injEq, content_latteObjectNew] at hlast
      unfold moreArguments at hlast
      have hnum := decimal_injective (List.append_cancel_left (List.append_cancel_right hlast))
      simp only [slowlogEntryMaxArgc] at hnum hlong
      omega

/-- A client that has just run `PING` with the arguments `args`. -/
def pingClient (args : List LatteObject) : TimedClient where
  startTime := 0
  endTime := 1
  rc := { RedisClient.idle with
    argc := args.length
    argv := .live ⟨args.length, args⟩
    lastcmd := .live ⟨ascii "ping", .ping⟩ }

/-- One of its arguments is shown cut. -/
theorem slowlogEntry_truthful_iff_long :
    ∃ e, slowlogEntryNew LatteC.sample 0
        (pingClient [latteObjectNew (ascii "ping"), latteObjectNew (List.replicate 200 97)]) = .ok e ∧
      e.argv.map LatteObject.content = describedArgs [ascii "ping", List.replicate 200 97] := by
  refine (slowlogEntry_truthful_iff ⟨⟨_, rfl⟩, rfl⟩ ?_ 0).mpr ⟨?_, ?_⟩
  · rintro o (_ | ⟨_, _ | ⟨_, ⟨⟩⟩⟩)
    · exact ⟨rfl, fun n h ↦ by cases h⟩
    · exact ⟨rfl, fun n h ↦ by cases h⟩
  · decide
  · rintro o (_ | ⟨_, _ | ⟨_, ⟨⟩⟩⟩) s h
    · cases h
    · cases h

/-- Of 33 arguments two are left out, and the entry says it is one. -/
theorem slowlogEntry_33_arguments :
    ∃ e, slowlogEntryNew LatteC.sample 0
        (pingClient (List.replicate 33 (latteObjectNew (ascii "a")))) = .ok e ∧
      (e.argv.map LatteObject.content)[31]? = some (ascii "... (1 more arguments)") ∧
      (describedArgs (List.replicate 33 (ascii "a")))[31]? =
        some (ascii "... (2 more arguments)") ∧
      e.argv.map LatteObject.content ≠ describedArgs (List.replicate 33 (ascii "a")) :=
  ⟨_, rfl, by decide, by decide, by decide⟩

end LatteRedis
