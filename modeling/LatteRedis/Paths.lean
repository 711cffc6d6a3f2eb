import LatteRedis.Foundation.Run
import LatteRedis.Library

/-!
# Absolute paths (`server.c`)

The paths of the executable and of the configuration file are made absolute when the server
starts.  A relative path is put behind the current directory, and each `../` in front of it
takes the last element of that directory away.  The element is found by going backwards
through the buffer, from the byte in front of its last one to the next slash.

That this never leaves the buffer is because the buffer is always the path of a directory:
it begins and ends with a slash.  `getAbsolutePath_eq` says so, and what comes out.

A C string stands for its content here.
-/

namespace LatteRedis

open ByteString

/-! ## The function -/

/-- The bytes `" \r\n\t"`. -/
def isBlank (b : UInt8) : Bool := b = 32 ∨ b = CR ∨ b = LF ∨ b = 9

/-- `getcwd(buf, size)` in the directory `cwd`: `NULL` if the path and its NUL do not fit. -/
def getcwd (cwd : Bytes) (size : Nat) : Option Bytes := if cwd.length + 1 ≤ size then some cwd else none

/-- The loop `while (*p != '/')`, from the byte at index `i` on. -/
def scanBack (abspath : Bytes) (i : Nat) (trimlen : Int) : Except Fault Int :=
  match abspath[i]? with
  | none => .error .badPointer
  | some b =>
      if b = 47 then .ok trimlen
      else match i with
      -- the next byte is in front of the buffer
      | 0 => .error .badPointer
      | i + 1 => scanBack abspath i (trimlen + 1)

/-- The body of the loop, as far as it is about `abspath`. -/
def removeLastElement (abspath : Bytes) : Except Fault Bytes :=
  if abspath.length > 1 then do
    let trimlen ← scanBack abspath (abspath.length - 2) 1
    return sdsRange abspath 0 (-(trimlen + 1))
  else .ok abspath

/-- The path begins with `../`. -/
def BeginsWithParent (relpath : Bytes) : Prop :=
  relpath.length ≥ 3 ∧ relpath[0]? = some 46 ∧ relpath[1]? = some 46 ∧ relpath[2]? = some 47

instance (relpath : Bytes) : Decidable (BeginsWithParent relpath) :=
  inferInstanceAs (Decidable (_ ∧ _ ∧ _ ∧ _))

theorem BeginsWithParent.length_lt {relpath : Bytes} (h : BeginsWithParent relpath) :
    (sdsRange relpath 3 (-1)).length < relpath.length := by
  rw [show (3 : Int) = (3 : Nat) from rfl, sdsRange_drop, List.length_drop]
  have := h.1
  omega

/-- The loop over the `../` in front: what is left of both paths. -/
def removeParents (abspath relpath : Bytes) : Except Fault (Bytes × Bytes) :=
  if _h : BeginsWithParent relpath then do
    let abspath ← removeLastElement abspath
    removeParents abspath (sdsRange relpath 3 (-1))
  else .ok (abspath, relpath)
termination_by relpath.length
decreasing_by exact BeginsWithParent.length_lt _h

/-- `get_absolute_path` in the directory `cwd`. -/
def getAbsolutePath (cwd filename : Bytes) : Except Fault (Option Bytes) :=
  let relpath := sdsTrim isBlank filename
  if relpath[0]? = some 47 then .ok (some relpath)
  else match getcwd cwd 1024 with
  | none => .ok none
  | some cwd => do
      let abspath := if cwd.length ≠ 0 ∧ cwd.getLast? ≠ some 47 then cwd ++ [47] else cwd
      let (abspath, relpath) ← removeParents abspath relpath
      return some (abspath ++ relpath)

/-! ## Directories -/

/-- A path as the system writes it: every name behind a slash, or a single slash. -/
def cwdPath (names : List Bytes) : Bytes := if names = [] then [47] else names.flatMap (47 :: ·)

/-- A path with a slash behind every name. -/
def dirPath (names : List Bytes) : Bytes := 47 :: names.flatMap (· ++ [47])

theorem dirPath_concat (names : List Bytes) (name : Bytes) :
    dirPath (names ++ [name]) = dirPath names ++ (name ++ [47]) := by
  simp [dirPath]

/-- A directory ends with a slash, too. -/
theorem dirPath_eq_concat (names : List Bytes) : ∃ front, dirPath names = front ++ [47] := by
  induction names using List.reverseRecOn with
  | nil => exact ⟨[], rfl⟩
  | append_singleton names name ih =>
      exact ⟨dirPath names ++ name, by rw [dirPath_concat, List.append_assoc]⟩

/-- One slash makes the one path of the other. -/
theorem flatMap_slash (names : List Bytes) : names.flatMap (47 :: ·) ++ [47] = dirPath names := by
  induction names with
  | nil => rfl
  | cons name names ih =>
      unfold dirPath at ih ⊢
      rw [List.flatMap_cons, List.flatMap_cons, List.append_assoc, ih]
      simp

/-! ## The scan -/

/-- The scan passes a name and stops at the slash in front of it. -/
theorem scanBack_name (front : Bytes) {name : Bytes} (hname : 47 ∉ name) (tail : Bytes)
    (trimlen : Int) :
    scanBack (front ++ 47 :: (name ++ tail)) (front.length + name.length) trimlen =
      .ok (trimlen + name.length) := by
  induction name using List.reverseRecOn generalizing tail trimlen with
  | nil =>
      unfold scanBack
      simp
  | append_singleton name b ih =>
      rw [List.mem_append, not_or, List.mem_singleton] at hname
      have hbyte : (front ++ 47 :: (name ++ [b] ++ tail))[front.length + (name ++ [b]).length]? =
          some b := by
        rw [List.getElem?_append_right (by omega)]
        simp
      unfold scanBack
      rw [hbyte]
      dsimp only
      rw [if_neg (Ne.symm hname.2), List.length_append, List.length_singleton, ← Nat.add_assoc,
        List.append_assoc]
      dsimp only
      rw [ih hname.1 ([b] ++ tail) (trimlen + 1)]
      congr 1
      push_cast
      omega

/-- The last element goes, as `..` says. -/
theorem removeLastElement_concat (names : List Bytes) {name : Bytes} (hname : 47 ∉ name) :
    removeLastElement (dirPath (names ++ [name])) = .ok (dirPath names) := by
  obtain ⟨front, hfront⟩ := dirPath_eq_concat names
  have heq : dirPath (names ++ [name]) = front ++ 47 :: (name ++ [47]) := by
    rw [dirPath_concat, hfront, List.append_assoc]
    rfl
  have hlen : (dirPath (names ++ [name])).length = front.length + name.length + 2 := by
    rw [heq]
    simp
    omega
  unfold removeLastElement
  rw [if_pos (by omega), hlen, Nat.add_sub_cancel, heq, scanBack_name front hname [47] 1, Run.ok_bind,
    ← heq, show -((1 : Int) + name.length + 1) = -(((name.length + 1 : Nat) : Int) + 1) by omega,
    sdsRange_take (by omega), hlen, Run.pure_eq, heq, hfront]
  congr 1
  rw [show front.length + name.length + 2 - (name.length + 1) = front.length + 1 by omega,
    List.take_append]
  simp

/-- The root stays. -/
theorem removeLastElement_root : removeLastElement (dirPath []) = .ok (dirPath []) := rfl

theorem removeLastElement_dirPath {names : List Bytes} (hnames : ∀ name ∈ names, 47 ∉ name) :
    removeLastElement (dirPath names) = .ok (dirPath names.dropLast) := by
  induction names using List.reverseRecOn with
  | nil => exact removeLastElement_root
  | append_singleton names name _ =>
      rw [List.dropLast_concat]
      exact removeLastElement_concat names (hnames name (by simp))

/-! ## The loop -/

/-- `k` steps to the parent directory. -/
def parents (k : Nat) : Bytes := (List.replicate k (ascii "../")).flatten

theorem beginsWithParent_iff {relpath : Bytes} :
    BeginsWithParent relpath ↔ ascii "../" <+: relpath := by
  constructor
  · rintro ⟨hlen, h₀, h₁, h₂⟩
    match relpath with
    | a :: b :: c :: rest =>
        cases h₀
        cases h₁
        cases h₂
        exact ⟨rest, rfl⟩
  · rintro ⟨rest, rfl⟩
    exact ⟨by simp [ascii], rfl, rfl, rfl⟩

theorem removeParents_eq {names : List Bytes} (hnames : ∀ name ∈ names, 47 ∉ name) (k : Nat)
    {rest : Bytes} (hrest : ¬ ascii "../" <+: rest) :
    removeParents (dirPath names) (parents k ++ rest) =
      .ok (dirPath (names.take (names.length - k)), rest) := by
  induction k generalizing names with
  | zero =>
      unfold removeParents
      rw [dif_neg (by rw [beginsWithParent_iff]; exact hrest)]
      simp [parents]
  | succ k ih =>
      have hcons : parents (k + 1) ++ rest = ascii "../" ++ (parents k ++ rest) := by
        simp [parents, List.replicate_succ]
      unfold removeParents
      rw [dif_pos (by rw [beginsWithParent_iff, hcons]; exact List.prefix_append _ _),
        removeLastElement_dirPath hnames, Run.ok_bind, show (3 : Int) = (3 : Nat) from rfl,
        sdsRange_drop, hcons, show (ascii "../" ++ (parents k ++ rest)).drop 3 = parents k ++ rest from rfl,
        ih fun name hname ↦ hnames name (List.dropLast_subset names hname)]
      rw [List.length_dropLast, List.dropLast_eq_take, List.take_take,
        show min (names.length - 1 - k) (names.length - 1) = names.length - (k + 1) by omega]

/-! ## The whole -/

/-- The buffer the loop starts with ends with a slash. -/
theorem cwdPath_slash {names : List Bytes} (hnames : ∀ name ∈ names, name ≠ [] ∧ 47 ∉ name) :
    (if (cwdPath names).length ≠ 0 ∧ (cwdPath names).getLast? ≠ some 47 then cwdPath names ++ [47]
      else cwdPath names) = dirPath names := by
  induction names using List.reverseRecOn with
  | nil => rfl
  | append_singleton names name _ =>
      obtain ⟨hne, hslash⟩ := hnames name (by simp)
      have hcwd : cwdPath (names ++ [name]) = names.flatMap (47 :: ·) ++ 47 :: name := by
        unfold cwdPath
        rw [if_neg (by simp)]
        simp
      have hlast : (cwdPath (names ++ [name])).getLast? ≠ some 47 := by
        rw [hcwd, List.getLast?_append_cons, List.getLast?_cons_of_ne_nil hne]
        intro h
        exact hslash (List.mem_of_getLast? h)
      rw [if_pos ⟨by rw [hcwd]; simp, hlast⟩, ← flatMap_slash]
      unfold cwdPath
      rw [if_neg (by simp)]

/-- **Absolute paths.**  A relative path is put behind what is left of the current directory, if
the system can tell the directory in 1024 bytes; and the scans stay in the buffer. -/
theorem getAbsolutePath_eq {names : List Bytes} (hnames : ∀ name ∈ names, name ≠ [] ∧ 47 ∉ name)
    {filename rest : Bytes} {k : Nat} (htrim : sdsTrim isBlank filename = parents k ++ rest)
    (hrel : (parents k ++ rest)[0]? ≠ some 47) (hrest : ¬ ascii "../" <+: rest) :
    getAbsolutePath (cwdPath names) filename =
      .ok (if (cwdPath names).length ≤ 1023 then
        some (dirPath (names.take (names.length - min k names.length)) ++ rest) else none) := by
  have hparents := removeParents_eq (fun name hname ↦ (hnames name hname).2) k hrest
  unfold getAbsolutePath getcwd
  rw [htrim, if_neg hrel]
  by_cases hlen : (cwdPath names).length ≤ 1023
  · rw [if_pos (by omega), if_pos hlen]
    dsimp only
    rw [cwdPath_slash hnames, hparents, Run.ok_bind, Run.pure_eq,
      show names.length - min k names.length = names.length - k by omega]
  · rw [if_neg (by omega), if_neg hlen]

/-- From `/usr/local`, two steps up and down again. -/
theorem getAbsolutePath_eq_up :
    getAbsolutePath (cwdPath [ascii "usr", ascii "local"]) (ascii " ../../etc/redis.conf\n") =
      .ok (some (ascii "/etc/redis.conf")) := by
  have htrim : sdsTrim isBlank (ascii " ../../etc/redis.conf\n") =
      parents 2 ++ ascii "etc/redis.conf" := by decide
  have hnames : ∀ name ∈ [ascii "usr", ascii "local"], name ≠ [] ∧ 47 ∉ name := by decide
  exact getAbsolutePath_eq hnames htrim (by decide) (by decide)

/-- A directory whose path is 1024 bytes long. -/
def deepDirectory : List Bytes := List.replicate 8 (List.replicate 127 97)

theorem length_cwdPath_deepDirectory : (cwdPath deepDirectory).length = 1024 := by
  have hne : deepDirectory ≠ [] := List.cons_ne_nil _ _
  unfold cwdPath
  rw [if_neg hne, List.length_flatMap, deepDirectory, List.map_replicate, List.sum_replicate,
    List.length_cons, List.length_replicate]
  rfl

/-- Such a path does not fit, and `NULL` comes back. -/
theorem getAbsolutePath_long :
    (∀ name ∈ deepDirectory, name ≠ [] ∧ 47 ∉ name) ∧
      getAbsolutePath (cwdPath deepDirectory) (ascii "redis.conf") = .ok none ∧
      getAbsolutePath (cwdPath deepDirectory) (ascii "redis.conf") ≠
        .ok (some (dirPath deepDirectory ++ ascii "redis.conf")) := by
  have hnames : ∀ name ∈ deepDirectory, name ≠ [] ∧ 47 ∉ name := by
    intro name hname
    rw [List.eq_of_mem_replicate hname]
    refine ⟨List.cons_ne_nil _ _, fun hslash ↦ ?_⟩
    exact absurd (List.eq_of_mem_replicate hslash) (by decide)
  have hnull : getAbsolutePath (cwdPath deepDirectory) (ascii "redis.conf") = .ok none := by
    unfold getAbsolutePath getcwd
    rw [length_cwdPath_deepDirectory]
    rfl
  refine ⟨hnames, hnull, ?_⟩
  rw [hnull]
  intro h
  cases h

end LatteRedis
