import LatteRedis.Foundation.Run
import LatteRedis.Library

/-!
# The list of modules to load (`redis_config/config.c`, module entries of `module.c`)

Every `load-module` line of a configuration becomes a vector with one entry, and
`config_load_modules_add` adds it to the vector of the configuration.  Adding pops the new
vector and pushes onto the old one, in a loop that compares a growing index with the size
of the vector it pops.  So half of a longer vector is moved, last entry first, and the
other half is dropped with the vector (`configLoadModulesAdd_eq`).  With one entry nobody
notices, and `config_load_modules_load` makes no longer ones: the entries of the lines of
a configuration come out in their order (`addLines_elements`).

`vector_t` belongs to `latte_c`, whose sources are not part of the repository.  What is
used of it is a parameter, and what is relied on is `VectorLib.Lawful`.
-/

namespace LatteRedis

open ByteString

/-! ## Vectors -/

/-- What the configuration uses of `vector_t`. -/
structure VectorLib where
  Vec : Type → Type
  vectorNew {α : Type} : Vec α
  vectorPush {α : Type} : Vec α → α → Vec α
  /-- `none` if there is nothing to pop. -/
  vectorPop {α : Type} : Vec α → Option (α × Vec α)
  vectorSize {α : Type} : Vec α → Nat
  /-- `vector_get(v, 0), …, vector_get(v, vector_size(v) - 1)`. -/
  elements {α : Type} : Vec α → List α

/-- A vector is a stack: it grows and shrinks at its end. -/
structure VectorLib.Lawful (V : VectorLib) : Prop where
  elements_new {α : Type} : V.elements (V.vectorNew : V.Vec α) = []
  elements_push {α : Type} (v : V.Vec α) (a : α) :
    V.elements (V.vectorPush v a) = V.elements v ++ [a]
  pop_concat {α : Type} {v : V.Vec α} {l : List α} {a : α} : V.elements v = l ++ [a] →
    ∃ v', V.vectorPop v = some (a, v') ∧ V.elements v' = l
  size_eq {α : Type} (v : V.Vec α) : V.vectorSize v = (V.elements v).length

variable (V : VectorLib) {α : Type}

/-! ## The functions -/

/-- `module_entry_t`. -/
structure ModuleEntry where
  path : Bytes
  args : V.Vec Bytes

def moduleEntryNew (path : Bytes) (args : List Bytes) : ModuleEntry V where
  path := path
  args := args.foldl (fun v s ↦ V.vectorPush v (cString s)) V.vectorNew

/-- A line without a word has no `argv[0]`. -/
def configLoadModulesLoad : List Bytes → Except Fault (V.Vec (ModuleEntry V))
  | [] => .error .badPointer
  | path :: args => .ok (V.vectorPush V.vectorNew (moduleEntryNew V (cString path) args))

/-- `for (; i < vector_size(new_modules); i++) …`, with a bound on the number of
iterations.  Returns both vectors; `none` if the bound is reached or nothing is left to pop. -/
def moveModules : Nat → Nat → V.Vec α → V.Vec α → Option (V.Vec α × V.Vec α)
  | 0, _, _, _ => none
  | fuel + 1, i, old, new =>
      if i < V.vectorSize new then do
        let (entry, new) ← V.vectorPop new
        moveModules fuel (i + 1) (V.vectorPush old entry) new
      else some (old, new)

/-- The return value and what `data_ctx` points to afterwards.  The loop cannot run more
often than the new vector has entries. -/
def configLoadModulesAdd (dataCtx : Option (V.Vec α)) (newModules : V.Vec α) :
    Option (Int × V.Vec α) :=
  match dataCtx with
  | none => some (1, newModules)
  | some oldModules => do
      let (oldModules, _) ← moveModules V (V.vectorSize newModules + 1) 0 oldModules newModules
      return (1, oldModules)

/-- The entries of the configured list; there are none before the first line. -/
def configured (dataCtx : Option (V.Vec α)) : List α := (dataCtx.map V.elements).getD []

variable {V}

/-! ## What is moved -/

/-- From the index `i` on the loop pops every second of the entries that are left, and ends. -/
theorem moveModules_eq (hV : V.Lawful) (fuel i : Nat) (old : V.Vec α) {new : V.Vec α} {l : List α}
    (hl : V.elements new = l) (hfuel : l.length - i < fuel) :
    ∃ old' new', moveModules V fuel i old new = some (old', new') ∧
      V.elements old' =
        V.elements old ++ (l.drop (l.length - (l.length - i + 1) / 2)).reverse := by
  induction fuel generalizing i old new l with
  | zero => exact absurd hfuel (Nat.not_lt_zero _)
  | succ fuel ih =>
      rw [moveModules, hV.size_eq, hl]
      split
      · next hlt =>
          obtain ⟨rest, last, rfl⟩ : ∃ rest last, l = rest ++ [last] := by
            refine ⟨l.dropLast, l.getLast ?_, (List.dropLast_concat_getLast _).symm⟩
            rintro rfl
            exact absurd hlt (Nat.not_lt_zero _)
          rw [List.length_append, List.length_singleton] at hlt hfuel
          obtain ⟨new', hpop, hrest⟩ := hV.pop_concat hl
          obtain ⟨old'', new'', hmove, helems⟩ := ih (i + 1) (V.vectorPush old last) hrest (by omega)
          refine ⟨old'', new'', ?_, ?_⟩
          · rw [hpop]
            exact hmove
          · have hcut : (rest ++ [last]).length - ((rest ++ [last]).length - i + 1) / 2 =
                rest.length - (rest.length - (i + 1) + 1) / 2 := by
              rw [List.length_append, List.length_singleton]
              omega
            rw [helems, hV.elements_push, hcut, List.drop_append_of_le_length (by omega),
              List.reverse_append, List.append_assoc]
            rfl
      · next hge =>
          refine ⟨old, new, rfl, ?_⟩
          have hall : l.length - (l.length - i + 1) / 2 = l.length := by omega
          rw [hall, List.drop_length, List.reverse_nil, List.append_nil]

/-- What `config_load_modules_add` leaves behind: the new vector if there was none, and
else the old entries and the second half of the new ones, backwards. -/
theorem configLoadModulesAdd_eq (hV : V.Lawful) (old : Option (V.Vec α)) (new : V.Vec α) :
    ∃ v, configLoadModulesAdd V old new = some (1, v) ∧
      (old = none → v = new) ∧
      (old ≠ none → V.elements v = configured V old ++
        ((V.elements new).drop ((V.elements new).length / 2)).reverse) := by
  cases old with
  | none => exact ⟨new, rfl, fun _ ↦ rfl, fun h ↦ absurd rfl h⟩
  | some old =>
      have hfuel : (V.elements new).length - 0 < V.vectorSize new + 1 := by
        rw [hV.size_eq]
        omega
      obtain ⟨old', new', hmove, helems⟩ := moveModules_eq hV _ 0 old rfl hfuel
      refine ⟨old', ?_, fun h ↦ absurd h (by simp), fun _ ↦ ?_⟩
      · unfold configLoadModulesAdd
        dsimp only
        rw [hmove]
        rfl
      · have hhalf : (V.elements new).length - ((V.elements new).length - 0 + 1) / 2 =
            (V.elements new).length / 2 := by omega
        rw [helems, hhalf]
        rfl

/-! ## Merging -/

/-- Adding returns, and the configured list is then the old entries followed by the new ones. -/
def MergesInOrder (V : VectorLib) (old : Option (V.Vec α)) (new : V.Vec α) : Prop :=
  ∃ v, configLoadModulesAdd V old new = some (1, v) ∧
    V.elements v = configured V old ++ V.elements new

theorem mergesInOrder_of_size_le (hV : V.Lawful) {old : Option (V.Vec α)} {new : V.Vec α}
    (h : old = none ∨ V.vectorSize new ≤ 1) : MergesInOrder V old new := by
  obtain ⟨v, hadd, hnone, hsome⟩ := configLoadModulesAdd_eq hV old new
  refine ⟨v, hadd, ?_⟩
  by_cases hold : old = none
  · rw [hnone hold, hold]
    rfl
  · have hle := h.resolve_left hold
    rw [hV.size_eq] at hle
    have hhalf : (V.elements new).length / 2 = 0 := by omega
    rw [hsome hold, hhalf, List.drop_zero]
    match V.elements new, hle with
    | [], _ => rfl
    | [entry], _ => rfl

/-- **Merging.**  Nothing is lost and nothing is turned round exactly if there was no list
or at most one entry is added. -/
theorem mergesInOrder_iff (hV : V.Lawful) (old : Option (V.Vec α)) (new : V.Vec α) :
    MergesInOrder V old new ↔ old = none ∨ V.vectorSize new ≤ 1 := by
  refine ⟨?_, mergesInOrder_of_size_le hV⟩
  rintro ⟨v, hadd, hmerged⟩
  obtain ⟨v', hadd', -, hsome⟩ := configLoadModulesAdd_eq hV old new
  cases hadd.symm.trans hadd'
  by_cases hold : old = none
  · exact .inl hold
  · -- half of the entries are not as many as all of them, unless there is one or none
    right
    have hcount := congrArg List.length ((hsome hold).symm.trans hmerged)
    rw [List.length_append, List.length_append, List.length_reverse, List.length_drop] at hcount
    rw [hV.size_eq]
    omega

/-- Vectors that are lists. -/
def listVectors : VectorLib where
  Vec := List
  vectorNew := []
  vectorPush v a := v ++ [a]
  vectorPop v := v.getLast?.map fun a ↦ (a, v.dropLast)
  vectorSize := List.length
  elements v := v

theorem listVectors_lawful : listVectors.Lawful where
  elements_new := rfl
  elements_push _ _ := rfl
  pop_concat h := ⟨_, by cases h; simp [listVectors], rfl⟩
  size_eq _ := rfl

/-- One more module behind two. -/
theorem mergesInOrder_iff_one :
    MergesInOrder listVectors (some [ascii "a.so", ascii "b.so"]) [ascii "c.so"] :=
  (mergesInOrder_iff listVectors_lawful _ _).mpr (.inr (by decide))

/-- Of two more modules the first is lost. -/
theorem not_mergesInOrder_two :
    configLoadModulesAdd listVectors (some [ascii "a.so"]) [ascii "b.so", ascii "c.so"] =
        some (1, [ascii "a.so", ascii "c.so"]) ∧
      ¬ MergesInOrder listVectors (some [ascii "a.so"]) [ascii "b.so", ascii "c.so"] := by
  refine ⟨rfl, ?_⟩
  rintro ⟨v, hadd, hmerged⟩
  cases hadd
  revert hmerged
  decide

/-! ## The lines of a configuration -/

/-- A line is loaded and then added; it is the path and the words behind it. -/
def addLine (V : VectorLib) (dataCtx : Option (V.Vec (ModuleEntry V))) (line : Bytes × List Bytes) :
    Except Fault (Option (V.Vec (ModuleEntry V))) := do
  let newModules ← configLoadModulesLoad V (line.1 :: line.2)
  return (configLoadModulesAdd V dataCtx newModules).map Prod.snd

/-- The entry of a line. -/
def lineEntry (V : VectorLib) (line : Bytes × List Bytes) : ModuleEntry V :=
  moduleEntryNew V (cString line.1) line.2

theorem addLine_elements (hV : V.Lawful) (dataCtx : Option (V.Vec (ModuleEntry V)))
    (line : Bytes × List Bytes) :
    ∃ v, addLine V dataCtx line = .ok (some v) ∧
      V.elements v = configured V dataCtx ++ [lineEntry V line] := by
  have hone : V.elements (V.vectorPush V.vectorNew (lineEntry V line)) = [lineEntry V line] := by
    rw [hV.elements_push, hV.elements_new, List.nil_append]
  have hmerges : MergesInOrder V dataCtx (V.vectorPush V.vectorNew (lineEntry V line)) :=
    mergesInOrder_of_size_le hV (.inr (by rw [hV.size_eq, hone]; rfl))
  obtain ⟨v, hadd, helems⟩ := hmerges
  refine ⟨v, ?_, by rw [helems, hone]⟩
  show Except.ok ((configLoadModulesAdd V dataCtx
    (V.vectorPush V.vectorNew (lineEntry V line))).map Prod.snd) = _
  rw [hadd]
  rfl

/-- Line by line, the configured list gets the entries of the lines in their order. -/
theorem addLines_elements (hV : V.Lawful) (lines : List (Bytes × List Bytes))
    (dataCtx : Option (V.Vec (ModuleEntry V))) :
    ∃ dataCtx', lines.foldlM (addLine V) dataCtx = .ok dataCtx' ∧
      configured V dataCtx' = configured V dataCtx ++ lines.map (lineEntry V) := by
  induction lines generalizing dataCtx with
  | nil => exact ⟨dataCtx, rfl, (List.append_nil _).symm⟩
  | cons line lines ih =>
      obtain ⟨v, hline, helems⟩ := addLine_elements hV dataCtx line
      obtain ⟨dataCtx', hlines, hconfigured⟩ := ih (some v)
      refine ⟨dataCtx', Run.foldlM_cons_eq_ok.mpr ⟨some v, hline, hlines⟩, ?_⟩
      have hv : configured V (some v) = configured V dataCtx ++ [lineEntry V line] := helems
      rw [hconfigured, hv, List.append_assoc]
      rfl

end LatteRedis
