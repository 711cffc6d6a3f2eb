import Mathlib.Data.List.Basic
import Mathlib.Data.List.Induction

/-!
# Runs of steps that may stop

A step `σ → ι → Except ε σ` either returns the next state or stops the machine.  A
run over a list of inputs is `List.foldlM`.  This file has the rules every argument
about such runs uses: peeling one computation off a `do` block (`Run.bind_eq_ok`),
carrying an invariant from the first state of a run to its last (`Run.invariant`),
running two computations side by side (`Run.Related`), and comparing a run with what a
specification says of it (`Run.Refines`).
-/

namespace Run

universe u v w

variable {ε : Type u} {α β : Type v} {σ : Type v} {ι : Type w}

@[simp] theorem ok_bind (a : α) (f : α → Except ε β) : (Except.ok a >>= f) = f a := rfl

@[simp] theorem error_bind (e : ε) (f : α → Except ε β) :
    ((Except.error e : Except ε α) >>= f) = .error e := rfl

@[simp] theorem pure_eq (a : α) : (pure a : Except ε α) = .ok a := rfl

/-- A sequence returns only if its first part does. -/
theorem bind_eq_ok {x : Except ε α} {f : α → Except ε β} {b : β} :
    (x >>= f) = .ok b ↔ ∃ a, x = .ok a ∧ f a = .ok b := by
  cases x with
  | error e => simp
  | ok a => simp

variable {step : σ → ι → Except ε σ}

/-- A run returns only if its first step does. -/
theorem foldlM_cons_eq_ok {s s' : σ} {i : ι} {is : List ι} :
    (i :: is).foldlM step s = .ok s' ↔ ∃ t, step s i = .ok t ∧ is.foldlM step t = .ok s' := by
  rw [List.foldlM_cons, bind_eq_ok]

/-- The last step of a run. -/
theorem foldlM_concat (step : σ → ι → Except ε σ) (s : σ) (is : List ι) (i : ι) :
    (is ++ [i]).foldlM step s = is.foldlM step s >>= fun t ↦ step t i := by
  rw [List.foldlM_append]
  congr 1
  funext t
  exact bind_pure (step t i)

/-- **Invariants of runs.**  What every step on an admitted input preserves, every run
over admitted inputs preserves. -/
theorem invariant {P : σ → Prop} {Q : ι → Prop}
    (hstep : ∀ {s i s'}, Q i → P s → step s i = .ok s' → P s') {is : List ι} {s s' : σ}
    (hQ : ∀ i ∈ is, Q i) (hs : P s) (h : is.foldlM step s = .ok s') : P s' := by
  induction is generalizing s with
  | nil => cases h; exact hs
  | cons i is ih =>
      obtain ⟨t, ht, hrest⟩ := foldlM_cons_eq_ok.mp h
      exact ih (fun j hj ↦ hQ j (by simp [hj])) (hstep (hQ i (by simp)) hs ht) hrest

/-- A list of computations returns if each of them does. -/
theorem mapM_ok {f : ι → Except ε α} {is : List ι} (h : ∀ i ∈ is, ∃ a, f i = .ok a) :
    ∃ as, is.mapM f = .ok as := by
  induction is with
  | nil => exact ⟨[], rfl⟩
  | cons i is ih =>
      obtain ⟨a, ha⟩ := h i (by simp)
      obtain ⟨as, has⟩ := ih fun j hj ↦ h j (by simp [hj])
      exact ⟨a :: as, by rw [List.mapM_cons, ha, ok_bind, has]; rfl⟩

/-- A loop over the positions of a list that reads what is there. -/
theorem mapM_range {f : Nat → Except ε α} {g : ι → α} {l : List ι}
    (h : ∀ j a, l[j]? = some a → f j = .ok (g a)) : (List.range l.length).mapM f = .ok (l.map g) := by
  induction l using List.reverseRecOn with
  | nil => rfl
  | append_singleton l a ih =>
      have hinit : (List.range l.length).mapM f = .ok (l.map g) := by
        apply ih
        intro j b hj
        apply h
        rw [List.getElem?_append_left (List.getElem?_eq_some_iff.mp hj).1, hj]
      have hlast : f l.length = .ok (g a) := h l.length a (by simp)
      rw [List.length_append, List.length_singleton, List.range_succ, List.mapM_append, hinit,
        ok_bind, List.mapM_cons, hlast, ok_bind]
      simp

/-! ## Two computations side by side -/

/-- Both computations return, and what they return is related, or both stop alike. -/
inductive Related (R : α → β → Prop) : Except ε α → Except ε β → Prop
  | ok {a b} (h : R a b) : Related R (.ok a) (.ok b)
  | error (e : ε) : Related R (.error e) (.error e)

namespace Related

variable {R : α → β → Prop} {x : Except ε α} {y : Except ε β}

theorem mono {R' : α → β → Prop} (h : Related R x y) (hR : ∀ {a b}, R a b → R' a b) :
    Related R' x y := by
  cases h with
  | ok h => exact .ok (hR h)
  | error e => exact .error e

theorem eq_ok {b : β} (h : Related R x (.ok b)) : ∃ a, x = .ok a ∧ R a b := by
  cases h with
  | ok h => exact ⟨_, rfl, h⟩

theorem ok_eq {a : α} (h : Related R (.ok a) y) : ∃ b, y = .ok b ∧ R a b := by
  cases h with
  | ok h => exact ⟨_, rfl, h⟩

theorem eq_error {e : ε} (h : Related R x (.error e)) : x = .error e := by
  cases h
  rfl

/-- What is related is what the computations return. -/
theorem returned (h : Related R x y) :
    Related (fun a b ↦ R a b ∧ x = .ok a ∧ y = .ok b) x y := by
  cases h with
  | ok h => exact .ok ⟨h, rfl, rfl⟩
  | error e => exact .error e

/-- Sequences are related if their parts are. -/
theorem bind {γ δ : Type v} {S : γ → δ → Prop} {f : α → Except ε γ} {g : β → Except ε δ}
    (h : Related R x y) (hfg : ∀ {a b}, R a b → Related S (f a) (g b)) :
    Related S (x >>= f) (y >>= g) := by
  cases h with
  | ok h => exact hfg h
  | error e => exact .error e

/-- The same computation, continued in two ways. -/
theorem bind_same {γ δ : Type v} {S : γ → δ → Prop} {f : α → Except ε γ} {g : α → Except ε δ}
    (x : Except ε α) (hfg : ∀ a, Related S (f a) (g a)) : Related S (x >>= f) (x >>= g) := by
  cases x with
  | ok a => exact hfg a
  | error e => exact .error e

end Related

/-! ## A computation and its specification

A specification says what is returned, or that nothing is; it does not say how a
computation stops. -/

/-- The computation returns exactly if the specification has a result, and then what it
returns is related to that result. -/
inductive Refines (R : α → β → Prop) : Option α → Except ε β → Prop
  | returns {a b} (h : R a b) : Refines R (some a) (.ok b)
  | stops (e : ε) : Refines R none (.error e)

namespace Refines

variable {R : α → β → Prop} {x : Option α} {y : Except ε β}

theorem mono {R' : α → β → Prop} (h : Refines R x y) (hR : ∀ {a b}, R a b → R' a b) :
    Refines R' x y := by
  cases h with
  | returns h => exact .returns (hR h)
  | stops e => exact .stops e

theorem eq_ok {a : α} (h : Refines R (some a) y) : ∃ b, y = .ok b ∧ R a b := by
  cases h with
  | returns h => exact ⟨_, rfl, h⟩

theorem eq_some {b : β} (h : Refines R x y) (hy : y = .ok b) : ∃ a, x = some a ∧ R a b := by
  cases h with
  | returns h =>
      cases hy
      exact ⟨_, rfl, h⟩
  | stops e => cases hy

theorem bind {γ δ : Type v} {S : γ → δ → Prop} {f : α → Option γ} {g : β → Except ε δ}
    (h : Refines R x y) (hfg : ∀ {a b}, R a b → Refines S (f a) (g b)) :
    Refines S (x >>= f) (y >>= g) := by
  cases h with
  | returns h => exact hfg h
  | stops e => exact .stops e

/-- **Refinement of runs.**  If every step on an admitted input refines what the
specification says of it, then every run over admitted inputs does. -/
theorem foldlM {Q : ι → Prop} {f : α → ι → Option α} {g : β → ι → Except ε β}
    (hstep : ∀ {a b i}, Q i → R a b → Refines R (f a i) (g b i)) {is : List ι}
    (hQ : ∀ i ∈ is, Q i) {a : α} {b : β} (h : R a b) :
    Refines R (is.foldlM f a) (is.foldlM g b) := by
  induction is generalizing a b with
  | nil => exact .returns h
  | cons i is ih =>
      rw [List.foldlM_cons, List.foldlM_cons]
      refine (hstep (hQ i (by simp)) h).bind fun h' ↦ ?_
      exact ih (fun j hj ↦ hQ j (by simp [hj])) h'

end Refines

end Run
