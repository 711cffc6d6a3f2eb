import LatteRedis.Foundation.Run

/-!
# Computations that leave a trace

`Traced ω ε α` refines `Except ε α` by recording, alongside the result, the events of the
computation in order.  The trace is meaningful even for a computation that stops: what
was done before it stopped is in it.

`result` forgets the trace, and it commutes with everything a `do` block is made of, so a
program that is written with events is seen to be the program without them.  `Traced.All`
is the rule for facts about every event: it goes through a `do` block one line at a time.
-/

/-- A computation together with the events it has gone through. -/
structure Traced (ω ε α : Type) where
  /-- The events, in order. -/
  trace : List ω
  /-- What the computation returns, or how it stops. -/
  result : Except ε α

namespace Traced

variable {ω ε α β : Type}

/-- The second part of a sequence has events only if the first part returns. -/
instance : Monad (Traced ω ε) where
  pure a := ⟨[], .ok a⟩
  bind x f :=
    match x.result with
    | .ok a => ⟨x.trace ++ (f a).trace, (f a).result⟩
    | .error e => ⟨x.trace, .error e⟩

/-- One event. -/
def emit (w : ω) : Traced ω ε Unit := ⟨[w], .ok ()⟩

/-- A computation without events. -/
instance : MonadLift (Except ε) (Traced ω ε) where
  monadLift x := ⟨[], x⟩

/-! ## Forgetting the trace -/

@[simp] theorem result_pure (a : α) : (pure a : Traced ω ε α).result = .ok a := rfl

@[simp] theorem result_lift (x : Except ε α) : (liftM x : Traced ω ε α).result = x := rfl

@[simp] theorem result_emit (w : ω) : (emit w : Traced ω ε Unit).result = .ok () := rfl

@[simp] theorem result_bind (x : Traced ω ε α) (f : α → Traced ω ε β) :
    (x >>= f).result = x.result >>= fun a ↦ (f a).result := by
  obtain ⟨t, r⟩ := x
  cases r <;> rfl

@[simp] theorem result_ite (c : Prop) [Decidable c] (x y : Traced ω ε α) :
    (if c then x else y).result = if c then x.result else y.result := apply_ite ..

/-! ## Every event -/

/-- Every event of the computation has the property. -/
def All (P : ω → Prop) (x : Traced ω ε α) : Prop := ∀ w ∈ x.trace, P w

variable {P : ω → Prop}

theorem All.pure (a : α) : All P (pure a : Traced ω ε α) := fun _ h ↦ by cases h

theorem All.lift (x : Except ε α) : All P (liftM x : Traced ω ε α) := fun _ h ↦ by cases h

theorem all_emit {w : ω} : All P (emit w : Traced ω ε Unit) ↔ P w := by
  simp [All, emit]

/-- What a sequence does is what its parts do. -/
theorem All.bind {x : Traced ω ε α} {f : α → Traced ω ε β} (hx : All P x)
    (hf : ∀ a, x.result = .ok a → All P (f a)) : All P (x >>= f) := by
  obtain ⟨t, r⟩ := x
  cases r with
  | error e => exact hx
  | ok a =>
      intro w hw
      rcases List.mem_append.mp hw with hw | hw
      · exact hx w hw
      · exact hf a rfl w hw

/-- The events of the first part are events of the sequence. -/
theorem All.of_bind {x : Traced ω ε α} {f : α → Traced ω ε β} (h : All P (x >>= f)) : All P x := by
  obtain ⟨t, r⟩ := x
  cases r with
  | error e => exact h
  | ok a => exact fun w hw ↦ h w (List.mem_append_left _ hw)

/-- The events of the second part are, if it is reached. -/
theorem All.of_bind_right {x : Traced ω ε α} {f : α → Traced ω ε β} (h : All P (x >>= f)) {a : α}
    (hx : x.result = .ok a) : All P (f a) := by
  obtain ⟨t, r⟩ := x
  obtain rfl : r = .ok a := hx
  exact fun w hw ↦ h w (List.mem_append_right _ hw)

/-- **Events of runs.**  If every step from a state with the invariant has such events only
and keeps the invariant, every run does. -/
theorem All.foldlM {σ ι : Type} {step : σ → ι → Traced ω ε σ} {I : σ → Prop} {Q : ι → Prop}
    (hstep : ∀ {s i}, I s → Q i → All P (step s i) ∧ ∀ {s'}, (step s i).result = .ok s' → I s')
    {is : List ι} (hQ : ∀ i ∈ is, Q i) {s : σ} (hs : I s) : All P (is.foldlM step s) := by
  induction is generalizing s with
  | nil => exact .pure s
  | cons i is ih =>
      obtain ⟨hall, hI⟩ := hstep hs (hQ i (by simp))
      rw [List.foldlM_cons]
      exact .bind hall fun s' hs' ↦ ih (fun j hj ↦ hQ j (by simp [hj])) (hI hs')

end Traced
