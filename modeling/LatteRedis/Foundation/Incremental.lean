import Mathlib.Data.List.Basic

/-!
# Incremental decoders

A streaming decoder looks at the bytes received so far and either asks for more,
fails, or consumes a prefix and moves to its next state.  The transport cuts the
stream wherever it likes, so the decoder is run again and again on growing buffers.
This file says what one step has to satisfy for the cutting not to matter.

A `Decoder` carries those laws as fields: consuming is stable under more input, and
so is failing, except that a failure may turn back into waiting on the inputs the
decoder itself calls `late`.  `Decodes` runs a decoder until it stops, `Feeds` runs
it on a buffer that grows chunk by chunk, and `feeds_decodes` compares the two: the
outcome is the same, unless the chunked run has failed and the other one waits on a
late input.

A program that may wait reads with calls that block instead.  A `Reader` is such a call, as
a function of what has arrived, and the last section is about its returning neither too
early nor too late.
-/

namespace Incremental

universe u v w

/-- What one step of a decoder says about the bytes in front of it. -/
inductive Verdict (S : Type v) (R : Type w) where
  | /-- Nothing can be consumed yet. -/ more
  | /-- The bytes are malformed. -/ fail
  | /-- Consume `n` bytes and continue from `s`. -/ next (s : S) (n : Nat)
  | /-- Consume `n` bytes; the value is complete. -/ done (r : R) (n : Nat)

/-- A decoder whose verdicts survive the arrival of more input. -/
structure Decoder (β : Type u) (S : Type v) (R : Type w) where
  /-- One step on the bytes at hand. -/
  step : S → List β → Verdict S R
  /-- The inputs on which the decoder waits although a prefix of them was malformed. -/
  late : S → List β → Prop
  /-- Consuming makes progress and is stable. -/
  next_append : ∀ {s u s' n}, step s u = .next s' n →
    0 < n ∧ n ≤ u.length ∧ ∀ v, step s (u ++ v) = .next s' n
  /-- Completing is stable. -/
  done_append : ∀ {s u r n}, step s u = .done r n →
    n ≤ u.length ∧ ∀ v, step s (u ++ v) = .done r n
  /-- Failing is stable up to `late` inputs. -/
  fail_append : ∀ {s u}, step s u = .fail → ∀ v,
    step s (u ++ v) = .fail ∨ (step s (u ++ v) = .more ∧ late s (u ++ v))

/-- How a run of a decoder ends, with the bytes it has left unread. -/
inductive Outcome (β : Type u) (S : Type v) (R : Type w) where
  | more (s : S) (u : List β)
  | fail (s : S) (u : List β)
  | done (r : R) (rest : List β)

variable {β : Type u} {S : Type v} {R : Type w} {D : Decoder β S R}

/-- `Decodes D s u o`: started in state `s` on the bytes `u`, the decoder stops with `o`. -/
inductive Decodes (D : Decoder β S R) : S → List β → Outcome β S R → Prop
  | more {s u} : D.step s u = .more → Decodes D s u (.more s u)
  | fail {s u} : D.step s u = .fail → Decodes D s u (.fail s u)
  | done {s u r n} : D.step s u = .done r n → Decodes D s u (.done r (u.drop n))
  | next {s u s' n o} : D.step s u = .next s' n → Decodes D s' (u.drop n) o → Decodes D s u o

namespace Decodes

/-- A decoder has one outcome. -/
theorem det {s : S} {u : List β} {o o' : Outcome β S R} (h : Decodes D s u o)
    (h' : Decodes D s u o') : o = o' := by
  induction h with
  | more hs => cases h' <;> simp_all
  | fail hs => cases h' <;> simp_all
  | done hs => cases h' <;> simp_all
  | next hs _ ih =>
      cases h' with
      | next hs' hr =>
          rw [hs] at hs'
          cases hs'
          exact ih hr
      | more hs' | fail hs' | done hs' => rw [hs] at hs'; cases hs'

/-- Every run stops, since each continuing step consumes a byte. -/
theorem total (s : S) (u : List β) : ∃ o, Decodes D s u o := by
  induction hn : u.length using Nat.strongRecOn generalizing s u with
  | _ k ih =>
      cases hs : D.step s u with
      | more => exact ⟨_, .more hs⟩
      | fail => exact ⟨_, .fail hs⟩
      | done r n => exact ⟨_, .done hs⟩
      | next s' n =>
          obtain ⟨hpos, hle, -⟩ := D.next_append hs
          obtain ⟨o, ho⟩ := ih (u.drop n).length (by rw [List.length_drop]; omega) s' _ rfl
          exact ⟨o, .next hs ho⟩

/-- A decoder that asks for more is stuck where it stands. -/
theorem step_more {s s' : S} {u u' : List β} (h : Decodes D s u (.more s' u')) :
    D.step s' u' = .more := by
  generalize ho : (Outcome.more s' u' : Outcome β S R) = o at h
  induction h with
  | more hs => cases ho; exact hs
  | next _ _ ih => exact ih ho
  | fail _ | done _ => cases ho

/-- The bytes a waiting decoder has not consumed are a suffix of its input. -/
theorem more_suffix {s s' : S} {u u' : List β} (h : Decodes D s u (.more s' u')) : u' <:+ u := by
  generalize ho : (Outcome.more s' u' : Outcome β S R) = o at h
  induction h with
  | more _ => cases ho; exact List.suffix_refl _
  | next _ _ ih => exact (ih ho).trans (List.drop_suffix _ _)
  | fail _ | done _ => cases ho

/-- Waiting and then seeing `v` is the same as seeing `v` from the start. -/
theorem append_more {s s' : S} {u u' : List β} (h : Decodes D s u (.more s' u')) (v : List β)
    {o : Outcome β S R} (h' : Decodes D s' (u' ++ v) o) : Decodes D s (u ++ v) o := by
  generalize ho : (Outcome.more s' u' : Outcome β S R) = q at h
  induction h with
  | more _ => cases ho; exact h'
  | next hs _ ih =>
      obtain ⟨-, hle, happ⟩ := D.next_append hs
      refine .next (happ v) ?_
      rw [List.drop_append_of_le_length hle]
      exact ih ho
  | fail _ | done _ => cases ho

/-- A complete value stays complete, and what follows it stays unread. -/
theorem append_done {s : S} {u rest : List β} {r : R} (h : Decodes D s u (.done r rest))
    (v : List β) : Decodes D s (u ++ v) (.done r (rest ++ v)) := by
  generalize ho : (Outcome.done r rest : Outcome β S R) = q at h
  induction h with
  | done hs =>
      cases ho
      obtain ⟨hle, happ⟩ := D.done_append hs
      rw [← List.drop_append_of_le_length hle]
      exact .done (happ v)
  | next hs _ ih =>
      obtain ⟨-, hle, happ⟩ := D.next_append hs
      refine .next (happ v) ?_
      rw [List.drop_append_of_le_length hle]
      exact ih ho
  | fail _ | more _ => cases ho

/-- A failure stays one, unless the longer input is late. -/
theorem append_fail {s s' : S} {u u' : List β} (h : Decodes D s u (.fail s' u')) (v : List β) :
    Decodes D s (u ++ v) (.fail s' (u' ++ v)) ∨
      (Decodes D s (u ++ v) (.more s' (u' ++ v)) ∧ D.late s' (u' ++ v)) := by
  generalize ho : (Outcome.fail s' u' : Outcome β S R) = q at h
  induction h with
  | fail hs =>
      cases ho
      rcases D.fail_append hs v with hf | ⟨hm, hl⟩
      · exact .inl (.fail hf)
      · exact .inr ⟨.more hm, hl⟩
  | next hs _ ih =>
      obtain ⟨-, hle, happ⟩ := D.next_append hs
      rw [← List.drop_append_of_le_length hle] at ih
      rcases ih ho with hf | ⟨hm, hl⟩
      · exact .inl (.next (happ v) hf)
      · exact .inr ⟨.next (happ v) hm, hl⟩
  | more _ | done _ => cases ho

end Decodes

/-- `Feeds D s u cs o`: with the bytes `u` pending in state `s`, the chunks `cs` arrive
one after another, the decoder runs after each, and the first completion or failure
ends the run.  The chunks that were not needed count as unread. -/
inductive Feeds (D : Decoder β S R) : S → List β → List (List β) → Outcome β S R → Prop
  | nil (s u) : Feeds D s u [] (.more s u)
  | more {s u c cs s' u' o} : Decodes D s (u ++ c) (.more s' u') → Feeds D s' u' cs o →
      Feeds D s u (c :: cs) o
  | fail {s u c cs s' u'} : Decodes D s (u ++ c) (.fail s' u') →
      Feeds D s u (c :: cs) (.fail s' (u' ++ cs.flatten))
  | done {s u c cs r rest} : Decodes D s (u ++ c) (.done r rest) →
      Feeds D s u (c :: cs) (.done r (rest ++ cs.flatten))

/-- A single chunk is a single run. -/
theorem Feeds.singleton {s : S} {u c : List β} {o : Outcome β S R} (h : Feeds D s u [c] o) :
    Decodes D s (u ++ c) o := by
  cases h with
  | more hd hrest => cases hrest; exact hd
  | fail hd => rw [List.flatten_nil, List.append_nil]; exact hd
  | done hd => rw [List.flatten_nil, List.append_nil]; exact hd

/-- **Cutting the stream does not matter**, except that a chunked run may have failed
on a late input on which the run over the whole stream still waits. -/
theorem feeds_decodes {s : S} {u : List β} {cs : List (List β)} {o : Outcome β S R}
    (h : Feeds D s u cs o) (hw : D.step s u = .more) :
    Decodes D s (u ++ cs.flatten) o ∨ ∃ s' u', o = .fail s' u' ∧
      Decodes D s (u ++ cs.flatten) (.more s' u') ∧ D.late s' u' := by
  induction h with
  | nil s u => rw [List.flatten_nil, List.append_nil]; exact .inl (.more hw)
  | more hd _ ih =>
      rw [List.flatten_cons, ← List.append_assoc]
      rcases ih hd.step_more with hr | ⟨s', u', ho, hm, hl⟩
      · exact .inl (hd.append_more _ hr)
      · exact .inr ⟨s', u', ho, hd.append_more _ hm, hl⟩
  | fail hd =>
      rw [List.flatten_cons, ← List.append_assoc]
      rcases hd.append_fail _ with hf | ⟨hm, hl⟩
      · exact .inl hf
      · exact .inr ⟨_, _, rfl, hm, hl⟩
  | done hd =>
      rw [List.flatten_cons, ← List.append_assoc]
      exact .inl (hd.append_done _)

/-! ## Blocking reads -/

/-- What a read makes of what has arrived: a result, and what is left for later reads;
`none` while it blocks. -/
abbrev Reader (β : Type u) (R : Type w) := List β → Option (R × List β)

/-- What arrives behind a message is not looked at. -/
def Reader.Steady (read : Reader β R) : Prop :=
  ∀ u r rest, read u = some (r, rest) → ∀ v, read (u ++ v) = some (r, rest ++ v)

/-- **A read returns when its message is complete, and not before.** -/
theorem Reader.Steady.of_append {read : Reader β R} (h : read.Steady) {u v : List β} {r : R}
    (hw : read (u ++ v) = some (r, [])) :
    (v = [] ∧ read u = some (r, [])) ∨ (v ≠ [] ∧ read u = none) := by
  cases hu : read u with
  | none =>
      refine .inr ⟨?_, rfl⟩
      rintro rfl
      rw [List.append_nil, hu] at hw
      cases hw
  | some p =>
      obtain ⟨r', rest⟩ := p
      have hlong := (h u r' rest hu v).symm.trans hw
      rw [Option.some.injEq, Prod.mk.injEq, List.append_eq_nil_iff] at hlong
      obtain ⟨rfl, rfl, hv⟩ := hlong
      exact .inl ⟨hv, rfl⟩

end Incremental
