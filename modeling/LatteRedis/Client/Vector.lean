import LatteRedis.Client.Parser

/-!
# The argument vector and the multibulk parser

The parser does two things to `argc` and `argv`: behind the count line it makes a new
vector, which it does only when there are no arguments, and for every argument it fills
the next slot.  So a property of the vector that both keep is kept by every call of
`process_multibulk_buffer`, however many arguments have arrived (`VectorInvariant.run`).
-/

namespace LatteRedis

open ByteString

variable {L : LatteC}

/-- What the multibulk parser keeps of the vector: a property of `argc` and `argv` that
holds of every new vector and of one more argument. -/
structure VectorInvariant (P : Int → Ptr Argv → Prop) : Prop where
  new {argv : Ptr Argv} (slots : Nat) : P 0 argv → P 0 (.live ⟨slots, []⟩)
  push {argc : Int} {a : Argv} (o : LatteObject) : P argc (.live a) → 0 ≤ argc → argc < a.slots →
    P (argc + 1) (.live { a with vals := a.vals.take argc.toNat ++ [o] })

namespace VectorInvariant

variable {P : Int → Ptr Argv → Prop} (hP : VectorInvariant P)

include hP

theorem readMultibulkLen {rc : RedisClient} {f : Flow} (hrc : P rc.argc rc.argv)
    (h : readMultibulkLen L rc = .ok f) : P f.client.argc f.client.argv := by
  obtain ⟨hargc, rfl | ⟨rc', rfl, _, _, rfl⟩ | ⟨newline, -, rfl | ⟨ll, -, rfl⟩⟩⟩ :=
    readMultibulkLen_ends h
  · exact hrc
  · exact hrc
  · exact hrc
  · show P rc.argc _
    rw [hargc] at hrc ⊢
    exact hP.new _ hrc

omit hP in
theorem readBulkLen (rc : RedisClient) (hrc : P rc.argc rc.argv) :
    P (readBulkLen L rc).client.argc (readBulkLen L rc).client.argv := by
  obtain h | ⟨rc', h, _, _, rfl⟩ | ⟨newline, ll, -, -, h | h⟩ := readBulkLen_ends L rc
  all_goals
    rw [h]
    exact hrc

theorem readBulkArg {rc : RedisClient} {f : Flow} (hrc : P rc.argc rc.argv)
    (h : readBulkArg L rc = .ok f) : P f.client.argc f.client.argv := by
  obtain rfl | ⟨-, o, rc₁, hpush, hf⟩ := readBulkArg_ends h
  · exact hrc
  · obtain ⟨a, hargv, hnonneg, hroom, rfl⟩ := pushArg_ends hpush
    rw [hargv] at hrc
    have hpushed := hP.push o hrc hnonneg hroom
    obtain ⟨-, rfl⟩ | rfl := hf <;> exact hpushed

/-- **The vector under the parser.**  Every call keeps the property. -/
theorem run {rc rc' : RedisClient} {code : Int}
    (h : processMultibulkBuffer L rc = .ok (code, rc')) (hrc : P rc.argc rc.argv) :
    P rc'.argc rc'.argv :=
  processMultibulkBuffer_invariant (P := fun rc ↦ P rc.argc rc.argv) hP.readMultibulkLen
    readBulkLen hP.readBulkArg hrc h

end VectorInvariant

/-! ## Arguments stay where they are -/

namespace RedisClient

/-- The slots of the vector that were written are those below `argc`. -/
def Whole (rc : RedisClient) : Prop :=
  rc.argc = 0 ∨ ∃ a, rc.argv = .live a ∧ rc.argc = a.vals.length

theorem args_of_full {rc : RedisClient} {a : Argv} (hargv : rc.argv = .live a)
    (hlen : rc.argc = a.vals.length) : rc.args = a.vals := by
  rw [args, hargv]
  exact List.take_of_length_le (by omega)

theorem args_of_argc_eq_zero {rc : RedisClient} (h : rc.argc = 0) : rc.args = [] := by
  unfold args
  rw [h]
  split <;> rfl

theorem Whole.length_args {rc : RedisClient} (h : rc.Whole) : (rc.args.length : Int) = rc.argc := by
  obtain hzero | ⟨a, hargv, hlen⟩ := h
  · rw [args_of_argc_eq_zero hzero, hzero]
    rfl
  · rw [args_of_full hargv hlen, hlen]

/-- The slots of the vector that were written are `old` and more. -/
def Extends (old : List LatteObject) (argc : Int) (argv : Ptr Argv) : Prop :=
  (argc = 0 ∧ old = []) ∨ ∃ a, argv = .live a ∧ argc = a.vals.length ∧ old <+: a.vals

theorem vectorInvariant_extends (old : List LatteObject) : VectorInvariant (Extends old) where
  new slots h := by
    obtain ⟨-, hold⟩ | ⟨a, -, hlen, hold⟩ := h
    · exact .inl ⟨rfl, hold⟩
    · have hnil : a.vals = [] := List.length_eq_zero_iff.mp (by omega)
      rw [hnil] at hold
      exact .inl ⟨rfl, List.prefix_nil.mp hold⟩
  push {argc a} o h hnonneg hroom := by
    right
    refine ⟨_, rfl, ?_⟩
    dsimp only
    obtain ⟨rfl, rfl⟩ | ⟨a', hargv, hlen, hold⟩ := h
    · exact ⟨by simp, List.nil_prefix⟩
    · cases hargv
      rw [List.take_of_length_le (by omega), List.length_append, List.length_singleton]
      exact ⟨by omega, hold.trans (List.prefix_append _ _)⟩

/-- A call of the parser adds arguments, and leaves those there are where they are. -/
theorem Whole.processMultibulkBuffer {rc rc' : RedisClient} {code : Int} (hrc : rc.Whole)
    (h : processMultibulkBuffer L rc = .ok (code, rc')) : rc'.Whole ∧ rc.args <+: rc'.args := by
  have hstart : Extends rc.args rc.argc rc.argv := by
    obtain hzero | ⟨a, hargv, hlen⟩ := hrc
    · exact .inl ⟨hzero, args_of_argc_eq_zero hzero⟩
    · exact .inr ⟨a, hargv, hlen, by rw [args_of_full hargv hlen]⟩
  obtain ⟨hargc, hold⟩ | ⟨a, hargv, hlen, hold⟩ := (vectorInvariant_extends rc.args).run h hstart
  · rw [hold]
    exact ⟨.inl hargc, List.nil_prefix⟩
  · rw [args_of_full hargv hlen]
    exact ⟨.inr ⟨a, hargv, hlen⟩, hold⟩

end RedisClient

end LatteRedis
