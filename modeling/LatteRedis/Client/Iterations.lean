import LatteRedis.Client.Simulation
import LatteRedis.Client.Vector

/-!
# The loop of `process_multibulk_buffer`, iteration by iteration

`multibulkIteration` is the body of `while (rc->multi_bulk_len)`.  It stops in the middle
of a request, or it takes one argument out of the buffer; `multibulkIteration_cases` says
what both do to the six variables the parser works on.  `multibulkWhile` runs the body
under the condition the source has, and `multibulkWhile_eq` says that counting
`multi_bulk_len` down, as `multibulkLoop` does, is the same.

How much of the buffer has been used is said by `Consumed k rc rc'`, whether the position
was moved, the buffer was cut or it was handed over to an argument.
-/

namespace LatteRedis

open ByteString

variable (L : LatteC)

/-- The first half of an iteration: the length of the argument is known, or it is read. -/
def knownBulkLen (rc : RedisClient) : Flow :=
  if rc.bulkLen = -1 then readBulkLen L rc else .next rc

def multibulkIteration (rc : RedisClient) : Except Fault Flow :=
  match knownBulkLen L rc with
  | .next rc => readBulkArg L rc
  | f => .ok f

/-- What happens behind an iteration, when `k` is the rest of the loop. -/
def Flow.resume (k : RedisClient → Except Fault (Int × RedisClient)) :
    Flow → Except Fault (Int × RedisClient)
  | .ret code rc => .ok (code, rc)
  | .brk rc => .ok (multibulkCode rc, rc)
  | .next rc => k rc

/-- `while (rc->multi_bulk_len) …`, with a bound on the number of iterations; `none` when
the bound is reached. -/
def multibulkWhile : Nat → RedisClient → Option (Except Fault (Int × RedisClient))
  | 0, _ => none
  | n + 1, rc =>
      if rc.multiBulkLen = 0 then some (.ok (multibulkCode rc, rc))
      else match multibulkIteration L rc with
        | .error f => some (.error f)
        | .ok (.ret code rc) => some (.ok (code, rc))
        | .ok (.brk rc) => some (.ok (multibulkCode rc, rc))
        | .ok (.next rc) => multibulkWhile n rc

/-- What stands in front of the loop: the count line, unless it has been read. -/
def multibulkHead (rc : RedisClient) : Except Fault Flow :=
  if rc.multiBulkLen = 0 then readMultibulkLen L rc else .ok (.next rc)

/-- `InLoop L rc₀ rc`: in the call on `rc₀`, the client is `rc` where the condition of the
loop is evaluated. -/
inductive InLoop (rc₀ : RedisClient) : RedisClient → Prop
  | enter {rc} : multibulkHead L rc₀ = .ok (.next rc) → 0 < rc.multiBulkLen → InLoop rc₀ rc
  | next {rc rc'} : InLoop rc₀ rc → rc.multiBulkLen ≠ 0 →
      multibulkIteration L rc = .ok (.next rc') → InLoop rc₀ rc'

/-- How a call that has got to the loop leaves it: by the condition, or out of an iteration. -/
inductive LeavesLoop (rc₀ : RedisClient) : Int → RedisClient → Prop
  | done {rc} : InLoop L rc₀ rc → rc.multiBulkLen = 0 → LeavesLoop rc₀ 0 rc
  | ret {rc code rc'} : InLoop L rc₀ rc → rc.multiBulkLen ≠ 0 →
      multibulkIteration L rc = .ok (.ret code rc') → LeavesLoop rc₀ code rc'
  | brk {rc rc'} : InLoop L rc₀ rc → rc.multiBulkLen ≠ 0 →
      multibulkIteration L rc = .ok (.brk rc') → LeavesLoop rc₀ (multibulkCode rc') rc'

variable {L} {rc rc' : RedisClient}

theorem multibulkLoop_succ (n : Nat) (rc : RedisClient) :
    multibulkLoop L (n + 1) rc = multibulkIteration L rc >>= Flow.resume (multibulkLoop L n) := by
  rw [multibulkLoop, multibulkIteration, knownBulkLen]
  generalize (if rc.bulkLen = -1 then readBulkLen L rc else .next rc) = f
  cases f with
  | ret code rc₁ | brk rc₁ => rfl
  | next rc₁ =>
      dsimp only
      congr 1

/-! ## Consuming the buffer -/

/-- The first `k` unread bytes of `rc` are gone in `rc'`, and nothing else is. -/
structure Consumed (k : Nat) (rc rc' : RedisClient) : Prop where
  inBuffer : rc'.InBuffer
  le : k ≤ rc.unread.length
  unread : rc'.unread = rc.unread.drop k

namespace Consumed

theorem refl (h : rc.InBuffer) : Consumed 0 rc rc := ⟨h, Nat.zero_le _, rfl⟩

theorem trans {rc₁ : RedisClient} {k k' : Nat} (h : Consumed k rc rc₁)
    (h' : Consumed k' rc₁ rc') : Consumed (k + k') rc rc' := by
  have hle := h'.le
  rw [h.unread, List.length_drop] at hle
  refine ⟨h'.inBuffer, ?_, by rw [h'.unread, h.unread, List.drop_drop]⟩
  have := h.le
  omega

theorem length_add {k : Nat} (h : Consumed k rc rc') :
    rc'.unread.length + k = rc.unread.length := by
  rw [h.unread, List.length_drop, Nat.sub_add_cancel h.le]

/-- The position is moved forward. -/
theorem advance (hq : rc.InBuffer) {k : Nat} (hk : k ≤ rc.unread.length)
    (hbuf : rc'.querybuf = rc.querybuf) (hpos : rc'.qbPos = rc.qbPos + k) : Consumed k rc rc' := by
  have hlen := hq.length_eq
  refine ⟨?_, hk, ?_⟩
  · show rc'.qbPos ≤ rc'.querybuf.length
    rw [hbuf, hpos]
    omega
  · rw [RedisClient.unread, RedisClient.unread, hbuf, hpos, List.drop_drop]

/-- The buffer is cut in front of a later position. -/
theorem cut {k : Nat} (hk : k ≤ rc.unread.length) (hbuf : rc'.querybuf = rc.unread.drop k)
    (hpos : rc'.qbPos = 0) : Consumed k rc rc' := by
  refine ⟨?_, hk, ?_⟩
  · show rc'.qbPos ≤ _
    rw [hpos]
    exact Nat.zero_le _
  · rw [RedisClient.unread, hpos, hbuf, List.drop_zero]

end Consumed

/-! ## What one iteration does -/

/-- `bulk_len` is unknown, or a length a client may announce. -/
def RedisClient.BulkLenInRange (rc : RedisClient) : Prop :=
  rc.bulkLen = -1 ∨ 0 ≤ rc.bulkLen ∧ (rc.isMaster = false → rc.bulkLen ≤ protoMaxBulkLen)

/-- From `rc` to `rc'` some bytes have been read, and no argument is complete. -/
structure Waits (rc rc' : RedisClient) : Prop where
  consumed : ∃ k, Consumed k rc rc'
  argc : rc'.argc = rc.argc
  argv : rc'.argv = rc.argv
  argvLenSum : rc'.argvLenSum = rc.argvLenSum
  multiBulkLen : rc'.multiBulkLen = rc.multiBulkLen
  flag : rc'.flag = rc.flag
  bulkLen : rc.BulkLenInRange → rc'.BulkLenInRange

/-- From `rc` to `rc'` one argument has been read. -/
structure Takes (rc rc' : RedisClient) : Prop where
  consumed : ∃ k, 0 < k ∧ Consumed k rc rc'
  pushed : ∃ a o, rc.argv = .live a ∧ 0 ≤ rc.argc ∧ rc.argc < a.slots ∧
    rc'.argv = .live { a with vals := a.vals.take rc.argc.toNat ++ [o] } ∧
    rc'.argvLenSum = rc.argvLenSum + o.content.length
  argc : rc'.argc = rc.argc + 1
  multiBulkLen : rc'.multiBulkLen = rc.multiBulkLen - 1
  bulkLen : rc'.bulkLen = -1
  flag : rc'.flag = rc.flag

theorem Errored.waits (h : Errored L rc rc') (hq : rc.InBuffer) : Waits rc rc' := by
  obtain ⟨text, line, rfl⟩ := h
  exact ⟨⟨0, hq, Nat.zero_le _, rfl⟩, rfl, rfl, rfl, rfl, rfl, fun h ↦ h⟩

/-- A length that has been read is in the range a client that is no master may use. -/
theorem readBulkLen_inRange (h : readBulkLen L rc = .next rc') (hmaster : rc.isMaster = false) :
    rc'.bulkLen ≤ protoMaxBulkLen := by
  unfold readBulkLen at h
  split at h
  · split at h <;> cases h
  · split at h
    · cases h
    · split at h
      · cases h
      · dsimp only at h
        split at h
        · cases h
        · next ll _ =>
            split at h
            · cases h
            · next hgood =>
                split at h
                · cases h
                · cases h
                  have hnot : ¬ ll > protoMaxBulkLen := fun hlt ↦
                    hgood (.inr ⟨by rw [hmaster]; exact Bool.false_ne_true, hlt⟩)
                  exact Int.not_lt.mp hnot

/-- Behind the first half of an iteration the length is known, or the loop is left. -/
theorem knownBulkLen_cases (hq : rc.InBuffer) (hbl : -1 ≤ rc.bulkLen) :
    (∃ rc', (knownBulkLen L rc = .brk rc' ∨ knownBulkLen L rc = .ret (-1) rc') ∧ Waits rc rc') ∨
      ∃ rc', knownBulkLen L rc = .next rc' ∧ Waits rc rc' ∧ 0 ≤ rc'.bulkLen := by
  unfold knownBulkLen
  split
  · obtain h | ⟨rc', h, herr⟩ | ⟨newline, ll, hline, hll, h | h⟩ := readBulkLen_ends L rc
    · exact .inl ⟨rc, .inl h, ⟨0, .refl hq⟩, rfl, rfl, rfl, rfl, rfl, fun h ↦ h⟩
    · exact .inl ⟨rc', .inr h, herr.waits hq⟩
    · have hlen := hq.length_eq
      have hrange := readBulkLen_inRange h
      exact .inr ⟨_, h, ⟨⟨newline + 2, .advance hq (by omega) rfl rfl⟩, rfl, rfl, rfl, rfl, rfl,
        fun _ ↦ .inr ⟨hll, hrange⟩⟩, hll⟩
    · have hlen := hq.length_eq
      have hrange := readBulkLen_inRange h
      refine .inr ⟨_, h, ⟨⟨newline + 2, .cut (by omega) ?_ rfl⟩, rfl, rfl, rfl, rfl, rfl,
        fun _ ↦ .inr ⟨hll, hrange⟩⟩, hll⟩
      rw [RedisClient.unread, List.drop_drop, Nat.add_assoc]
  · next hne =>
      exact .inr ⟨rc, rfl, ⟨⟨0, .refl hq⟩, rfl, rfl, rfl, rfl, rfl, fun h ↦ h⟩, by omega⟩

/-- The second half of an iteration waits for the argument, or takes it. -/
theorem readBulkArg_takes (hq : rc.InBuffer) (hbl : 0 ≤ rc.bulkLen) {f : Flow}
    (h : readBulkArg L rc = .ok f) : f = .brk rc ∨ ∃ rc', f = .next rc' ∧ Takes rc rc' := by
  obtain ⟨l, hl⟩ : ∃ l : Nat, rc.bulkLen = l := ⟨_, (Int.toNat_of_nonneg hbl).symm⟩
  have hnat : rc.bulkLen.toNat = l := by rw [hl, Int.toNat_natCast]
  have hlen := hq.length_eq
  unfold readBulkArg at h
  rw [hq.usub_eq, hnat] at h
  split at h
  · cases h
    exact .inl rfl
  · next hfull =>
      have hle : l + 2 ≤ rc.unread.length := by omega
      right
      split at h
      · next hsteal =>
          obtain ⟨hpos, -, hall⟩ := hsteal
          obtain ⟨rc₁, hpush, h⟩ := Run.bind_eq_ok.mp h
          obtain ⟨a, hargv, hnonneg, hroom, rfl⟩ := pushArg_ends hpush
          cases h
          have hwhole : rc.unread.length = l + 2 := by omega
          refine ⟨_, rfl, ⟨l + 2, by omega, .cut hle ?_ hpos⟩, ⟨a, _, hargv, hnonneg, hroom, rfl, ?_⟩,
            rfl, rfl, rfl, rfl⟩
          · rw [← hwhole, List.drop_length]
          · rw [content_latteObjectNew, List.length_take, Nat.min_eq_left (by omega)]
      · obtain ⟨rc₁, hpush, h⟩ := Run.bind_eq_ok.mp h
        obtain ⟨a, hargv, hnonneg, hroom, rfl⟩ := pushArg_ends hpush
        cases h
        refine ⟨_, rfl, ⟨l + 2, by omega, .advance hq hle rfl rfl⟩,
          ⟨a, _, hargv, hnonneg, hroom, rfl, ?_⟩, rfl, rfl, rfl, rfl⟩
        rw [L.content_stringObjectNew, List.length_take, Nat.min_eq_left (by omega)]

theorem Waits.takes {rc₁ : RedisClient} (h : Waits rc rc₁) (h' : Takes rc₁ rc') : Takes rc rc' := by
  obtain ⟨k, hk⟩ := h.consumed
  obtain ⟨k', hpos, hk'⟩ := h'.consumed
  obtain ⟨a, o, hargv, hnonneg, hroom, hargv', hsum⟩ := h'.pushed
  rw [h.argc] at hnonneg hroom hargv'
  rw [h.argvLenSum] at hsum
  exact ⟨⟨k + k', by omega, hk.trans hk'⟩,
    ⟨a, o, h.argv ▸ hargv, hnonneg, hroom, hargv', hsum⟩, h.argc ▸ h'.argc,
    h.multiBulkLen ▸ h'.multiBulkLen, h'.bulkLen, h'.flag.trans h.flag⟩

/-- **One iteration.**  It leaves the loop in the middle of a request, or it takes one
argument. -/
theorem multibulkIteration_cases (hq : rc.InBuffer) (hbl : -1 ≤ rc.bulkLen) {f : Flow}
    (h : multibulkIteration L rc = .ok f) :
    (∃ rc', (f = .brk rc' ∨ f = .ret (-1) rc') ∧ Waits rc rc') ∨
      ∃ rc', f = .next rc' ∧ Takes rc rc' := by
  unfold multibulkIteration at h
  rcases knownBulkLen_cases (L := L) hq hbl with ⟨rc', hk | hk, hw⟩ | ⟨rc₁, hk, hw, hnonneg⟩
  · rw [hk] at h
    cases h
    exact .inl ⟨rc', .inl rfl, hw⟩
  · rw [hk] at h
    cases h
    exact .inl ⟨rc', .inr rfl, hw⟩
  · rw [hk] at h
    obtain ⟨k, hconsumed⟩ := hw.consumed
    rcases readBulkArg_takes hconsumed.inBuffer hnonneg h with rfl | ⟨rc', rfl, htakes⟩
    · exact .inl ⟨rc₁, .inl rfl, hw⟩
    · exact .inr ⟨rc', rfl, hw.takes htakes⟩

/-- An iteration of a client whose vector has room returns. -/
theorem multibulkIteration_ok (hq : rc.InBuffer) (hbl : -1 ≤ rc.bulkLen) {a : Argv}
    (hargv : rc.argv = .live a) (hnonneg : 0 ≤ rc.argc) (hroom : rc.argc < a.slots) :
    ∃ f, multibulkIteration L rc = .ok f := by
  unfold multibulkIteration
  rcases knownBulkLen_cases (L := L) hq hbl with ⟨rc', hk | hk, hw⟩ | ⟨rc₁, hk, hw, -⟩
  · exact ⟨_, by rw [hk]⟩
  · exact ⟨_, by rw [hk]⟩
  · rw [hk]
    have hpush : ∀ o, ∃ rc₂, rc₁.pushArg o = .ok rc₂ := by
      intro o
      unfold RedisClient.pushArg
      rw [hw.argv, hargv, hw.argc]
      exact ⟨_, if_pos ⟨hnonneg, hroom⟩⟩
    dsimp only
    unfold readBulkArg
    split
    · exact ⟨_, rfl⟩
    · split
      all_goals
        obtain ⟨rc₂, hrc₂⟩ := hpush _
        rw [hrc₂]
        exact ⟨_, rfl⟩

/-- An iteration that goes on has one argument less to wait for, whatever the buffer is. -/
theorem multibulkIteration_next (h : multibulkIteration L rc = .ok (.next rc')) :
    rc'.multiBulkLen = rc.multiBulkLen - 1 := by
  have hkept : (knownBulkLen L rc).client.multiBulkLen = rc.multiBulkLen := by
    unfold knownBulkLen
    split
    · obtain hf | ⟨rc₁, hf, _, _, rfl⟩ | ⟨_, _, -, -, hf | hf⟩ := readBulkLen_ends L rc
      all_goals
        rw [hf]
        rfl
    · rfl
  unfold multibulkIteration at h
  cases hk : knownBulkLen L rc with
  | ret code rc₁ | brk rc₁ =>
      rw [hk] at h
      cases h
  | next rc₁ =>
      rw [hk] at h hkept
      obtain hf | ⟨-, o, rc₂, -, ⟨-, hf⟩ | hf⟩ := readBulkArg_ends h
      · cases hf
      · cases hf
        exact congrArg (· - 1) hkept
      · cases hf
        exact congrArg (· - 1) hkept

/-! ## The loop under its own condition -/

/-- The loop of the source ends after `multi_bulk_len` iterations at the latest, and it is
the loop that counts them down. -/
theorem multibulkWhile_eq {n fuel : Nat} (hn : rc.multiBulkLen = n) (hfuel : n < fuel) :
    multibulkWhile L fuel rc = some (multibulkLoop L n rc) := by
  induction n generalizing rc fuel with
  | zero =>
      obtain ⟨fuel, rfl⟩ := Nat.exists_eq_add_one.mpr hfuel
      rw [multibulkWhile, if_pos (by simpa using hn), multibulkLoop]
  | succ n ih =>
      obtain ⟨fuel, rfl⟩ := Nat.exists_eq_add_one.mpr (Nat.zero_lt_of_lt hfuel)
      rw [multibulkWhile, if_neg (by omega), multibulkLoop_succ]
      cases hit : multibulkIteration L rc with
      | error f => rfl
      | ok f =>
          cases f with
          | ret code rc₁ | brk rc₁ => rfl
          | next rc₁ =>
              have hmbl := multibulkIteration_next hit
              exact ih (by omega) (by omega)

/-! ## The states of a call -/

/-- **Invariants of the loop.**  What holds behind the count line and is kept by every
iteration that goes on holds wherever the condition of the loop is evaluated. -/
theorem InLoop.invariant {I : RedisClient → Prop} {rc₀ : RedisClient}
    (henter : ∀ {rc}, multibulkHead L rc₀ = .ok (.next rc) → 0 < rc.multiBulkLen → I rc)
    (hnext : ∀ {rc rc'}, I rc → rc.multiBulkLen ≠ 0 →
      multibulkIteration L rc = .ok (.next rc') → I rc')
    (h : InLoop L rc₀ rc) : I rc := by
  induction h with
  | enter hhead hpos => exact henter hhead hpos
  | next _ hne hit ih => exact hnext ih hne hit

theorem multibulkLoop_leaves {rc₀ : RedisClient} {n : Nat} (hin : InLoop L rc₀ rc)
    (hn : rc.multiBulkLen = n) {code : Int} (h : multibulkLoop L n rc = .ok (code, rc')) :
    LeavesLoop L rc₀ code rc' := by
  induction n generalizing rc with
  | zero =>
      have hzero : rc.multiBulkLen = 0 := by simpa using hn
      rw [multibulkLoop, multibulkCode, if_pos hzero] at h
      cases h
      exact .done hin hzero
  | succ n ih =>
      have hne : rc.multiBulkLen ≠ 0 := by omega
      rw [multibulkLoop_succ] at h
      obtain ⟨f, hit, h⟩ := Run.bind_eq_ok.mp h
      cases f with
      | ret code₁ rc₁ =>
          cases h
          exact .ret hin hne hit
      | brk rc₁ =>
          cases h
          exact .brk hin hne hit
      | next rc₁ =>
          have hmbl := multibulkIteration_next hit
          exact ih (.next hin hne hit) (by omega) h

/-- A call returns in front of the loop or by leaving it. -/
theorem processMultibulkBuffer_leaves {code : Int}
    (h : processMultibulkBuffer L rc = .ok (code, rc')) :
    multibulkHead L rc = .ok (.ret code rc') ∨ LeavesLoop L rc code rc' := by
  obtain ⟨f, hhead, h⟩ := Run.bind_eq_ok.mp h
  cases f with
  | ret code₁ rc₁ =>
      cases h
      exact .inl hhead
  | brk rc₁ =>
      -- nothing in front of the loop breaks out of it
      split at hhead
      · obtain ⟨-, hf | ⟨_, hf, -⟩ | ⟨_, -, hf | ⟨_, -, hf⟩⟩⟩ := readMultibulkLen_ends hhead <;> cases hf
      · cases hhead
  | next rc₁ =>
      dsimp only at h
      split at h
      · next hpos =>
          exact .inr (multibulkLoop_leaves (.enter hhead hpos) (Int.toNat_of_nonneg hpos.le).symm h)
      · cases h

end LatteRedis
