import LatteRedis.Db.KvStore
import LatteRedis.Foundation.Ring
import Mathlib.Algebra.Order.BigOperators.Group.List

/-!
# Instantaneous metrics (`experiment/metric.c`)

A metric is a table of named rings of samples.  A caller reports a counter and the time;
from two reports of one name comes a rate, and the rates are written to the ring of the
name in turn.  What is asked for is their mean.

`metric_entry_new` takes the number of slots as an `int` and has a fallback, everything
else takes it as the `size_t` that was given.  So the two agree from `1` to `2 ^ 31 - 1`,
and there the rings are what they should be (`Metric.run_window`); for every other number a slot
is used that is not there, or a division by zero is made (`Metric.runs_iff`).

The mean is computed by dividing a signed sum by that `size_t`, that is, without a sign
(`Metric.mean_iff`).
-/

namespace LatteRedis

open ByteString

/-! ## The functions -/

/-- `METRIC_SAMPLES`. -/
def metricSamples : Int := 16

/-- `metric_entry_t`, with as many `samples` as it was allocated with. -/
structure MetricEntry where
  lastSampleBase : Int := 0
  lastSampleValue : Int := 0
  idx : Int := 0
  samples : List Int
deriving DecidableEq, Repr

def metricEntryNew (samples : Int) : MetricEntry :=
  let samples := if samples ≤ 0 then metricSamples else samples
  { samples := List.replicate samples.toNat 0 }

/-- `metric_t`. -/
structure Metric where
  metrics : Dict MetricEntry
  samples : Nat

def metricNew (samples : Nat) : Metric := { metrics := ∅, samples := samples }

/-- The table with the entry of `name`, which is a pointer in the source. -/
def Metric.setEntry (metric : Metric) (name : Bytes) (entry : MetricEntry) : Metric :=
  { metric with metrics := metric.metrics.insert name entry }

/-- An `int` as a `size_t`. -/
def toSize (n : Int) : Nat := (n % 2 ^ 64).toNat

/-- The branch of `metric_track_instantaneous` for a name that has a sample. -/
def MetricEntry.write (entry : MetricEntry) (samples : Nat)
    (currentValue currentBase factor : Int) : Except Fault MetricEntry :=
  let base := wrap64 (currentBase - entry.lastSampleBase)
  let value := wrap64 (currentValue - entry.lastSampleValue)
  let avg := if base > 0 then (wrap64 (value * factor)).tdiv base else 0
  if entry.idx < 0 ∨ entry.samples.length ≤ entry.idx.toNat then .error .badPointer
  else if samples = 0 then .error .divisionByZero
  else .ok { entry with
    samples := entry.samples.set entry.idx.toNat avg
    idx := wrap32 (toSize (wrap32 (entry.idx + 1)) % samples : Nat) }

/-- The entry a report is for, with the rate that follows from it. -/
def Metric.entryFor (metric : Metric) (name : Bytes) (currentValue currentBase factor : Int) :
    Except Fault MetricEntry :=
  match metric.metrics.lookup name with
  | some metricEntry =>
      if metricEntry.lastSampleBase > 0 then
        metricEntry.write metric.samples currentValue currentBase factor
      else .ok metricEntry
  | none => .ok (metricEntryNew (wrap32 metric.samples))

def metricTrackInstantaneous (metric : Metric) (name : Bytes)
    (currentValue currentBase factor : Int) : Except Fault Metric := do
  let metricEntry ← metric.entryFor name currentValue currentBase factor
  return metric.setEntry name { metricEntry with
    lastSampleBase := currentBase
    lastSampleValue := currentValue }

/-- One turn of the loop of `metric_get_instantaneous`. -/
def MetricEntry.addSample (entry : MetricEntry) (sum : Int) (j : Nat) : Except Fault Int :=
  match entry.samples[j]? with
  | some sample => .ok (wrap64 (sum + sample))
  | none => .error .badPointer

def metricGetInstantaneous (metric : Metric) (name : Bytes) : Except Fault Int :=
  match metric.metrics.lookup name with
  -- the value is read from the entry before anybody looks whether there is one
  | none => .error .badPointer
  | some metricEntry => do
      let sum ← (List.range metric.samples).foldlM metricEntry.addSample 0
      if metric.samples = 0 then .error .divisionByZero
      else return wrap64 (toSize sum / metric.samples : Nat)

/-- A call that somebody makes. -/
inductive MetricCall where
  | track (name : Bytes) (value base factor : Int)
  | get (name : Bytes)
deriving DecidableEq, Repr

namespace Metric

def call (metric : Metric) : MetricCall → Except Fault Metric
  | .track name value base factor => metricTrackInstantaneous metric name value base factor
  | .get name => do
      let _ ← metricGetInstantaneous metric name
      return metric

/-- Calls one after another. -/
def run (metric : Metric) (calls : List MetricCall) : Except Fault Metric := calls.foldlM call metric

end Metric

/-! ## The slots of an entry -/

/-- The slots are all that are counted with, and the next one is one of them. -/
structure MetricEntry.Sound (entry : MetricEntry) (samples : Nat) : Prop where
  length_eq : entry.samples.length = samples
  nonneg : 0 ≤ entry.idx
  lt : entry.idx < samples

variable {entry : MetricEntry} {samples : Nat} {value base factor : Int}

/-- What is written to the next slot. -/
def MetricEntry.avg (entry : MetricEntry) (value base factor : Int) : Int :=
  if wrap64 (base - entry.lastSampleBase) > 0 then
    (wrap64 (wrap64 (value - entry.lastSampleValue) * factor)).tdiv
      (wrap64 (base - entry.lastSampleBase))
  else 0

theorem metricEntryNew_sound (hpos : 1 ≤ samples) (hint : samples < 2 ^ 31) :
    (metricEntryNew (wrap32 samples)).samples = List.replicate samples 0 ∧
      (metricEntryNew (wrap32 samples)).idx = 0 ∧
      (metricEntryNew (wrap32 samples)).Sound samples := by
  have hwrap : wrap32 samples = samples := wrap32_eq_self_iff.mpr (by omega)
  have hnew : (metricEntryNew (wrap32 samples)).samples = List.replicate samples 0 := by
    unfold metricEntryNew
    rw [hwrap, if_neg (by omega)]
    rfl
  refine ⟨hnew, rfl, ?_, le_rfl, Int.ofNat_lt.mpr hpos⟩
  rw [hnew, List.length_replicate]

theorem MetricEntry.Sound.write_eq (h : entry.Sound samples) (hint : samples < 2 ^ 31) :
    entry.write samples value base factor = .ok { entry with
      samples := entry.samples.set entry.idx.toNat (entry.avg value base factor)
      idx := ((entry.idx.toNat + 1) % samples : Nat) } := by
  obtain ⟨hlen, hnonneg, hlt⟩ := h
  have hnext : wrap32 (toSize (wrap32 (entry.idx + 1)) % samples : Nat) =
      ((entry.idx.toNat + 1) % samples : Nat) := by
    have hsucc : wrap32 (entry.idx + 1) = entry.idx + 1 := wrap32_eq_self_iff.mpr (by omega)
    have hsize : toSize (entry.idx + 1) = entry.idx.toNat + 1 := by
      unfold toSize
      omega
    have hmod := Nat.mod_lt (entry.idx.toNat + 1) (show 0 < samples by omega)
    rw [hsucc, hsize]
    exact wrap32_eq_self_iff.mpr (by omega)
  unfold MetricEntry.write
  rw [if_neg (by omega), if_neg (by omega), hnext]
  rfl

theorem MetricEntry.Sound.next (h : entry.Sound samples) (avg : Int) :
    MetricEntry.Sound { entry with
      samples := entry.samples.set entry.idx.toNat avg
      idx := ((entry.idx.toNat + 1) % samples : Nat) } samples := by
  have hpos : 0 < samples := by
    have hlt := Int.lt_of_le_of_lt h.nonneg h.lt
    omega
  refine ⟨(List.length_set ..).trans h.length_eq, Int.natCast_nonneg _, ?_⟩
  exact Int.ofNat_lt.mpr (Nat.mod_lt _ hpos)

/-- The loop adds up slots that are there. -/
theorem MetricEntry.addSamples_ok {n : Nat} (h : n ≤ entry.samples.length) :
    (List.range n).foldlM entry.addSample 0 = .ok (wrap64 (entry.samples.take n).sum) := by
  induction n with
  | zero => rfl
  | succ n ih =>
      rw [List.range_succ, Run.foldlM_concat, ih (by omega), Run.ok_bind]
      unfold MetricEntry.addSample
      rw [List.getElem?_eq_getElem h]
      dsimp only
      rw [wrap64_add_left, List.take_succ_eq_append_getElem h, List.sum_append_int]
      simp

/-- It does not get past the last one. -/
theorem MetricEntry.addSamples_error {n : Nat} (h : entry.samples.length < n) :
    (List.range n).foldlM entry.addSample 0 = .error .badPointer := by
  induction n with
  | zero => exact absurd h (Nat.not_lt_zero _)
  | succ n ih =>
      rw [List.range_succ, Run.foldlM_concat]
      rcases Nat.lt_or_eq_of_le (Nat.le_of_lt_succ h) with h | h
      · rw [ih h]
        rfl
      · rw [MetricEntry.addSamples_ok h.ge, Run.ok_bind]
        unfold MetricEntry.addSample
        rw [List.getElem?_eq_none h.le]

/-! ## Slots that are there -/

namespace Metric

/-- Every entry has as many slots as are counted with. -/
def Sound (metric : Metric) : Prop :=
  ∀ name entry, metric.metrics.lookup name = some entry → entry.Sound metric.samples

variable {metric metric' : Metric} {name : Bytes}

@[simp] theorem lookup_setEntry (metric : Metric) (name : Bytes) (entry : MetricEntry) :
    (metric.setEntry name entry).metrics.lookup name = some entry := AList.lookup_insert _

theorem lookup_setEntry_of_ne {name' : Bytes} (h : name' ≠ name) (metric : Metric)
    (entry : MetricEntry) :
    (metric.setEntry name entry).metrics.lookup name' = metric.metrics.lookup name' :=
  AList.lookup_insert_ne h

@[simp] theorem samples_setEntry (metric : Metric) (name : Bytes) (entry : MetricEntry) :
    (metric.setEntry name entry).samples = metric.samples := rfl

/-- A call for one name leaves the others alone. -/
theorem track_other (h : metricTrackInstantaneous metric name value base factor = .ok metric')
    {name' : Bytes} (hne : name' ≠ name) :
    metric'.metrics.lookup name' = metric.metrics.lookup name' := by
  obtain ⟨entry, -, h⟩ := Run.bind_eq_ok.mp h
  cases h
  exact lookup_setEntry_of_ne hne _ _

/-- The first report of a name. -/
theorem track_new (h : metric.metrics.lookup name = none) :
    metricTrackInstantaneous metric name value base factor =
      .ok (metric.setEntry name { metricEntryNew (wrap32 metric.samples) with
        lastSampleBase := base
        lastSampleValue := value }) := by
  unfold metricTrackInstantaneous Metric.entryFor
  rw [h]
  rfl

/-- A report of a name whose last report had a positive base. -/
theorem track_known (h : metric.metrics.lookup name = some entry)
    (hsound : entry.Sound metric.samples) (hint : metric.samples < 2 ^ 31)
    (hbase : 0 < entry.lastSampleBase) :
    metricTrackInstantaneous metric name value base factor = .ok (metric.setEntry name {
      samples := entry.samples.set entry.idx.toNat (entry.avg value base factor)
      idx := ((entry.idx.toNat + 1) % metric.samples : Nat)
      lastSampleBase := base
      lastSampleValue := value }) := by
  unfold metricTrackInstantaneous Metric.entryFor
  rw [h]
  dsimp only
  rw [if_pos hbase, hsound.write_eq hint]
  rfl

/-- A report of a name whose last report had none. -/
theorem track_baseless (h : metric.metrics.lookup name = some entry)
    (hbase : ¬ 0 < entry.lastSampleBase) :
    metricTrackInstantaneous metric name value base factor = .ok (metric.setEntry name
      { entry with lastSampleBase := base, lastSampleValue := value }) := by
  unfold metricTrackInstantaneous Metric.entryFor
  rw [h]
  dsimp only
  rw [if_neg hbase]
  rfl

/-- A report is taken in, and the slots stay as they should be. -/
theorem Sound.track (h : metric.Sound) (hpos : 1 ≤ metric.samples) (hint : metric.samples < 2 ^ 31)
    (name : Bytes) (value base factor : Int) :
    ∃ entry, metricTrackInstantaneous metric name value base factor =
      .ok (metric.setEntry name entry) ∧ entry.Sound metric.samples := by
  cases hfind : metric.metrics.lookup name with
  | none =>
      have hnew := (metricEntryNew_sound hpos hint).2.2
      have htrack : metricTrackInstantaneous metric name value base factor = _ := track_new hfind
      generalize metricEntryNew (wrap32 metric.samples) = entry at hnew htrack
      exact ⟨_, htrack, ⟨hnew.length_eq, hnew.nonneg, hnew.lt⟩⟩
  | some entry =>
      have hentry := h name entry hfind
      by_cases hbase : 0 < entry.lastSampleBase
      · have hnext := hentry.next (entry.avg value base factor)
        exact ⟨_, track_known hfind hentry hint hbase,
          ⟨hnext.length_eq, hnext.nonneg, hnext.lt⟩⟩
      · exact ⟨_, track_baseless hfind hbase, ⟨hentry.length_eq, hentry.nonneg, hentry.lt⟩⟩

theorem Sound.setEntry (h : metric.Sound) (hentry : entry.Sound metric.samples) :
    (metric.setEntry name entry).Sound := by
  intro name' entry' hfind
  by_cases hname : name' = name
  · rw [hname, lookup_setEntry] at hfind
    cases hfind
    exact hentry
  · rw [lookup_setEntry_of_ne hname] at hfind
    exact h name' entry' hfind

/-- The mean of an entry whose slots are all there. -/
theorem get_of_length (h : metric.metrics.lookup name = some entry)
    (hlen : entry.samples.length = metric.samples) (hpos : 1 ≤ metric.samples) :
    metricGetInstantaneous metric name =
      .ok (wrap64 (toSize entry.samples.sum / metric.samples : Nat)) := by
  have hsize : toSize (wrap64 entry.samples.sum) = toSize entry.samples.sum := by
    unfold toSize
    rw [wrap64_emod]
  unfold metricGetInstantaneous
  rw [h]
  dsimp only
  rw [MetricEntry.addSamples_ok hlen.ge, Run.ok_bind, if_neg (by omega), ← hlen,
    List.take_length, hsize]
  rfl

/-- Whoever asks for a name has reported it before. -/
def GetsTracked (calls : List MetricCall) : Prop :=
  ∀ before name after, calls = before ++ .get name :: after →
    ∃ value base factor, MetricCall.track name value base factor ∈ before

theorem GetsTracked.init {calls : List MetricCall} {c : MetricCall}
    (h : GetsTracked (calls ++ [c])) : GetsTracked calls := by
  intro before name after heq
  refine h before name (after ++ [c]) ?_
  rw [heq, List.append_assoc, List.cons_append]

theorem run_concat (metric : Metric) (calls : List MetricCall) (c : MetricCall) :
    run metric (calls ++ [c]) = run metric calls >>= fun metric ↦ metric.call c :=
  Run.foldlM_concat _ metric calls c

/-- The metric after these calls: the slots are there, and so are the names. -/
structure Served (metric : Metric) (samples : Nat) (calls : List MetricCall) : Prop where
  samples_eq : metric.samples = samples
  sound : metric.Sound
  tracked : ∀ {name value base factor}, MetricCall.track name value base factor ∈ calls →
    ∃ entry, metric.metrics.lookup name = some entry

theorem Served.track {calls : List MetricCall} (h : metric.Served samples calls)
    (hpos : 1 ≤ samples) (hint : samples < 2 ^ 31) (name : Bytes) (value base factor : Int) :
    ∃ metric', metric.call (.track name value base factor) = .ok metric' ∧
      metric'.Served samples (calls ++ [.track name value base factor]) := by
  obtain ⟨rfl, hsound, htracked⟩ := h
  obtain ⟨entry, htrack, hentry⟩ := hsound.track hpos hint name value base factor
  refine ⟨metric.setEntry name entry, htrack, rfl, hsound.setEntry hentry, ?_⟩
  intro name' value' base' factor' hmem
  by_cases hname : name' = name
  · rw [hname]
    exact ⟨entry, lookup_setEntry _ _ _⟩
  · rw [lookup_setEntry_of_ne hname]
    rcases List.mem_append.mp hmem with hmem | hmem
    · exact htracked hmem
    · cases List.mem_singleton.mp hmem
      exact absurd rfl hname

theorem Served.get {calls : List MetricCall} (h : metric.Served samples calls) (hpos : 1 ≤ samples)
    (hname : MetricCall.track name value base factor ∈ calls) :
    metric.call (.get name) = .ok metric ∧ metric.Served samples (calls ++ [.get name]) := by
  obtain ⟨rfl, hsound, htracked⟩ := h
  obtain ⟨entry, hfind⟩ := htracked hname
  have hget := get_of_length hfind (hsound name entry hfind).length_eq hpos
  refine ⟨by rw [call, hget]; rfl, rfl, hsound, ?_⟩
  intro name' value' base' factor' hmem
  rcases List.mem_append.mp hmem with hmem | hmem
  · exact htracked hmem
  · cases List.mem_singleton.mp hmem

/-- With a number of slots an `int` can hold, every run returns. -/
theorem run_ok (hpos : 1 ≤ samples) (hint : samples < 2 ^ 31) {calls : List MetricCall}
    (hcalls : GetsTracked calls) :
    ∃ metric, run (metricNew samples) calls = .ok metric ∧ metric.Served samples calls := by
  induction calls using List.reverseRecOn with
  | nil =>
      refine ⟨metricNew samples, rfl, rfl, fun name entry hfind ↦ ?_, fun hmem ↦ ?_⟩
      · cases hfind
      · cases hmem
  | append_singleton calls c ih =>
      obtain ⟨metric, hrun, hserved⟩ := ih hcalls.init
      have hstep : ∃ metric', metric.call c = .ok metric' ∧
          metric'.Served samples (calls ++ [c]) := by
        cases c with
        | track name value base factor => exact hserved.track hpos hint name value base factor
        | get name =>
            obtain ⟨value, base, factor, hmem⟩ := hcalls calls name [] rfl
            exact ⟨metric, hserved.get hpos hmem⟩
      obtain ⟨metric', hcall, hserved'⟩ := hstep
      refine ⟨metric', ?_, hserved'⟩
      rw [run_concat, hrun, Run.ok_bind, hcall]

/-- To report a name once and to ask for it: with another number of slots this is enough. -/
theorem run_once_error (h : ¬(1 ≤ samples ∧ samples < 2 ^ 31)) (name : Bytes) :
    ∃ f, run (metricNew samples) [.track name 0 0 0, .get name] = .error f := by
  have hnone : (metricNew samples).metrics.lookup name = none := rfl
  have htrack : metricTrackInstantaneous (metricNew samples) name 0 0 0 =
      .ok ((metricNew samples).setEntry name { metricEntryNew (wrap32 samples) with
        lastSampleBase := 0
        lastSampleValue := 0 }) := track_new hnone
  have hslots : samples = 0 ∨ (metricEntryNew (wrap32 samples)).samples.length < samples := by
    have hrange := wrap32_range samples
    unfold metricEntryNew metricSamples
    rw [List.length_replicate]
    split <;> omega
  generalize metricEntryNew (wrap32 samples) = entry at htrack hslots
  unfold run
  rw [List.foldlM_cons, call, htrack, Run.ok_bind, List.foldlM_cons, call]
  unfold metricGetInstantaneous
  rw [lookup_setEntry, samples_setEntry]
  dsimp only
  rcases hslots with hzero | hshort
  · refine ⟨.divisionByZero, ?_⟩
    rw [show (metricNew samples).samples = 0 from hzero]
    rfl
  · refine ⟨.badPointer, ?_⟩
    rw [MetricEntry.addSamples_error (by exact hshort)]
    rfl

/-- **Slots that are there.**  No run uses a slot that was not allocated or divides by zero,
exactly if the number of slots is positive and an `int`. -/
theorem runs_iff (samples : Nat) :
    (∀ calls, GetsTracked calls → ∃ metric, run (metricNew samples) calls = .ok metric) ↔
      1 ≤ samples ∧ samples < 2 ^ 31 := by
  constructor
  · intro h
    by_contra hsamples
    obtain ⟨f, herror⟩ := run_once_error hsamples (ascii "command")
    obtain ⟨metric, hok⟩ := h [.track (ascii "command") 0 0 0, .get (ascii "command")] (by
      rintro (_ | ⟨c, _ | ⟨c', before⟩⟩) name after heq
      · cases heq
      · cases heq
        exact ⟨0, 0, 0, List.mem_cons_self⟩
      · simp at heq)
    rw [herror] at hok
    cases hok
  · rintro ⟨hpos, hint⟩ calls hcalls
    obtain ⟨metric, hrun, -⟩ := run_ok hpos hint hcalls
    exact ⟨metric, hrun⟩

/-- The fallback gives an entry 16 slots, and the mean is still taken of none. -/
theorem not_runs_zero :
    GetsTracked [.track (ascii "command") 100 100 10, .get (ascii "command")] ∧
      run (metricNew 0) [.track (ascii "command") 100 100 10, .get (ascii "command")] =
        .error .divisionByZero := by
  refine ⟨?_, rfl⟩
  rintro (_ | ⟨c, _ | ⟨c', before⟩⟩) name after heq
  · cases heq
  · cases heq
    exact ⟨100, 100, 10, List.mem_cons_self⟩
  · simp at heq

/-! ## The mean -/

/-- What is returned is the mean of the slots, and `-1` for a name that was never reported. -/
structure ShowsMean (metric : Metric) (name : Bytes) : Prop where
  mean : ∀ entry, metric.metrics.lookup name = some entry →
    metricGetInstantaneous metric name = .ok (entry.samples.sum.tdiv metric.samples)
  missing : metric.metrics.lookup name = none → metricGetInstantaneous metric name = .ok (-1)

/-- A signed sum, divided without its sign. -/
theorem wrap64_toSize_div_eq_tdiv_iff {sum : Int} {n : Nat} (hlo : -2 ^ 63 ≤ sum)
    (hhi : sum < 2 ^ 63) (hpos : 1 ≤ n) (hint : n < 2 ^ 31) :
    wrap64 (toSize sum / n : Nat) = sum.tdiv n ↔ 0 ≤ sum ∨ n = 1 := by
  rcases Int.lt_or_le sum 0 with hsum | hsum
  · have hsize : toSize sum = (2 ^ 64 + sum).toNat := by
      unfold toSize
      omega
    have hneg : ¬ 0 ≤ sum := Int.not_le.mpr hsum
    rw [or_iff_right hneg]
    constructor
    · intro heq
      by_contra hne
      -- the quotient is positive, whatever is taken for the sign
      have hdiv : 1 ≤ toSize sum / n ∧ toSize sum / n < 2 ^ 63 := by
        rw [hsize, Nat.le_div_iff_mul_le hpos, Nat.div_lt_iff_lt_mul hpos]
        omega
      have hself : wrap64 (toSize sum / n : Nat) = (toSize sum / n : Nat) :=
        wrap64_eq_self_iff.mpr (by omega)
      have hnonpos := Int.tdiv_nonneg (Int.neg_nonneg.mpr hsum.le) (Int.natCast_nonneg n)
      rw [Int.neg_tdiv] at hnonpos
      omega
    · rintro rfl
      rw [Nat.div_one, hsize, Nat.cast_one, Int.tdiv_one]
      unfold wrap64
      omega
  · have hsize : ((toSize sum : Nat) : Int) = sum := by
      unfold toSize
      omega
    refine iff_of_true ?_ (.inl hsum)
    rw [Int.natCast_div, hsize, Int.tdiv_eq_ediv_of_nonneg hsum]
    refine wrap64_eq_self_iff.mpr ⟨?_, ?_⟩
    · have hdiv := Int.ediv_nonneg hsum (Int.natCast_nonneg n)
      omega
    · exact Int.lt_of_le_of_lt (Int.ediv_le_self _ hsum) hhi

/-- **The mean without a sign.**  It is right exactly for names that were reported and whose
rates do not add up to less than zero, or if there is one slot only. -/
theorem mean_iff (hpos : 1 ≤ metric.samples) (hint : metric.samples < 2 ^ 31)
    (hslots : ∀ entry, metric.metrics.lookup name = some entry →
      entry.samples.length = metric.samples)
    (hsum : ∀ entry, metric.metrics.lookup name = some entry →
      -2 ^ 63 ≤ entry.samples.sum ∧ entry.samples.sum < 2 ^ 63) :
    metric.ShowsMean name ↔ ∃ entry, metric.metrics.lookup name = some entry ∧
      (0 ≤ entry.samples.sum ∨ metric.samples = 1) := by
  cases hfind : metric.metrics.lookup name with
  | none =>
      have hget : metricGetInstantaneous metric name = .error .badPointer := by
        unfold metricGetInstantaneous
        rw [hfind]
      refine iff_of_false (fun h ↦ ?_) (fun ⟨entry, hentry, _⟩ ↦ by cases hentry)
      have hmissing := h.missing hfind
      rw [hget] at hmissing
      cases hmissing
  | some entry =>
      obtain ⟨hlo, hhi⟩ := hsum entry hfind
      have hget := get_of_length hfind (hslots entry hfind) hpos
      have hiff := wrap64_toSize_div_eq_tdiv_iff hlo hhi hpos hint
      constructor
      · intro h
        have hmean := h.mean entry hfind
        rw [hget, Except.ok.injEq] at hmean
        exact ⟨entry, rfl, hiff.mp hmean⟩
      · rintro ⟨entry', hentry', hmean⟩
        cases hentry'
        refine ⟨fun entry' hentry' ↦ ?_, fun hnone ↦ ?_⟩
        · rw [hfind] at hentry'
          cases hentry'
          rw [hget, hiff.mpr hmean]
        · rw [hfind] at hnone
          cases hnone

/-- Two reports of a counter that grows. -/
theorem mean_iff_growing :
    ∃ metric, run (metricNew 2) [.track (ascii "command") 0 1 1, .track (ascii "command") 10 2 1] =
      .ok metric ∧ metric.ShowsMean (ascii "command") := by
  refine ⟨_, rfl, (mean_iff (by decide) (by decide) ?_ ?_).mpr ⟨_, rfl, .inl (by decide)⟩⟩
  · rintro entry ⟨⟩
    rfl
  · rintro entry ⟨⟩
    decide

/-- A counter that falls by ten in two slots: the mean is not `-5`.  And a name that was never
reported is looked for behind a null pointer. -/
theorem mean_of_falling :
    ∃ metric, run (metricNew 2) [.track (ascii "command") 10 1 1, .track (ascii "command") 0 2 1] =
        .ok metric ∧
      metricGetInstantaneous metric (ascii "command") = .ok 9223372036854775803 ∧
      ¬ metric.ShowsMean (ascii "command") ∧
      metricGetInstantaneous metric (ascii "other") = .error .badPointer := by
  have hrun : ∃ metric entry, run (metricNew 2)
        [.track (ascii "command") 10 1 1, .track (ascii "command") 0 2 1] = .ok metric ∧
      metric.metrics.lookup (ascii "command") = some entry ∧ entry.samples = [-10, 0] ∧
      metric.samples = 2 ∧ metricGetInstantaneous metric (ascii "other") = .error .badPointer :=
    ⟨_, _, rfl, rfl, rfl, rfl, rfl⟩
  have hget : (run (metricNew 2)
      [.track (ascii "command") 10 1 1, .track (ascii "command") 0 2 1] >>=
        fun metric ↦ metricGetInstantaneous metric (ascii "command")) =
          .ok 9223372036854775803 := by decide
  obtain ⟨metric, entry, hrun, hfind, hslots, hsamples, hother⟩ := hrun
  rw [hrun, Run.ok_bind] at hget
  refine ⟨metric, hrun, hget, fun h ↦ ?_, hother⟩
  have hmean := h.mean entry hfind
  rw [hget, hslots, hsamples] at hmean
  exact absurd hmean (by decide)

/-! ## The latest rates -/

/-- What somebody reports. -/
structure Report where
  name : Bytes
  value : Int
  base : Int
  factor : Int
deriving DecidableEq, Repr

namespace Report

def call (r : Report) : MetricCall := .track r.name r.value r.base r.factor

/-- The rate between two reports. -/
def rate (last r : Report) : Int :=
  if last.base < r.base then ((r.value - last.value) * r.factor).tdiv (r.base - last.base) else 0

/-- The rates of a list of reports of one name, one for each interval. -/
def rates : List Report → List Int
  | last :: r :: rest => last.rate r :: rates (r :: rest)
  | _ => []

/-- The reports of one name. -/
def reportsOf (name : Bytes) (reports : List Report) : List Report :=
  reports.filter fun r ↦ r.name = name

theorem rates_concat (front : List Report) (last r : Report) :
    rates (front ++ [last, r]) = rates (front ++ [last]) ++ [last.rate r] := by
  induction front with
  | nil => rfl
  | cons a front ih =>
      cases front with
      | nil => rfl
      | cons b front => exact congrArg (a.rate b :: ·) ih

theorem length_rates (reports : List Report) : (rates reports).length = reports.length - 1 := by
  induction reports with
  | nil => rfl
  | cons a reports ih =>
      cases reports with
      | nil => rfl
      | cons b reports =>
          rw [rates, List.length_cons, ih]
          rfl

end Report

open Report

/-- The entry of a name, after these reports of it: the last of them is the one to compare
with, and the rates have been written to the slots in turn. -/
structure Follows (entry : MetricEntry) (samples : Nat) (reports : List Report) : Prop where
  last : ∃ front r, reports = front ++ [r] ∧ entry.lastSampleBase = r.base ∧
    entry.lastSampleValue = r.value
  length_eq : entry.samples.length = samples
  nonneg : 0 ≤ entry.idx
  shows : Ring.Shows 0 (rates reports) entry.samples entry.idx.toNat

theorem Follows.sound {reports : List Report} (h : Follows entry samples reports)
    (hpos : 1 ≤ samples) : entry.Sound samples := by
  have hne : entry.samples ≠ [] := List.length_pos_iff.mp (by rw [h.length_eq]; exact hpos)
  have hlt := h.shows.idx_lt hne
  have hlen := h.length_eq
  exact ⟨hlen, h.nonneg, by omega⟩

/-- In 64 bits the rate is the same. -/
theorem avg_eq_rate {last r : Report} (hbase : entry.lastSampleBase = last.base)
    (hvalue : entry.lastSampleValue = last.value) (hlast : 0 < last.base ∧ last.base < 2 ^ 63)
    (hr : 0 < r.base ∧ r.base < 2 ^ 63)
    (hfits : last.base < r.base → -2 ^ 63 ≤ (r.value - last.value) * r.factor ∧
      (r.value - last.value) * r.factor < 2 ^ 63) :
    entry.avg r.value r.base r.factor = last.rate r := by
  have hdiff : wrap64 (r.base - last.base) = r.base - last.base :=
    wrap64_eq_self_iff.mpr (by omega)
  unfold MetricEntry.avg rate
  rw [hbase, hvalue, hdiff, wrap64_mul_left]
  by_cases hlt : last.base < r.base
  · rw [if_pos hlt, if_pos (Int.sub_pos_of_lt hlt), wrap64_eq_self_iff.mpr (hfits hlt)]
  · rw [if_neg hlt, if_neg (by omega)]

/-- The next report of the name. -/
theorem Follows.next {front : List Report} {last r : Report}
    (h : Follows entry samples (front ++ [last])) (hpos : 1 ≤ samples)
    (havg : entry.avg r.value r.base r.factor = last.rate r) :
    Follows { samples := entry.samples.set entry.idx.toNat (entry.avg r.value r.base r.factor)
              idx := ((entry.idx.toNat + 1) % samples : Nat)
              lastSampleBase := r.base
              lastSampleValue := r.value } samples (front ++ [last, r]) := by
  have hne : entry.samples ≠ [] := List.length_pos_iff.mp (by rw [h.length_eq]; exact hpos)
  refine ⟨⟨front ++ [last], r, by simp, rfl, rfl⟩, (List.length_set ..).trans h.length_eq,
    Int.natCast_nonneg _, ?_⟩
  have hpush := h.shows.push hne (last.rate r)
  rw [h.length_eq, ← rates_concat, ← havg] at hpush
  exact hpush

theorem reportsOf_concat_self (reports : List Report) (r : Report) :
    reportsOf r.name (reports ++ [r]) = reportsOf r.name reports ++ [r] := by
  simp [reportsOf]

theorem reportsOf_concat_of_ne {name : Bytes} {r : Report} (h : name ≠ r.name)
    (reports : List Report) : reportsOf name (reports ++ [r]) = reportsOf name reports := by
  simp [reportsOf, Ne.symm h]

/-- The rates that are computed fit. -/
def RatesFit (reports : List Report) : Prop :=
  ∀ before last r after, reports = before ++ last :: r :: after → last.base < r.base →
    -2 ^ 63 ≤ (r.value - last.value) * r.factor ∧ (r.value - last.value) * r.factor < 2 ^ 63

/-- The entries of a metric, after these reports. -/
structure FollowsAll (metric : Metric) (samples : Nat) (reports : List Report) : Prop where
  samples_eq : metric.samples = samples
  unreported : ∀ name, reportsOf name reports = [] → metric.metrics.lookup name = none
  entries : ∀ name, reportsOf name reports ≠ [] →
    ∃ entry, metric.metrics.lookup name = some entry ∧ Follows entry samples (reportsOf name reports)

theorem FollowsAll.setEntry {reports : List Report} {r : Report}
    (h : metric.FollowsAll samples reports)
    (hentry : Follows entry samples (reportsOf r.name (reports ++ [r]))) :
    (metric.setEntry r.name entry).FollowsAll samples (reports ++ [r]) := by
  refine ⟨h.samples_eq, fun name hnone ↦ ?_, fun name hsome ↦ ?_⟩
  · by_cases hname : name = r.name
    · rw [hname, reportsOf_concat_self] at hnone
      exact absurd hnone (List.append_ne_nil_of_right_ne_nil _ (List.cons_ne_nil r []))
    · rw [reportsOf_concat_of_ne hname] at hnone
      rw [lookup_setEntry_of_ne hname]
      exact h.unreported name hnone
  · by_cases hname : name = r.name
    · rw [hname]
      exact ⟨entry, lookup_setEntry _ _ _, hentry⟩
    · rw [reportsOf_concat_of_ne hname] at hsome ⊢
      rw [lookup_setEntry_of_ne hname]
      exact h.entries name hsome

/-- One report, the first of its name or another one. -/
theorem FollowsAll.step {reports : List Report} {r : Report}
    (h : metric.FollowsAll samples reports) (hpos : 1 ≤ samples) (hint : samples < 2 ^ 31)
    (hbases : ∀ r' ∈ reports ++ [r], 0 < r'.base ∧ r'.base < 2 ^ 63)
    (hfits : RatesFit (reportsOf r.name (reports ++ [r]))) :
    ∃ metric', metric.call r.call = .ok metric' ∧ metric'.FollowsAll samples (reports ++ [r]) := by
  obtain rfl := h.samples_eq
  have hcall : metric.call r.call =
      metricTrackInstantaneous metric r.name r.value r.base r.factor := rfl
  rw [hcall]
  by_cases hfirst : reportsOf r.name reports = []
  · obtain ⟨hslots, hidx, hsound⟩ := metricEntryNew_sound hpos hint
    rw [track_new (h.unreported r.name hfirst)]
    generalize metricEntryNew (wrap32 metric.samples) = entry at hslots hidx hsound
    refine ⟨_, rfl, h.setEntry ?_⟩
    rw [reportsOf_concat_self, hfirst]
    refine ⟨⟨[], r, rfl, rfl, rfl⟩, hsound.length_eq, hsound.nonneg, ?_⟩
    dsimp only
    rw [hslots, hidx]
    exact Ring.Shows.start 0 metric.samples
  · obtain ⟨entry, hfind, hfollows⟩ := h.entries r.name hfirst
    obtain ⟨front, last, hreports, hbase, hvalue⟩ := hfollows.last
    have hmem : last ∈ reportsOf r.name reports := by
      rw [hreports]
      exact List.mem_append_right _ List.mem_cons_self
    have hlast := hbases last (List.mem_append_left _ (List.mem_of_mem_filter hmem))
    have hconcat : reportsOf r.name (reports ++ [r]) = front ++ [last, r] := by
      rw [reportsOf_concat_self, hreports, List.append_assoc]
      rfl
    have havg : entry.avg r.value r.base r.factor = last.rate r :=
      avg_eq_rate hbase hvalue hlast (hbases r (List.mem_append_right _ List.mem_cons_self))
        (hfits front last r [] hconcat)
    rw [track_known hfind (hfollows.sound hpos) hint (by rw [hbase]; exact hlast.1)]
    refine ⟨_, rfl, h.setEntry ?_⟩
    rw [hreports] at hfollows
    rw [hconcat]
    exact hfollows.next hpos havg

theorem RatesFit.of_append {reports more : List Report} (h : RatesFit (reports ++ more)) :
    RatesFit reports := by
  intro before last r after heq
  refine h before last r (after ++ more) ?_
  rw [heq]
  simp

/-- What a whole run of reports leaves. -/
theorem followsAll_run (hpos : 1 ≤ samples) (hint : samples < 2 ^ 31) {reports : List Report}
    (hbases : ∀ r ∈ reports, 0 < r.base ∧ r.base < 2 ^ 63)
    (hfits : ∀ name, RatesFit (reportsOf name reports)) :
    ∃ metric, run (metricNew samples) (reports.map Report.call) = .ok metric ∧
      metric.FollowsAll samples reports := by
  induction reports using List.reverseRecOn with
  | nil => exact ⟨metricNew samples, rfl, rfl, fun _ _ ↦ rfl, fun _ hne ↦ absurd rfl hne⟩
  | append_singleton reports r ih =>
      obtain ⟨metric, hrun, hfollows⟩ := ih (fun r' hr' ↦ hbases r' (List.mem_append_left _ hr'))
        fun name ↦ by
          have hfit := hfits name
          rw [reportsOf, List.filter_append] at hfit
          exact hfit.of_append
      obtain ⟨metric', hcall, hfollows'⟩ := hfollows.step hpos hint hbases (hfits r.name)
      refine ⟨metric', ?_, hfollows'⟩
      rw [List.map_append, List.map_singleton, run_concat, hrun, Run.ok_bind, hcall]

/-- The slots of a name as they should be after these reports of it. -/
structure Window (entry : MetricEntry) (samples : Nat) (reports : List Report) : Prop where
  idx_eq : entry.idx = ((reports.length - 1) % samples : Nat)
  length_eq : entry.samples.length = samples
  recent : ∀ i < min (reports.length - 1) samples,
    entry.samples[Ring.back samples entry.idx.toNat i]? = (rates reports).reverse[i]?
  others : ∀ j < samples,
    (∀ i < min (reports.length - 1) samples, Ring.back samples entry.idx.toNat i ≠ j) →
      entry.samples[j]? = some 0

theorem Follows.window {reports : List Report} (h : Follows entry samples reports) :
    Window entry samples reports := by
  have hlen := h.length_eq
  have hshows := h.shows
  have hnonneg := h.nonneg
  refine ⟨?_, hlen, ?_, ?_⟩
  · have hidx := hshows.idx_eq
    rw [length_rates, hlen] at hidx
    rw [← hidx, Int.toNat_of_nonneg hnonneg]
  · intro i hi
    rw [← length_rates, ← hlen] at hi
    rw [← hlen]
    exact hshows.recent hi
  · intro j hj hother
    rw [← length_rates, ← hlen] at hother
    rw [← hlen] at hj
    exact hshows.rest hj hother

/-- **The latest rates.**  Whatever names are reported in whatever order, the slots of each
name hold its latest rates, in turn. -/
theorem run_window (hpos : 1 ≤ samples) (hint : samples < 2 ^ 31) {reports : List Report}
    (hbases : ∀ r ∈ reports, 0 < r.base ∧ r.base < 2 ^ 63)
    (hfits : ∀ name, RatesFit (reportsOf name reports)) :
    ∃ metric, run (metricNew samples) (reports.map Report.call) = .ok metric ∧
      (∀ name, reportsOf name reports ≠ [] → ∃ entry, metric.metrics.lookup name = some entry ∧
        Window entry samples (reportsOf name reports)) ∧
      ∀ (r : Report) metric', metric.call r.call = .ok metric' →
        ∀ name, name ≠ r.name → metric'.metrics.lookup name = metric.metrics.lookup name := by
  obtain ⟨metric, hrun, hfollows⟩ := followsAll_run hpos hint hbases hfits
  refine ⟨metric, hrun, fun name hname ↦ ?_, fun r metric' hcall name hname ↦ track_other hcall hname⟩
  obtain ⟨entry, hfind, hentry⟩ := hfollows.entries name hname
  exact ⟨entry, hfind, hentry.window⟩

/-- Two names in turn, with one slot each. -/
theorem run_window_two_names :
    let reports := [⟨ascii "a", 0, 1, 1⟩, ⟨ascii "b", 5, 1, 1⟩, ⟨ascii "a", 10, 3, 2⟩]
    ∃ metric entry, run (metricNew 1) (reports.map Report.call) = .ok metric ∧
      metric.metrics.lookup (ascii "a") = some entry ∧
      Window entry 1 [⟨ascii "a", 0, 1, 1⟩, ⟨ascii "a", 10, 3, 2⟩] := by
  intro reports
  have hfits : ∀ name, RatesFit (reportsOf name reports) := by
    intro name before last r after heq _
    have hmem : ∀ r' ∈ [last, r], r' ∈ reports := by
      intro r' hr'
      refine List.mem_of_mem_filter (p := fun r ↦ r.name = name) ?_
      rw [← reportsOf, heq]
      refine List.mem_append_right _ (List.mem_append_left after hr')
    have hlast := hmem last List.mem_cons_self
    have hr := hmem r (List.mem_cons_of_mem _ List.mem_cons_self)
    simp only [reports, List.mem_cons, List.not_mem_nil, or_false] at hlast hr
    rcases hlast with rfl | rfl | rfl <;> rcases hr with rfl | rfl | rfl <;> decide
  obtain ⟨metric, hrun, hentries, -⟩ :=
    run_window (show 1 ≤ 1 from le_rfl) (by decide) (by decide) hfits
  obtain ⟨entry, hfind, hwindow⟩ := hentries (ascii "a") (by decide)
  exact ⟨metric, entry, hrun, hfind, hwindow⟩

/-! ## A counter that only grows -/

/-- The sum of the slots is the sum of the latest rates. -/
theorem Follows.sum_eq {reports : List Report} (h : Follows entry samples reports) :
    entry.samples.sum = ((rates reports).rtake samples).sum := by
  rw [h.shows.perm.sum_eq, h.length_eq, List.sum_append, List.sum_replicate, nsmul_zero, add_zero]

/-- No rate is negative. -/
theorem Report.rate_bounds {last r : Report} (hgrow : last.value ≤ r.value) (hfactor : 0 ≤ r.factor) :
    0 ≤ last.rate r ∧ last.rate r ≤ (r.value - last.value) * r.factor := by
  have hpos : 0 ≤ (r.value - last.value) * r.factor := mul_nonneg (sub_nonneg.mpr hgrow) hfactor
  unfold rate
  split
  · next hbase => exact ⟨Int.tdiv_nonneg hpos (sub_nonneg.mpr hbase.le), Int.tdiv_le_self _ hpos⟩
  · exact ⟨le_rfl, hpos⟩

/-- Its rates add up to no more than it has grown by. -/
theorem sum_rates_le {f : Int} (hf : 0 ≤ f) {r : Report} {reports : List Report}
    (hgrow : (r :: reports).Pairwise fun r r' ↦ r.value ≤ r'.value)
    (hfactor : ∀ r' ∈ reports, r'.factor = f) {bound : Int}
    (hbound : ∀ r' ∈ r :: reports, r'.value ≤ bound) :
    (∀ x ∈ rates (r :: reports), 0 ≤ x) ∧ (rates (r :: reports)).sum ≤ (bound - r.value) * f := by
  induction reports generalizing r with
  | nil =>
      refine ⟨fun x hx ↦ absurd hx List.not_mem_nil, ?_⟩
      exact mul_nonneg (sub_nonneg.mpr (hbound r List.mem_cons_self)) hf
  | cons r' reports ih =>
      obtain ⟨hfirst, hgrow'⟩ := List.pairwise_cons.mp hgrow
      obtain ⟨hnonneg, hsum⟩ := ih hgrow' (fun r'' h ↦ hfactor r'' (List.mem_cons_of_mem _ h))
        fun r'' h ↦ hbound r'' (List.mem_cons_of_mem _ h)
      have hf' := hfactor r' List.mem_cons_self
      obtain ⟨hlo, hhi⟩ := rate_bounds (hfirst r' List.mem_cons_self) (hf' ▸ hf)
      rw [hf'] at hhi
      rw [rates]
      constructor
      · intro x hx
        rcases List.mem_cons.mp hx with rfl | hx
        · exact hlo
        · exact hnonneg x hx
      · rw [List.sum_cons]
        calc
          _ ≤ (r'.value - r.value) * f + (bound - r'.value) * f := add_le_add hhi hsum
          _ = (bound - r.value) * f := by ring

/-- Reports of one counter that only grows, up to `bound`. -/
structure Report.Grow (name : Bytes) (f bound : Int) (reports : List Report) : Prop where
  reported : ∀ r ∈ reports, r.name = name ∧ r.factor = f ∧ 0 ≤ r.value ∧ r.value ≤ bound
  sorted : reports.Pairwise fun r r' ↦ r.value ≤ r'.value

theorem Report.Grow.ratesFit {f bound : Int} {reports : List Report} (h : Grow name f bound reports)
    (hf : 0 ≤ f) (hbound : bound * f < 2 ^ 63) : RatesFit reports := by
  intro before last r after heq _
  obtain ⟨-, -, hlo, -⟩ := h.reported last (by rw [heq]; simp)
  obtain ⟨-, hfactor, -, hhi⟩ := h.reported r (by rw [heq]; simp)
  have hsorted : last.value ≤ r.value := by
    have hsorted := h.sorted
    rw [heq] at hsorted
    exact (List.pairwise_cons.mp (List.pairwise_append.mp hsorted).2.1).1 r List.mem_cons_self
  have hnonneg : 0 ≤ (r.value - last.value) * f := mul_nonneg (sub_nonneg.mpr hsorted) hf
  have hle : (r.value - last.value) * f ≤ bound * f :=
    mul_le_mul_of_nonneg_right (by omega) hf
  rw [hfactor]
  omega

/-- **The mean of a counter that grows** is the mean of its latest rates. -/
theorem Report.Grow.mean {f bound : Int} {reports : List Report} (h : Grow name f bound reports)
    (hf : 0 ≤ f) (hbound : bound * f < 2 ^ 63) (hne : reports ≠ [])
    (hbases : ∀ r ∈ reports, 0 < r.base ∧ r.base < 2 ^ 63) (hpos : 1 ≤ samples)
    (hint : samples < 2 ^ 31) (hrun : run (metricNew samples) (reports.map Report.call) = .ok metric) :
    metricGetInstantaneous metric name = .ok (((rates reports).rtake samples).sum.tdiv samples) := by
  have hof : reportsOf name reports = reports :=
    List.filter_eq_self.mpr fun r hr ↦ decide_eq_true (h.reported r hr).1
  have hfits : ∀ name', RatesFit (reportsOf name' reports) := by
    intro name'
    by_cases hname : name' = name
    · rw [hname, hof]
      exact h.ratesFit hf hbound
    · have hnil : reportsOf name' reports = [] := by
        refine List.filter_eq_nil_iff.mpr fun r hr ↦ ?_
        rw [(h.reported r hr).1, decide_eq_true_eq]
        exact Ne.symm hname
      rw [hnil]
      intro before last r after heq
      simp at heq
  obtain ⟨metric', hrun', hfollows⟩ := followsAll_run hpos hint hbases hfits
  cases hrun.symm.trans hrun'
  obtain ⟨entry, hfind, hentry⟩ := hfollows.entries name (by rwa [hof])
  rw [hof] at hentry
  have hlen : entry.samples.length = metric.samples := hentry.length_eq.trans hfollows.samples_eq.symm
  -- the sum is neither negative nor too large
  obtain ⟨r, rest, rfl⟩ := List.exists_cons_of_ne_nil hne
  obtain ⟨hnonneg, hle⟩ := sum_rates_le hf h.sorted
    (fun r' hr' ↦ (h.reported r' (List.mem_cons_of_mem _ hr')).2.1)
    (fun r' hr' ↦ (h.reported r' hr').2.2.2)
  have hlatest : 0 ≤ ((rates (r :: rest)).rtake samples).sum ∧
      ((rates (r :: rest)).rtake samples).sum ≤ (rates (r :: rest)).sum := by
    have hsub : ((rates (r :: rest)).rtake samples).Sublist (rates (r :: rest)) := List.drop_sublist _ _
    exact ⟨List.sum_nonneg fun x hx ↦ hnonneg x (hsub.subset hx), hsub.sum_le_sum hnonneg⟩
  have hfirst : (bound - r.value) * f ≤ bound * f := by
    obtain ⟨-, -, hlo, -⟩ := h.reported r List.mem_cons_self
    exact mul_le_mul_of_nonneg_right (by omega) hf
  rw [get_of_length hfind hlen (hfollows.samples_eq ▸ hpos), hentry.sum_eq, hfollows.samples_eq,
    (wrap64_toSize_div_eq_tdiv_iff (by omega) (by omega) hpos hint).mpr (.inl hlatest.1)]

end Metric

end LatteRedis
