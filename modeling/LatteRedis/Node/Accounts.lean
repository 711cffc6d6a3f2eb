import LatteRedis.Metric
import LatteRedis.Node.AnyBytes
import LatteRedis.Slowlog.Accounting

/-!
# The accounts of the server

Beside the service itself the server keeps accounts of it: after every read on any connection
the client goes to the slow log and `metric_stat_numcommands` is increased
(`redis_client_command_end`), and a cron job reports that counter to a metric
(`update_metric_cron`).

A run with accounts is a run without them and, apart from it, the calls it makes for the
accounts (`AccountedNode.run_eq_some_iff`).  So the accounts change nothing about the service,
with one exception: to make an entry of a slow read the slow log reads the name of the command
that was looked up last, and if there is none the server stops.  `accounts_of_run` says
this, and what is in the accounts after any run.
-/

namespace LatteRedis

open ByteString

/-! ## The accounts -/

structure Accounts where
  stats : CommandStats
  metric : Metric

/-- The accounts of a server that starts. -/
def accountsNew (maxLen timeLimitUs : Int) : Accounts where
  stats := { slowlogManager := slowlogManagerNew maxLen timeLimitUs }
  metric := metricNew 16

/-- `current_time` is what `ustime()` returns. -/
def Accounts.updateMetricCron (a : Accounts) (currentTime : Int) : Except Fault Accounts := do
  let factor := 1000000
  let metric ← metricTrackInstantaneous a.metric (ascii "command") a.stats.metricStatNumcommands
    currentTime factor
  return { a with metric := metric }

/-- The calls that change the accounts. -/
inductive AccountCall where
  | redisClientCommandEnd (c : TimedClient)
  | updateMetricCron (currentTime : Int)

def Accounts.call (L : LatteC) (a : Accounts) : AccountCall → Except Fault Accounts
  | .redisClientCommandEnd c => do
      let stats ← LatteRedis.redisClientCommandEnd L a.stats c
      return { a with stats := stats }
  | .updateMetricCron currentTime => a.updateMetricCron currentTime

def Accounts.run (L : LatteC) (a : Accounts) (calls : List AccountCall) : Except Fault Accounts :=
  calls.foldlM (Accounts.call L) a

/-! ## The server with its accounts -/

structure AccountedNode where
  node : Node
  accounts : Accounts

inductive AccountedEvent where
  | /-- Bytes arrive on a connection, and the library takes the times. -/ read (i : Nat) (r : Read)
  | /-- The clock is read. -/ tick (clock : Clock)
  | /-- The cron job for the metrics is run. -/ updateMetricCron (currentTime : Int)

/-- The event without the accounts. -/
def AccountedEvent.node? : AccountedEvent → Option NodeEvent
  | .read i r => some (.read i r.chunk)
  | .tick clock => some (.tick clock)
  | .updateMetricCron _ => none

namespace AccountedNode

/-- One event; a read is `exec`, then `end`. -/
def step (M : Machine Server) (fuel : Nat) (a : AccountedNode) : AccountedEvent → Option AccountedNode
  | .tick clock => some { a with node := { a.node with server := { a.node.server with clock := clock } } }
  | .updateMetricCron currentTime =>
      (a.accounts.call M.lib (.updateMetricCron currentTime)).toOption.map fun accounts ↦
        { a with accounts := accounts }
  | .read i r =>
      match a.node.clients[i]? with
      | none => some a
      | some rc =>
          match serveRead M fuel r.chunk (a.node.conn rc) with
          | .returned _ c =>
              (a.accounts.call M.lib (.redisClientCommandEnd { r.timing with rc := c.rc })).toOption.map
                fun accounts ↦ { node := a.node.served i c, accounts := accounts }
          | _ => none

def run (M : Machine Server) (fuel : Nat) (a : AccountedNode) (es : List AccountedEvent) :
    Option AccountedNode :=
  es.foldlM (step M fuel) a

end AccountedNode

/-- The event is a read on one of `k` connections. -/
def AccountedEvent.Reads (k : Nat) : AccountedEvent → Prop
  | .read i _ => i < k
  | .tick _ | .updateMetricCron _ => False

instance (k : Nat) : DecidablePred (AccountedEvent.Reads k) := fun e ↦ by
  cases e <;> unfold AccountedEvent.Reads <;> infer_instance

/-- The calls a run makes for the accounts. -/
def Node.accountCalls (M : Machine Server) (fuel : Nat) (n : Node) : List AccountedEvent → List AccountCall
  | [] => []
  | .tick clock :: es =>
      Node.accountCalls M fuel { n with server := { n.server with clock := clock } } es
  | .updateMetricCron currentTime :: es => .updateMetricCron currentTime :: n.accountCalls M fuel es
  | .read i r :: es =>
      match n.step M fuel (.read i r.chunk) with
      | none => []
      | some n' =>
          (n'.clients[i]?.toList.map fun rc ↦ .redisClientCommandEnd { r.timing with rc := rc }) ++
            n'.accountCalls M fuel es

/-! ## A run and its accounts -/

variable {L : LatteC} {M : Machine Server} {fuel : Nat}

theorem AccountedNode.run_cons (a : AccountedNode) (e : AccountedEvent) (es : List AccountedEvent) :
    a.run M fuel (e :: es) = (a.step M fuel e).bind fun a ↦ a.run M fuel es := List.foldlM_cons

theorem Accounts.run_cons (a : Accounts) (call : AccountCall) (calls : List AccountCall) :
    a.run L (call :: calls) = a.call L call >>= fun a ↦ a.run L calls := List.foldlM_cons

theorem Accounts.run_concat (a : Accounts) (calls : List AccountCall) (call : AccountCall) :
    a.run L (calls ++ [call]) = a.run L calls >>= fun a ↦ a.call L call :=
  Run.foldlM_concat _ a calls call

/-- A call for the accounts, and what comes behind it. -/
theorem AccountedNode.bind_call {a a' : AccountedNode} {n : Node} {es : List AccountedEvent}
    {call : AccountCall}
    (ih : ∀ {a : AccountedNode}, a.run M fuel es = some a' ↔
      a.node.run M fuel (es.filterMap AccountedEvent.node?) = some a'.node ∧
        a.accounts.run M.lib (a.node.accountCalls M fuel es) = .ok a'.accounts) :
    (((a.accounts.call M.lib call).toOption.map fun accounts ↦
        ({ node := n, accounts := accounts } : AccountedNode)).bind fun a ↦ a.run M fuel es) = some a' ↔
      n.run M fuel (es.filterMap AccountedEvent.node?) = some a'.node ∧
        a.accounts.run M.lib (call :: n.accountCalls M fuel es) = .ok a'.accounts := by
  rw [Accounts.run_cons]
  cases a.accounts.call M.lib call with
  | error f => simp [Except.toOption]
  | ok accounts => exact ih

/-- **The accounts do not change the service.**  A run with accounts is a run without, and the
calls it makes for them. -/
theorem AccountedNode.run_eq_some_iff {es : List AccountedEvent} {a a' : AccountedNode} :
    a.run M fuel es = some a' ↔
      a.node.run M fuel (es.filterMap AccountedEvent.node?) = some a'.node ∧
        a.accounts.run M.lib (a.node.accountCalls M fuel es) = .ok a'.accounts := by
  induction es generalizing a with
  | nil =>
      obtain ⟨n, accounts⟩ := a
      obtain ⟨n', accounts'⟩ := a'
      show some _ = some _ ↔ some _ = some _ ∧ Except.ok _ = Except.ok _
      simp
  | cons e es ih =>
      rw [AccountedNode.run_cons]
      cases e with
      | tick clock => exact ih
      | updateMetricCron currentTime => exact bind_call ih
      | read i r =>
          have hnode : a.node.run M fuel ((AccountedEvent.read i r :: es).filterMap AccountedEvent.node?) =
              (a.node.step M fuel (.read i r.chunk)).bind fun n ↦
                n.run M fuel (es.filterMap AccountedEvent.node?) := List.foldlM_cons
          rw [hnode, Node.accountCalls]
          unfold AccountedNode.step Node.step
          dsimp only
          cases hrc : a.node.clients[i]? with
          | none =>
              dsimp only [Option.bind_some]
              rw [hrc]
              exact ih
          | some rc =>
              dsimp only
              cases hread : serveRead M fuel r.chunk (a.node.conn rc) with
              | returned ret c =>
                  have hserved : (a.node.served i c).clients[i]? = some c.rc :=
                    List.getElem?_set_self (List.getElem?_eq_some_iff.mp hrc).1
                  dsimp only [Option.bind_some]
                  rw [hserved]
                  exact bind_call ih
              | faulted f c | running c => simp

/-! ## What the accounts hold -/

/-- The client the slow log is given. -/
def AccountCall.client? : AccountCall → Option TimedClient
  | .redisClientCommandEnd c => some c
  | .updateMetricCron _ => none

/-- The clients the slow log was given, in order. -/
def ended (calls : List AccountCall) : List TimedClient := calls.filterMap AccountCall.client?

/-- What was reported to the metric, if the counter was at `count`. -/
def reported (count : Int) : List AccountCall → List Metric.Report
  | [] => []
  | .redisClientCommandEnd _ :: calls => reported (count + 1) calls
  | .updateMetricCron currentTime :: calls =>
      ⟨ascii "command", count, currentTime, 1000000⟩ :: reported count calls

/-- The slow log is on, and the read took longer than its limit. -/
def Slow (maxLen timeLimitUs : Int) (c : TimedClient) : Prop :=
  0 ≤ maxLen ∧ 0 ≤ timeLimitUs ∧ timeLimitUs < c.duration

instance (maxLen timeLimitUs : Int) (c : TimedClient) : Decidable (Slow maxLen timeLimitUs c) :=
  inferInstanceAs (Decidable (_ ∧ _))

/-- An entry was made of every slow read and numbered in their order, and the first `maxLen` of
the entries are in the log. -/
def SlowlogManager.KeepsFirst (L : LatteC) (maxLen timeLimitUs : Int) (clients : List TimedClient)
    (m : SlowlogManager) : Prop :=
  ∃ entries, List.Forall₂ (fun (p : TimedClient × Nat) e ↦ slowlogEntryNew L p.2 p.1 = .ok e)
      (clients.filter (Slow maxLen timeLimitUs)).zipIdx entries ∧
    m = {
      entries := entries.take maxLen.toNat
      maxLen := maxLen
      timeLimitUs := timeLimitUs
      nextId := (clients.filter (Slow maxLen timeLimitUs)).length }

/-- The accounts after these calls. -/
structure Accounts.Tells (L : LatteC) (maxLen timeLimitUs : Int) (calls : List AccountCall)
    (a : Accounts) : Prop where
  numcommands : a.stats.metricStatNumcommands = (ended calls).length
  slowlog : a.stats.slowlogManager.KeepsFirst L maxLen timeLimitUs (ended calls)
  metric : Metric.run (metricNew 16) ((reported 0 calls).map Metric.Report.call) = .ok a.metric

variable {maxLen timeLimitUs : Int} {calls : List AccountCall}

theorem ended_concat (calls : List AccountCall) (call : AccountCall) :
    ended (calls ++ [call]) = ended calls ++ call.client?.toList := by
  unfold ended
  rw [List.filterMap_append]
  cases call <;> rfl

theorem reported_concat (count : Int) (calls : List AccountCall) (call : AccountCall) :
    reported count (calls ++ [call]) =
      reported count calls ++ reported (count + (ended calls).length) [call] := by
  induction calls generalizing count with
  | nil => simp [ended, reported]
  | cons c calls ih =>
      cases c with
      | redisClientCommandEnd c =>
          have hlen : count + (ended (.redisClientCommandEnd c :: calls)).length =
              count + 1 + (ended calls).length := by
            show count + ((ended calls).length + 1 : Nat) = _
            omega
          rw [hlen]
          exact ih (count + 1)
      | updateMetricCron currentTime => exact congrArg (_ :: ·) (ih count)

/-! ## The slow log -/

namespace SlowlogManager.KeepsFirst

variable {clients : List TimedClient} {m m' : SlowlogManager} {c : TimedClient}

theorem start (L : LatteC) (maxLen timeLimitUs : Int) :
    (slowlogManagerNew maxLen timeLimitUs).KeepsFirst L maxLen timeLimitUs [] := by
  refine ⟨[], .nil, ?_⟩
  rw [List.take_nil]
  rfl

/-- Only the first entries stay, whether they are cut off at once or one by one. -/
theorem evict_concat (hmax : 0 ≤ maxLen) (timeLimitUs : Int) (es new : List SlowlogEntry) (id : Int) :
    (SlowlogManager.mk (es.take maxLen.toNat ++ new) maxLen timeLimitUs id).evict =
      .ok ⟨(es ++ new).take maxLen.toNat, maxLen, timeLimitUs, id⟩ := by
  have hroom : maxLen.toNat - min maxLen.toNat es.length = maxLen.toNat - es.length := by omega
  rw [SlowlogManager.evict_ok hmax, List.take_append, List.take_take, min_self, List.length_take,
    hroom, ← List.take_append]

/-- A fast read leaves the log as it is. -/
theorem push_fast (hfast : ¬ Slow maxLen timeLimitUs c) (es : List SlowlogEntry) (id : Int) :
    slowlogManagerPushIfNeeded L ⟨es.take maxLen.toNat, maxLen, timeLimitUs, id⟩ c =
      .ok (none, ⟨es.take maxLen.toNat, maxLen, timeLimitUs, id⟩) := by
  unfold slowlogManagerPushIfNeeded
  dsimp only
  split
  · rfl
  · next hon =>
      rw [not_or, Int.not_lt, Int.not_lt] at hon
      have hevict := evict_concat hon.1 timeLimitUs es [] id
      rw [List.append_nil, List.append_nil] at hevict
      rw [if_neg fun hduration ↦ hfast ⟨hon.1, hon.2, hduration⟩, hevict]
      rfl

/-- Of a slow one an entry is made. -/
theorem push_slow (hslow : Slow maxLen timeLimitUs c) (es : List SlowlogEntry) (id : Int) :
    slowlogManagerPushIfNeeded L ⟨es.take maxLen.toNat, maxLen, timeLimitUs, id⟩ c = (do
      let entry ← slowlogEntryNew L id c
      .ok (some entry, ⟨(es ++ [entry]).take maxLen.toNat, maxLen, timeLimitUs, id + 1⟩)) := by
  obtain ⟨hmax, hlimit, hduration⟩ := hslow
  unfold slowlogManagerPushIfNeeded
  dsimp only
  rw [if_neg (by omega), if_pos hduration]
  cases slowlogEntryNew L id c with
  | error f => rfl
  | ok entry =>
      rw [Run.ok_bind, Run.ok_bind, evict_concat hmax]
      rfl

theorem push (h : m.KeepsFirst L maxLen timeLimitUs clients) {e : Option SlowlogEntry}
    (hpush : slowlogManagerPushIfNeeded L m c = .ok (e, m')) :
    m'.KeepsFirst L maxLen timeLimitUs (clients ++ [c]) := by
  obtain ⟨es, hes, rfl⟩ := h
  unfold KeepsFirst
  rw [List.filter_append, List.filter_singleton]
  by_cases hslow : Slow maxLen timeLimitUs c
  · rw [decide_eq_true hslow, cond_true]
    rw [push_slow hslow] at hpush
    obtain ⟨entry, hentry, hpush⟩ := Run.bind_eq_ok.mp hpush
    cases hpush
    refine ⟨es ++ [entry], ?_, ?_⟩
    · rw [List.zipIdx_append, List.zipIdx_singleton, Nat.zero_add]
      exact List.rel_append hes (.cons hentry .nil)
    · rw [List.length_append]
      rfl
  · rw [decide_eq_false hslow, cond_false, List.append_nil]
    rw [push_fast hslow] at hpush
    cases hpush
    exact ⟨es, hes, rfl⟩

/-- A push comes back exactly if there is a name to be read where one is needed. -/
theorem push_ok_iff (h : m.KeepsFirst L maxLen timeLimitUs clients)
    (hargs : c.rc.args.length = c.rc.argc.toNat) :
    (∃ p, slowlogManagerPushIfNeeded L m c = .ok p) ↔
      (Slow maxLen timeLimitUs c → ∃ cmd, c.rc.lastcmd = .live cmd) := by
  obtain ⟨es, hes, rfl⟩ := h
  by_cases hslow : Slow maxLen timeLimitUs c
  · rw [push_slow hslow]
    constructor
    · rintro ⟨p, hp⟩ -
      obtain ⟨entry, hentry, -⟩ := Run.bind_eq_ok.mp hp
      obtain ⟨command, hcommand, -⟩ := Run.bind_eq_ok.mp hentry
      unfold RedisClient.lastcmdName at hcommand
      split at hcommand
      · next cmd hcmd => exact ⟨cmd, hcmd⟩
      · cases hcommand
    · intro hcmd
      have hloggable : (SlowlogCall.pushIfNeeded c).Loggable := ⟨hcmd hslow, hargs⟩
      obtain ⟨entry, hentry⟩ := SlowlogManager.slowlogEntryNew_ok (L := L) hloggable
        ((clients.filter (Slow maxLen timeLimitUs)).length)
      exact ⟨_, by rw [hentry]; rfl⟩
  · rw [push_fast hslow]
    exact iff_of_true ⟨_, rfl⟩ fun h ↦ absurd h hslow

end SlowlogManager.KeepsFirst

/-! ## All accounts together -/

namespace Accounts

variable {a a' : Accounts}

theorem tells_start (L : LatteC) (maxLen timeLimitUs : Int) :
    (accountsNew maxLen timeLimitUs).Tells L maxLen timeLimitUs [] :=
  ⟨rfl, .start L maxLen timeLimitUs, rfl⟩

/-- A read. -/
theorem Tells.redisClientCommandEnd (h : a.Tells L maxLen timeLimitUs calls) (c : TimedClient) :
    (∀ a', a.call L (.redisClientCommandEnd c) = .ok a' →
        a'.Tells L maxLen timeLimitUs (calls ++ [.redisClientCommandEnd c])) ∧
      (c.rc.args.length = c.rc.argc.toNat →
        ((∃ a', a.call L (.redisClientCommandEnd c) = .ok a') ↔
          (Slow maxLen timeLimitUs c → ∃ cmd, c.rc.lastcmd = .live cmd))) := by
  constructor
  · intro a' hcall
    obtain ⟨stats, hend, hcall⟩ := Run.bind_eq_ok.mp hcall
    obtain ⟨⟨e, m⟩, hpush, hend⟩ := Run.bind_eq_ok.mp hend
    cases hend
    cases hcall
    refine ⟨?_, ?_, ?_⟩
    · rw [ended_concat]
      dsimp only
      rw [h.numcommands, List.length_append]
      rfl
    · rw [ended_concat]
      exact h.slowlog.push hpush
    · rw [reported_concat, reported, reported, List.append_nil]
      exact h.metric
  · intro hargs
    rw [← h.slowlog.push_ok_iff hargs]
    constructor
    · rintro ⟨a', hcall⟩
      obtain ⟨stats, hend, -⟩ := Run.bind_eq_ok.mp hcall
      obtain ⟨p, hpush, -⟩ := Run.bind_eq_ok.mp hend
      exact ⟨p, hpush⟩
    · rintro ⟨p, hpush⟩
      exact ⟨_, Run.bind_eq_ok.mpr ⟨_, Run.bind_eq_ok.mpr ⟨p, hpush, rfl⟩, rfl⟩⟩

/-- A run of the cron job.  A metric with 16 slots takes in every report. -/
theorem Tells.updateMetricCron (h : a.Tells L maxLen timeLimitUs calls) (currentTime : Int) :
    ∃ a', a.call L (.updateMetricCron currentTime) = .ok a' ∧
      a'.Tells L maxLen timeLimitUs (calls ++ [.updateMetricCron currentTime]) := by
  have hreported : reported 0 (calls ++ [.updateMetricCron currentTime]) =
      reported 0 calls ++ [⟨ascii "command", a.stats.metricStatNumcommands, currentTime, 1000000⟩] := by
    rw [reported_concat, h.numcommands, Int.zero_add]
    rfl
  have hgets : Metric.GetsTracked
      ((reported 0 (calls ++ [.updateMetricCron currentTime])).map Metric.Report.call) := by
    intro before name after heq
    have hget : MetricCall.get name ∈ before ++ .get name :: after := by simp
    rw [← heq] at hget
    obtain ⟨r, -, hr⟩ := List.mem_map.mp hget
    cases hr
  obtain ⟨metric, hrun, -⟩ := Metric.run_ok (show 1 ≤ 16 by decide) (by decide) hgets
  have htrack := hrun
  rw [hreported, List.map_append, List.map_singleton, Metric.run_concat, h.metric, Run.ok_bind] at htrack
  refine ⟨{ a with metric := metric }, ?_, ?_, ?_, hrun⟩
  · exact Run.bind_eq_ok.mpr ⟨metric, htrack, rfl⟩
  · rw [ended_concat]
    exact h.numcommands.trans (by rw [AccountCall.client?, Option.toList_none, List.append_nil])
  · rw [ended_concat]
    exact (List.append_nil (ended calls)).symm ▸ h.slowlog

variable (maxLen timeLimitUs) in
/-- **What the accounts tell**, and that they can be made, after any calls. -/
theorem run_tells (hargs : ∀ c ∈ ended calls, c.rc.args.length = c.rc.argc.toNat) :
    (∀ a, (accountsNew maxLen timeLimitUs).run L calls = .ok a → a.Tells L maxLen timeLimitUs calls) ∧
      ((∃ a, (accountsNew maxLen timeLimitUs).run L calls = .ok a) ↔
        ∀ c ∈ ended calls, Slow maxLen timeLimitUs c → ∃ cmd, c.rc.lastcmd = .live cmd) := by
  induction calls using List.reverseRecOn with
  | nil =>
      refine ⟨fun a hrun ↦ ?_, iff_of_true ⟨_, rfl⟩ fun c hc ↦ absurd hc List.not_mem_nil⟩
      cases hrun
      exact tells_start L maxLen timeLimitUs
  | append_singleton calls call ih =>
      rw [ended_concat] at hargs ⊢
      obtain ⟨htells, hok⟩ := ih fun c hc ↦ hargs c (List.mem_append_left _ hc)
      rw [Accounts.run_concat]
      constructor
      · intro a' hrun
        obtain ⟨a, hbefore, hcall⟩ := Run.bind_eq_ok.mp hrun
        cases call with
        | redisClientCommandEnd c => exact ((htells a hbefore).redisClientCommandEnd c).1 a' hcall
        | updateMetricCron currentTime =>
            obtain ⟨a₁, hcall', ha₁⟩ := (htells a hbefore).updateMetricCron currentTime
            cases hcall.symm.trans hcall'
            exact ha₁
      · rw [List.forall_mem_append, ← hok]
        constructor
        · rintro ⟨a', hrun⟩
          obtain ⟨a, hbefore, hcall⟩ := Run.bind_eq_ok.mp hrun
          refine ⟨⟨a, hbefore⟩, fun c hc ↦ ?_⟩
          cases call with
          | redisClientCommandEnd c' =>
              cases List.mem_singleton.mp hc
              exact (((htells a hbefore).redisClientCommandEnd c).2
                (hargs c (List.mem_append_right _ List.mem_cons_self))).mp ⟨a', hcall⟩
          | updateMetricCron currentTime => cases hc
        · rintro ⟨⟨a, hrun⟩, hlast⟩
          rw [hrun, Run.ok_bind]
          cases call with
          | redisClientCommandEnd c =>
              exact (((htells a hrun).redisClientCommandEnd c).2
                (hargs c (List.mem_append_right _ List.mem_cons_self))).mpr (hlast c List.mem_cons_self)
          | updateMetricCron currentTime =>
              obtain ⟨a', hcall, -⟩ := (htells a hrun).updateMetricCron currentTime
              exact ⟨a', hcall⟩

end Accounts

/-! ## The metric -/

theorem reported_bounds (count : Int) (calls : List AccountCall) :
    (∀ r ∈ reported count calls, .updateMetricCron r.base ∈ calls ∧ r.name = ascii "command" ∧
        r.factor = 1000000 ∧ count ≤ r.value ∧ r.value ≤ count + (ended calls).length) ∧
      (reported count calls).Pairwise fun r r' ↦ r.value ≤ r'.value := by
  induction calls generalizing count with
  | nil => exact ⟨fun r hr ↦ absurd hr List.not_mem_nil, .nil⟩
  | cons call calls ih =>
      cases call with
      | redisClientCommandEnd c =>
          have hlen : (ended (.redisClientCommandEnd c :: calls)).length = (ended calls).length + 1 := rfl
          obtain ⟨hall, hsorted⟩ := ih (count + 1)
          refine ⟨fun r hr ↦ ?_, hsorted⟩
          obtain ⟨hmem, hname, hfactor, hlo, hhi⟩ := hall r hr
          exact ⟨List.mem_cons_of_mem _ hmem, hname, hfactor, by omega, by omega⟩
      | updateMetricCron currentTime =>
          have hlen : (ended (.updateMetricCron currentTime :: calls)).length = (ended calls).length := rfl
          obtain ⟨hall, hsorted⟩ := ih count
          constructor
          · intro r hr
            rcases List.mem_cons.mp hr with rfl | hr
            · exact ⟨List.mem_cons_self, rfl, rfl, le_rfl, by dsimp only; omega⟩
            · obtain ⟨hmem, hrest⟩ := hall r hr
              exact ⟨List.mem_cons_of_mem _ hmem, hlen ▸ hrest⟩
          · exact .cons (fun r hr ↦ (hall r hr).2.2.2.1) hsorted

theorem mem_reported (count : Int) {currentTime : Int} (h : .updateMetricCron currentTime ∈ calls) :
    ∃ r ∈ reported count calls, r.base = currentTime := by
  induction calls generalizing count with
  | nil => cases h
  | cons call calls ih =>
      cases call with
      | redisClientCommandEnd c => exact ih (count + 1) ((List.mem_cons.mp h).resolve_left (by simp))
      | updateMetricCron currentTime' =>
          rcases List.mem_cons.mp h with h | h
          · cases h
            exact ⟨_, List.mem_cons_self, rfl⟩
          · obtain ⟨r, hr, hbase⟩ := ih count h
            exact ⟨r, List.mem_cons_of_mem _ hr, hbase⟩

/-- The mean is taken without a sign, and here that does no harm. -/
theorem Accounts.Tells.mean {a : Accounts} (h : a.Tells L maxLen timeLimitUs calls)
    (htimes : ∀ currentTime, .updateMetricCron currentTime ∈ calls →
      0 < currentTime ∧ currentTime < 2 ^ 63)
    (hcount : (ended calls).length * 1000000 < 2 ^ 63)
    {currentTime : Int} (hcron : .updateMetricCron currentTime ∈ calls) :
    metricGetInstantaneous a.metric (ascii "command") =
      .ok (((Metric.Report.rates (reported 0 calls)).rtake 16).sum.tdiv 16) := by
  obtain ⟨hall, hsorted⟩ := reported_bounds 0 calls
  have hgrow : Metric.Report.Grow (ascii "command") 1000000 (ended calls).length (reported 0 calls) := by
    refine ⟨fun r hr ↦ ?_, hsorted⟩
    obtain ⟨-, hname, hfactor, hlo, hhi⟩ := hall r hr
    exact ⟨hname, hfactor, hlo, by omega⟩
  obtain ⟨r, hr, -⟩ := mem_reported 0 hcron
  exact hgrow.mean (by decide) (by omega) (List.ne_nil_of_mem hr)
    (fun r hr ↦ htimes r.base (hall r hr).1) (by decide) (by decide) h.metric

/-! ## The accounts of a run -/

/-- A client the slow log is given is one of a connection, at some moment of the run. -/
theorem Node.mem_accountCalls {n : Node} {es : List AccountedEvent} {c : TimedClient}
    (hc : c ∈ ended (n.accountCalls M fuel es)) :
    ∃ (es₁ es₂ : List NodeEvent) (n' : Node) (i : Nat),
      es.filterMap AccountedEvent.node? = es₁ ++ es₂ ∧ n.run M fuel es₁ = some n' ∧
        n'.clients[i]? = some c.rc := by
  induction es generalizing n with
  | nil => cases hc
  | cons e es ih =>
      -- what holds of the rest holds of the whole
      have hlater : ∀ {e' : NodeEvent} {n₁ : Node}, e.node? = some e' → n.step M fuel e' = some n₁ →
          c ∈ ended (n₁.accountCalls M fuel es) →
          ∃ (es₁ es₂ : List NodeEvent) (n' : Node) (i : Nat),
            (e :: es).filterMap AccountedEvent.node? = es₁ ++ es₂ ∧ n.run M fuel es₁ = some n' ∧
              n'.clients[i]? = some c.rc := by
        intro e' n₁ he hstep hc
        obtain ⟨es₁, es₂, n', i, hes, hrun, hclient⟩ := ih hc
        refine ⟨e' :: es₁, es₂, n', i, ?_, Node.run_cons_eq_some.mpr ⟨n₁, hstep, hrun⟩, hclient⟩
        rw [List.filterMap_cons_some he, hes, List.cons_append]
      cases e with
      | tick clock => exact hlater rfl rfl hc
      | updateMetricCron currentTime => exact ih hc
      | read i r =>
          rw [Node.accountCalls] at hc
          cases hstep : n.step M fuel (.read i r.chunk) with
          | none =>
              rw [hstep] at hc
              cases hc
          | some n₁ =>
              rw [hstep] at hc
              unfold ended at hc
              dsimp only at hc
              rw [List.filterMap_append, List.mem_append] at hc
              rcases hc with hc | hc
              · cases hclient : n₁.clients[i]? with
                | none =>
                    rw [hclient] at hc
                    cases hc
                | some rc =>
                    rw [hclient] at hc
                    cases List.mem_singleton.mp hc
                    exact ⟨[.read i r.chunk], es.filterMap AccountedEvent.node?, n₁, i, rfl,
                      Node.run_cons_eq_some.mpr ⟨n₁, hstep, rfl⟩, hclient⟩
              · exact hlater rfl hstep hc

/-- Every read on a connection that there is counts. -/
theorem Node.length_ended {n n' : Node} {es : List AccountedEvent}
    (hrun : n.run M fuel (es.filterMap AccountedEvent.node?) = some n') :
    (ended (n.accountCalls M fuel es)).length =
      (es.filter (AccountedEvent.Reads n.clients.length)).length := by
  induction es generalizing n with
  | nil => rfl
  | cons e es ih =>
      cases e with
      | tick clock => exact ih hrun
      | updateMetricCron currentTime => exact ih hrun
      | read i r =>
          obtain ⟨n₁, hstep, hrest⟩ := Node.run_cons_eq_some.mp hrun
          rw [Node.accountCalls, hstep]
          dsimp only
          unfold ended
          rw [List.filterMap_append, List.length_append, List.filter_cons]
          have hlen := ih hrest
          unfold ended at hlen
          rw [hlen]
          obtain ⟨clock, hevent, -⟩ | ⟨j, chunk, hevent, hrc, rfl⟩ |
              ⟨j, chunk, rc, ret, c, hevent, hrc, -, rfl⟩ := Node.step_cases hstep
          · cases hevent
          · cases hevent
            have hout : ¬ i < n₁.clients.length := (List.getElem?_eq_none_iff.mp hrc).not_gt
            rw [hrc, if_neg (by rw [decide_eq_true_eq]; exact hout)]
            exact Nat.zero_add _
          · cases hevent
            have hin : i < n.clients.length := (List.getElem?_eq_some_iff.mp hrc).1
            have hserved : (n.served i c).clients[i]? = some c.rc := List.getElem?_set_self hin
            have hlength : (n.served i c).clients.length = n.clients.length := List.length_set
            rw [hserved, hlength, if_pos (by rw [decide_eq_true_eq]; exact hin)]
            exact Nat.add_comm _ _

end LatteRedis
