import LatteRedis.Keyspace.Request
import LatteRedis.Metric

/-!
# Stamps (`db.c`, `evict.c`, `crons.c`)

Every value carries 24 bits that say when it was last used, for whoever has to decide which
key to evict.  Under most policies they are the LRU clock, the seconds of the wall clock
modulo 2²⁴; under an LFU policy they are a minute and a counter.

What the stamps are worth depends on two caches.  `lru_clock` takes the clock from
`server->lruclock`, and no job writes that field, so all keys look equally old
(`stampsCurrent_iff`).  `lfu_get_time_in_minutes` takes the time from `server->unixtime`,
which the job keeps in microseconds, so what it returns are units of sixty of them
(`stampsMinutes_iff`).  And `estimate_object_idle_time` is a second short once the clock has
wrapped (`estimateObjectIdleTime_iff`).
-/

namespace LatteRedis

open ByteString

/-! ## Idle times -/

/-- The LRU clock at a time in milliseconds, as `get_lru_clock` computes it. -/
def lruClockAt (ms : Int) : Nat := ((ms.tdiv lruClockResolution) % lruRange).toNat

/-- `LRU_CLOCK_MAX`. -/
def lruClockMax : Nat := lruRange - 1

/-- In milliseconds, an `unsigned long long`. -/
def estimateObjectIdleTime (server : Server) (o : LatteObject) : Except Fault Nat := do
  let lruclock ← lruClock server
  if lruclock ≥ o.lru then return (lruclock - o.lru) * 1000 % 2 ^ 64
  else return (lruclock + (lruClockMax - o.lru)) * 1000 % 2 ^ 64

theorem lruClockMax_eq : lruClockMax = 16777215 := by decide

theorem lruClockMax_succ : lruClockMax + 1 = 2 ^ 24 := by decide

theorem lruClockAt_natCast (t : Nat) : lruClockAt t = t / 1000 % 2 ^ 24 := by
  unfold lruClockAt lruClockResolution lruRange
  rw [Int.tdiv_eq_ediv_of_nonneg (Int.natCast_nonneg t)]
  omega

variable {server : Server}

theorem estimateObjectIdleTime_eq {o : LatteObject} {clock : Nat} (h : lruClock server = .ok clock) :
    estimateObjectIdleTime server o = .ok (if clock ≥ o.lru then (clock - o.lru) * 1000 % 2 ^ 64
      else (clock + (lruClockMax - o.lru)) * 1000 % 2 ^ 64) := by
  unfold estimateObjectIdleTime
  rw [h, Run.ok_bind]
  split <;> rfl

/-- **Idle times.**  Between two times less than a period apart the difference of the clocks
is right exactly if the clock has not wrapped in between. -/
theorem estimateObjectIdleTime_iff {o : LatteObject} {t₀ t₁ : Nat} (hle : t₀ ≤ t₁)
    (hnear : t₁ / 1000 - t₀ / 1000 < lruClockMax + 1) (hlru : o.lru = lruClockAt t₀)
    (hnow : lruClock server = .ok (lruClockAt t₁)) :
    estimateObjectIdleTime server o = .ok ((t₁ / 1000 - t₀ / 1000) * 1000) ↔
      t₀ / 1000 / (lruClockMax + 1) = t₁ / 1000 / (lruClockMax + 1) := by
  have hseconds : t₀ / 1000 ≤ t₁ / 1000 := Nat.div_le_div_right hle
  rw [estimateObjectIdleTime_eq hnow, hlru, lruClockAt_natCast, lruClockAt_natCast,
    Except.ok.injEq]
  generalize t₀ / 1000 = a at *
  generalize t₁ / 1000 = b at *
  rw [lruClockMax_succ] at hnear ⊢
  have ha : a % 2 ^ 24 < 2 ^ 24 := Nat.mod_lt _ (by decide)
  have hb : b % 2 ^ 24 < 2 ^ 24 := Nat.mod_lt _ (by decide)
  by_cases hepoch : a / 2 ^ 24 = b / 2 ^ 24
  · -- the clock has only moved forward
    have hforward : b % 2 ^ 24 - a % 2 ^ 24 = b - a ∧ b % 2 ^ 24 ≥ a % 2 ^ 24 := by omega
    rw [if_pos hforward.2, iff_true_right hepoch, hforward.1]
    exact Nat.mod_eq_of_lt (by omega)
  · -- it has wrapped once, and the branch for that counts from `LRU_CLOCK_MAX`
    have hback : b % 2 ^ 24 < a % 2 ^ 24 ∧ b % 2 ^ 24 + (16777215 - a % 2 ^ 24) + 1 = b - a := by
      omega
    rw [if_neg (Nat.not_le.mpr hback.1), iff_false_right hepoch, lruClockMax_eq,
      Nat.mod_eq_of_lt (by omega)]
    omega

/-- A server with a frequency of 10 and the given times. -/
def clockServer (clock : Clock) : Server := startRedisServer 1 10 clock

theorem estimateObjectIdleTime_iff_minute :
    estimateObjectIdleTime (clockServer ⟨61500, 61500, 61⟩) { latteObjectNew [] with lru := 1 } =
        .ok ((61500 / 1000 - 1999 / 1000) * 1000) ↔
      1999 / 1000 / (lruClockMax + 1) = 61500 / 1000 / (lruClockMax + 1) :=
  estimateObjectIdleTime_iff (show 1999 ≤ 61500 by decide) (by decide) (by decide) (by decide)

/-- The last second of a period and the first of the next one are no time apart. -/
theorem estimateObjectIdleTime_wrapped :
    lruClock (clockServer ⟨16777216000, 16777216, 0⟩) = .ok (lruClockAt 16777216000) ∧
      estimateObjectIdleTime (clockServer ⟨16777216000, 16777216, 0⟩)
          { latteObjectNew [] with lru := lruClockAt 16777215000 } = .ok 0 ∧
      estimateObjectIdleTime (clockServer ⟨16777216000, 16777216, 0⟩)
          { latteObjectNew [] with lru := lruClockAt 16777215000 } ≠
        .ok ((16777216000 / 1000 - 16777215000 / 1000) * 1000) := by
  decide

/-! ## Minutes -/

/-- `update_cache_time`, when `ustime()` is `ustime`. -/
def updateCacheTime (server : Server) (ustime : Int) : Server :=
  { server with clock := { server.clock with unixtime := ustime } }

/-- Behind an update of the cached time at `T` microseconds stamps are minutes: 16 bits of
them, and 8 bits with the initial count. -/
structure StampsMinutes (server : Server) (T : Nat) : Prop where
  minutes : lfuGetTimeInMinutes (updateCacheTime server T) = T / 60000000 % 65536
  stamp : server.maxmemoryPolicy &&& maxmemoryFlagLfu ≠ 0 → ∀ o : LatteObject, o.shared = false →
    ∃ o', initObjectLruOrLfu (updateCacheTime server T) o = .ok o' ∧
      o'.lru / 2 ^ 8 = T / 60000000 % 65536 ∧ o'.lru % 2 ^ 8 = lfuInitVal

/-- What is returned are units of 60 microseconds. -/
theorem lfuGetTimeInMinutes_updateCacheTime (server : Server) (T : Nat) :
    lfuGetTimeInMinutes (updateCacheTime server T) = T / 60 % 65536 := by
  show (((T : Int).tdiv 60) % 65536).toNat = T / 60 % 65536
  rw [Int.tdiv_eq_ediv_of_nonneg (Int.natCast_nonneg T)]
  omega

/-- The two parts of an LFU stamp do not overlap. -/
theorem lfuStamp (m : Nat) (hm : m < 65536) :
    (m <<< 8 ||| lfuInitVal) % lruRange / 2 ^ 8 = m ∧
      (m <<< 8 ||| lfuInitVal) % lruRange % 2 ^ 8 = lfuInitVal := by
  have hor : m <<< 8 ||| lfuInitVal = m * 2 ^ 8 + 5 := by
    rw [← Nat.shiftLeft_eq]
    exact (Nat.shiftLeft_add_eq_or_of_lt (by decide) m).symm
  rw [hor]
  unfold lruRange lfuInitVal
  omega

theorem initObjectLruOrLfu_lfu (hpolicy : server.maxmemoryPolicy &&& maxmemoryFlagLfu ≠ 0)
    {o : LatteObject} (ho : o.shared = false) :
    initObjectLruOrLfu server o =
      .ok { o with lru := (lfuGetTimeInMinutes server <<< 8 ||| lfuInitVal) % lruRange } := by
  unfold initObjectLruOrLfu
  rw [if_neg (by rw [ho]; exact Bool.false_ne_true), if_pos hpolicy]

/-- **LFU stamps.**  They are minutes only while the units of 60 microseconds in the current
minute make up for the 999999 missing ones of every minute before. -/
theorem stampsMinutes_iff (server : Server) (T : Nat) :
    StampsMinutes server T ↔ (T % 60000000 / 60 + 999999 * (T / 60000000)) % 65536 = 0 := by
  have hunits : T / 60 = T % 60000000 / 60 + 1000000 * (T / 60000000) := by omega
  constructor
  · intro h
    have hminutes := h.minutes
    rw [lfuGetTimeInMinutes_updateCacheTime, hunits] at hminutes
    omega
  · intro h
    have hminutes : lfuGetTimeInMinutes (updateCacheTime server T) = T / 60000000 % 65536 := by
      rw [lfuGetTimeInMinutes_updateCacheTime, hunits]
      omega
    refine ⟨hminutes, fun hpolicy o ho ↦ ?_⟩
    have hpolicy' : (updateCacheTime server T).maxmemoryPolicy &&& maxmemoryFlagLfu ≠ 0 := hpolicy
    refine ⟨_, initObjectLruOrLfu_lfu hpolicy' ho, ?_⟩
    rw [hminutes]
    exact lfuStamp _ (Nat.mod_lt _ (by decide))

/-- A minute after the epoch the stamp is 16960. -/
theorem not_stampsMinutes_first :
    ¬StampsMinutes { clockServer ⟨60000, 0, 0⟩ with maxmemoryPolicy := maxmemoryFlagLfu } 60000000 := by
  intro h
  exact absurd h.minutes (by decide)

/-! ## Jobs and commands -/

/-- `redis_server_t`, as far as commands and jobs use it. -/
structure RedisServer where
  server : Server
  metric : Metric
  metricStatNumcommands : Int

/-- `update_metric_cron`, when `ustime()` is `ustime`. -/
def updateMetricCron (rs : RedisServer) (ustime : Int) : Except Fault RedisServer := do
  let metric ← metricTrackInstantaneous rs.metric (ascii "command") rs.metricStatNumcommands
    ustime 1000000
  return { rs with metric := metric }

/-- A request as the parsers leave it: none of its strings is a shared object. -/
structure ParsedRequest extends Request where
  unshared : ∀ {i o}, client.argvAt i = .ok o → o.shared = false

/-- The request with the times of a server, except for the wall clock. -/
def ParsedRequest.meets (r : ParsedRequest) (server : Server) : Request :=
  { r.toRequest with clock := { server.clock with mstime := r.clock.mstime } }

/-- What the event loop runs. -/
inductive Event where
  | updateCacheTimeCron (ustime : Int)
  | updateMetricCron (ustime : Int)
  | /-- At the wall-clock time of the request. -/ command (r : ParsedRequest)
  | /-- `redis_client_command_end`, as far as the metric uses it. -/ commandEnd

namespace Event

variable (L : LatteC) (E : Extension)

def step (rs : RedisServer) : Event → Except Fault RedisServer
  | .updateCacheTimeCron ustime => .ok { rs with server := updateCacheTime rs.server ustime }
  | .updateMetricCron ustime => LatteRedis.updateMetricCron rs ustime
  | .command r => do
      let server ← (r.meets rs.server).serve L E rs.server
      return { rs with server := server }
  | .commandEnd => .ok { rs with metricStatNumcommands := wrap64 (rs.metricStatNumcommands + 1) }

def run (rs : RedisServer) (events : List Event) : Except Fault RedisServer :=
  events.foldlM (step L E) rs

/-- The time of a tick. -/
def tick : Event → Option Int
  | .updateCacheTimeCron ustime => some ustime
  | _ => none

/-- The times of the ticks among the events. -/
def ticks (events : List Event) : List Int := events.filterMap tick

end Event

/-- The server `start_redis_server` leaves, at the time `ustime`.  It is a global, so what
nobody writes is zero, the `lruclock` among it. -/
def RedisServer.start (dbNum : Nat) (hz : Int) (policy : BitVec 32) (ustime : Int) : RedisServer where
  server := updateCacheTime
    { startRedisServer dbNum hz ⟨0, 0, 0⟩ with maxmemoryPolicy := policy } ustime
  metric := metricNew 16
  metricStatNumcommands := 0

variable {L : LatteC} {E : Extension} {rs rs' : RedisServer} {event : Event} {r : ParsedRequest}
  {o : LatteObject}

/-- What commands do not write. -/
def Server.settings (server : Server) : Int × BitVec 32 × Clock :=
  (server.hz, server.maxmemoryPolicy, server.clock)

/-- Loaded code keeps its hands off the databases and the settings. -/
structure Extension.Modest (E : Extension) : Prop where
  passive : E.Passive
  keeps : E.Keeps Server.settings

/-- The clock has never been cached. -/
structure Unclocked (hz : Int) (policy : BitVec 32) (server : Server) : Prop where
  ready : server.Ready
  hz_eq : server.hz = hz
  policy_eq : server.maxmemoryPolicy = policy
  lruclock_eq : server.clock.lruclock = 0

theorem ParsedRequest.serve_unclocked (hE : E.Modest) {hz : Int} {policy : BitVec 32}
    {server server' : Server} (h : Unclocked hz policy server)
    (hserve : (r.meets server).serve L E server = .ok server') : Unclocked hz policy server' := by
  have hsettings := Request.serve_keeps (f := Server.settings) (fun _ _ ↦ rfl) hE.keeps hserve
  simp only [Server.settings, Prod.mk.injEq] at hsettings
  obtain ⟨hhz, hpolicy, hclock⟩ := hsettings
  refine ⟨(Request.serve_cases hE.passive h.ready hserve).2, hhz.trans h.hz_eq,
    hpolicy.trans h.policy_eq, ?_⟩
  rw [hclock]
  exact h.lruclock_eq

/-- No event caches it. -/
theorem Event.step_unclocked (hE : E.Modest) {hz : Int} {policy : BitVec 32}
    (h : Unclocked hz policy rs.server) (hstep : Event.step L E rs event = .ok rs') :
    Unclocked hz policy rs'.server := by
  cases event with
  | updateCacheTimeCron ustime =>
      cases hstep
      exact ⟨h.ready, h.hz_eq, h.policy_eq, h.lruclock_eq⟩
  | updateMetricCron ustime =>
      obtain ⟨metric, -, hstep⟩ := Run.bind_eq_ok.mp hstep
      cases hstep
      exact h
  | command r =>
      obtain ⟨server', hserve, hstep⟩ := Run.bind_eq_ok.mp hstep
      cases hstep
      exact r.serve_unclocked hE h hserve
  | commandEnd =>
      cases hstep
      exact h

theorem RedisServer.start_unclocked (dbNum : Nat) (hz : Int) (policy : BitVec 32) (ustime : Int) :
    Unclocked hz policy (RedisServer.start dbNum hz policy ustime).server :=
  ⟨startRedisServer_ready dbNum hz ⟨0, 0, 0⟩, rfl, rfl, rfl⟩

theorem Event.run_unclocked (hE : E.Modest) {dbNum : Nat} {hz ustime : Int} {policy : BitVec 32}
    {events : List Event}
    (h : Event.run L E (RedisServer.start dbNum hz policy ustime) events = .ok rs) :
    Unclocked hz policy rs.server :=
  Run.invariant (P := fun rs : RedisServer ↦ Unclocked hz policy rs.server) (Q := fun _ ↦ True)
    (fun _ hrs hstep ↦ Event.step_unclocked hE hrs hstep) (fun _ _ ↦ trivial)
    (RedisServer.start_unclocked dbNum hz policy ustime) h

/-! ## Stamps of new keys -/

/-- At every frequency there is, the clock is taken from the cache. -/
theorem lruClock_cached (hhz : 1 ≤ server.hz) : lruClock server = .ok server.clock.lruclock := by
  have hcached : Int.tdiv 1000 server.hz ≤ lruClockResolution := by
    rw [Int.tdiv_eq_ediv_of_nonneg (by decide)]
    exact Int.ediv_le_self server.hz (by decide)
  unfold lruClock
  rw [if_neg (by omega), if_pos hcached]

theorem initObjectLruOrLfu_lru (hhz : 1 ≤ server.hz)
    (hpolicy : server.maxmemoryPolicy &&& maxmemoryFlagLfu = 0) (ho : o.shared = false) :
    initObjectLruOrLfu server o = .ok { o with lru := server.clock.lruclock % lruRange } := by
  unfold initObjectLruOrLfu
  rw [if_neg (by rw [ho]; exact Bool.false_ne_true), if_neg (not_not.mpr hpolicy),
    lruClock_cached hhz]
  rfl

/-- Behind the events `before` the request enters a new key, with the value `o`. -/
def Inserts (L : LatteC) (E : Extension) (rs₀ : RedisServer) (before : List Event)
    (r : ParsedRequest) (o : LatteObject) : Prop :=
  ∃ rs rs' k v db db', Event.run L E rs₀ before = .ok rs ∧
    Event.step L E rs (.command r) = .ok rs' ∧ r.Calls "set" ∧ r.operands = [k, v] ∧
    rs.server.dbs[r.client.dbid]? = some db ∧ db.valueAt r.clock.mstime k = none ∧
    rs'.server.dbs[r.client.dbid]? = some db' ∧ db'.value (cString k) = some o

theorem ParsedRequest.serve_set (hready : server.Ready) (hr : r.Calls "set") :
    (r.meets server).serve L E server = (setCommand L ((r.meets server).arrives server)
      ((r.meets server).called ⟨ascii "set", .dispatcher .set⟩)).map Prod.fst := by
  have hcalls : (r.meets server).Calls "set" := hr
  unfold Request.serve
  rw [Request.execute_set hready hcalls]

/-- A `SET` of a new key enters a value with the stamp zero, if nothing is in its way. -/
theorem ParsedRequest.set_new {hz : Int} (hhz : 1 ≤ hz) {policy : BitVec 32}
    (hpolicy : policy &&& maxmemoryFlagLfu = 0) (h : Unclocked hz policy server)
    (hr : r.Calls "set") {k v : Bytes} (hops : r.operands = [k, v]) {db : RedisDb}
    (hdb : server.dbs[r.client.dbid]? = some db) (habsent : db.valueAt r.clock.mstime k = none)
    (hfree : ¬ db.Blocks k) :
    ∃ o db', (r.meets server).serve L E server = .ok
        (((r.meets server).arrives server).setDb r.client.dbid db') ∧
      db'.value (cString k) = some o ∧ o.lru = 0 := by
  have hargs := Request.called_operands (r := r.meets server) hops ⟨ascii "set", .dispatcher .set⟩
  obtain ⟨db₁, val, -, -, hargv, -, hset⟩ := setCommand_insert (L := L) hargs
    ((r.meets server).db_called _ hdb) habsent hfree
  have hinit : initObjectLruOrLfu ((r.meets server).arrives server) val =
      .ok { val with lru := 0 } := by
    have hhz' : 1 ≤ ((r.meets server).arrives server).hz := h.hz_eq.symm ▸ hhz
    have hpolicy' : ((r.meets server).arrives server).maxmemoryPolicy &&& maxmemoryFlagLfu = 0 :=
      h.policy_eq.symm ▸ hpolicy
    rw [initObjectLruOrLfu_lru hhz' hpolicy' (r.unshared hargv),
      show ((r.meets server).arrives server).clock.lruclock = 0 from h.lruclock_eq]
    rfl
  rcases hset with ⟨f, hf, -⟩ | ⟨o, db', ho, -, hvalue, -, hset⟩
  · rw [hinit] at hf
    cases hf
  · rw [hinit] at ho
    cases ho
    refine ⟨_, db', ?_, by rw [hvalue, Function.update_self], rfl⟩
    rw [r.serve_set h.ready hr, hset]
    rfl

theorem ParsedRequest.set_blocked (hready : server.Ready) (hr : r.Calls "set") {k v : Bytes}
    (hops : r.operands = [k, v]) {db : RedisDb} (hdb : server.dbs[r.client.dbid]? = some db)
    (habsent : db.valueAt r.clock.mstime k = none) (hblocks : db.Blocks k) :
    (r.meets server).serve L E server = .error (.assertion "overwrite is not supported") := by
  have hargs := Request.called_operands (r := r.meets server) hops ⟨ascii "set", .dispatcher .set⟩
  rw [r.serve_set hready hr,
    setCommand_blocked hargs ((r.meets server).db_called _ hdb) habsent hblocks]
  rfl

section Run

variable {hz : Int} (hhz : 1 ≤ hz) {policy : BitVec 32} (hpolicy : policy &&& maxmemoryFlagLfu = 0)
  {dbNum : Nat} {ustime : Int} {before : List Event}
include hhz hpolicy

/-- Every new key has the stamp zero. -/
theorem Inserts.lru_eq (hE : E.Modest)
    (h : Inserts L E (RedisServer.start dbNum hz policy ustime) before r o) : o.lru = 0 := by
  obtain ⟨rs, rs', k, v, db, db', hrun, hstep, hr, hops, hdb, habsent, hdb', hvalue⟩ := h
  have hclock := Event.run_unclocked hE hrun
  obtain ⟨server', hserve, hstep⟩ := Run.bind_eq_ok.mp hstep
  cases hstep
  by_cases hblocks : db.Blocks k
  · rw [r.set_blocked hclock.ready hr hops hdb habsent hblocks] at hserve
    cases hserve
  · obtain ⟨o', db'', hok, hvalue', hlru⟩ :=
      r.set_new (L := L) (E := E) hhz hpolicy hclock hr hops hdb habsent hblocks
    rw [hok] at hserve
    cases hserve
    have hsame : some db'' = some db' := (Server.getElem?_setDb hdb db'').symm.trans hdb'
    cases hsame
    rw [hvalue'] at hvalue
    cases hvalue
    exact hlru

/-- New keys are entered, if their C string is no other key. -/
theorem Inserts.exists (hE : E.Modest)
    (hrun : Event.run L E (RedisServer.start dbNum hz policy ustime) before = .ok rs)
    (hr : r.Calls "set") {k v : Bytes} (hops : r.operands = [k, v]) {db : RedisDb}
    (hdb : rs.server.dbs[r.client.dbid]? = some db) (habsent : db.valueAt r.clock.mstime k = none)
    (hfree : ¬ db.Blocks k) :
    ∃ o, Inserts L E (RedisServer.start dbNum hz policy ustime) before r o := by
  obtain ⟨o, db', hok, hvalue, -⟩ := r.set_new (L := L) (E := E) hhz hpolicy
    (Event.run_unclocked hE hrun) hr hops hdb habsent hfree
  have hdb' : (((r.meets rs.server).arrives rs.server).setDb r.client.dbid db').dbs[r.client.dbid]? =
      some db' := Server.getElem?_setDb hdb db'
  refine ⟨o, rs, { rs with server := _ }, k, v, db, db', hrun, ?_, hr, hops, hdb, habsent, hdb',
    hvalue⟩
  show (r.meets rs.server).serve L E rs.server >>= _ = _
  rw [hok]
  rfl

end Run

/-- The times a stamp of the request would be current for: its own, and that of the last
tick before it, in milliseconds. -/
def ParsedRequest.recentTimes (r : ParsedRequest) (before : List Event) : List Int :=
  r.clock.mstime :: ((Event.ticks before).getLast?.map fun ustime ↦ ustime.tdiv 1000).toList

/-- There are more than two ticks and more than a second between the requests, and less than a
period of the clock. -/
def ParsedRequest.LongBefore (r : ParsedRequest) (between : List Event) (r' : ParsedRequest) : Prop :=
  2 < (Event.ticks between).length ∧ 1000 < r'.clock.mstime - r.clock.mstime ∧
    r'.clock.mstime - r.clock.mstime < 1000 * (lruClockMax + 1)

/-- In the run over these events every new key has a current stamp, and later keys have
other stamps. -/
structure StampsCurrent (L : LatteC) (E : Extension) (rs₀ : RedisServer) (events : List Event) :
    Prop where
  fresh : ∀ {before r after o}, events = before ++ .command r :: after →
    Inserts L E rs₀ before r o → ∃ T ∈ r.recentTimes before, o.lru = lruClockAt T
  moves : ∀ {before r between r' after o o'},
    events = before ++ .command r :: (between ++ .command r' :: after) →
    Inserts L E rs₀ before r o → Inserts L E rs₀ (before ++ .command r :: between) r' o' →
    r.LongBefore between r' → o'.lru ≠ o.lru

/-- New keys come only while the clock reads zero, and not long after one another. -/
structure InsertsAtZero (L : LatteC) (E : Extension) (rs₀ : RedisServer) (events : List Event) :
    Prop where
  zero : ∀ {before r after o}, events = before ++ .command r :: after →
    Inserts L E rs₀ before r o → ∃ T ∈ r.recentTimes before, lruClockAt T = 0
  near : ∀ {before r between r' after o o'},
    events = before ++ .command r :: (between ++ .command r' :: after) →
    Inserts L E rs₀ before r o → Inserts L E rs₀ (before ++ .command r :: between) r' o' →
    ¬ r.LongBefore between r'

/-- **LRU stamps.**  They are current in a run exactly if that is the time the clock reads
zero. -/
theorem stampsCurrent_iff (hE : E.Modest) {hz : Int} (hhz : 1 ≤ hz) {policy : BitVec 32}
    (hpolicy : policy &&& maxmemoryFlagLfu = 0) (dbNum : Nat) (ustime : Int) (events : List Event) :
    StampsCurrent L E (RedisServer.start dbNum hz policy ustime) events ↔
      InsertsAtZero L E (RedisServer.start dbNum hz policy ustime) events := by
  constructor
  · intro h
    refine ⟨fun heq hins ↦ ?_, fun heq hins hins' hlong ↦ ?_⟩
    · obtain ⟨T, hT, hlru⟩ := h.fresh heq hins
      exact ⟨T, hT, hlru.symm.trans (hins.lru_eq hhz hpolicy hE)⟩
    · apply h.moves heq hins hins' hlong
      rw [hins.lru_eq hhz hpolicy hE, hins'.lru_eq hhz hpolicy hE]
  · intro h
    refine ⟨fun heq hins ↦ ?_, fun heq hins hins' hlong ↦ ?_⟩
    · obtain ⟨T, hT, hzero⟩ := h.zero heq hins
      exact ⟨T, hT, (hins.lru_eq hhz hpolicy hE).trans hzero.symm⟩
    · exact absurd hlong (h.near heq hins hins')

theorem Extension.absent_modest : Extension.absent.Modest :=
  ⟨Extension.absent_passive, Extension.absent_keeps _⟩

/-- `SET k v` at a time, of a client that has just connected. -/
def setAt (mstime : Int) : ParsedRequest where
  toRequest := .of 0 ⟨mstime, 0, 0⟩ (ascii "set") [ascii "k", ascii "v"]
  unshared := by
    intro i o h
    match i with
    | 0 | 1 | 2 =>
        cases h
        rfl
    | i + 3 => cases h

theorem stampsCurrent_iff_default :
    StampsCurrent LatteC.sample .absent (RedisServer.start 16 10 0 0)
        [.updateCacheTimeCron 500000, .command (setAt 501)] ↔
      InsertsAtZero LatteC.sample .absent (RedisServer.start 16 10 0 0)
        [.updateCacheTimeCron 500000, .command (setAt 501)] :=
  stampsCurrent_iff Extension.absent_modest (by decide) (by decide) 16 0 _

/-- A key that is set long after the epoch, just behind a tick. -/
theorem not_stampsCurrent_later :
    ¬StampsCurrent LatteC.sample .absent (RedisServer.start 16 10 0 0)
      [.updateCacheTimeCron 1700000000000000, .command (setAt 1700000000001)] := by
  intro h
  have hpolicy : (0 : BitVec 32) &&& maxmemoryFlagLfu = 0 := by decide
  obtain ⟨o, ho⟩ : ∃ o, Inserts LatteC.sample .absent (RedisServer.start 16 10 0 0)
      [.updateCacheTimeCron 1700000000000000] (setAt 1700000000001) o := by
    refine Inserts.exists (by decide) hpolicy Extension.absent_modest rfl rfl rfl rfl rfl ?_
    rintro ⟨hne, -⟩
    exact hne rfl
  have hsplit : [.updateCacheTimeCron 1700000000000000, .command (setAt 1700000000001)] =
      [.updateCacheTimeCron 1700000000000000] ++ Event.command (setAt 1700000000001) :: [] := rfl
  obtain ⟨T, hT, hlru⟩ := h.fresh hsplit ho
  rw [ho.lru_eq (by decide) hpolicy Extension.absent_modest] at hlru
  have hnow : ∀ T ∈ (setAt 1700000000001).recentTimes [.updateCacheTimeCron 1700000000000000],
      0 ≠ lruClockAt T := by decide
  exact hnow T hT hlru

end LatteRedis
