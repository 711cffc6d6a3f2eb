import LatteRedis.Slowlog.Manager

/-!
# The configuration (`redis_config/config.c`) and the slow log it starts

`server_config_new` gives every numeric setting a rule: a name, the field it is kept in,
the least and the greatest value it may have, and a default.  A configuration is admitted
if every rule is respected.

`start_redis_server` makes the slow log out of two of these settings.  Both are numbers,
and they are handed to `slowlog_manager_new` in the wrong order: the log is as long as the
limit should be, and commands are logged from the length on.
-/

namespace LatteRedis

/-- `server_config_t`, as far as it is numbers. -/
structure ServerConfig where
  port : Int := 6379
  tcpBacklog : Int := 512
  maxClients : Int := 10000
  useAsyncIo : Int := 0
  eventLoopSize : Int := 1024
  hz : Int := 10
  dbNum : Int := 16
  slowlogLogSlowerThan : Int := 10000
  slowlogMaxLen : Int := 128
deriving DecidableEq, Repr

/-- `config_rule_new_numeric_rule`. -/
structure NumericRule where
  name : String
  field : ServerConfig → Int
  lower : Int
  upper : Int
  default : Int

def int64Max : Int := 2 ^ 63 - 1

/-- The numeric rules `server_config_new` adds. -/
def numericRules : List NumericRule :=
  [ ⟨"port", ServerConfig.port, 0, 65535, 6379⟩
  , ⟨"tcp-backlog", ServerConfig.tcpBacklog, 0, 65535, 512⟩
  , ⟨"max-clients", ServerConfig.maxClients, 0, 65535, 10000⟩
  , ⟨"use-async-io", ServerConfig.useAsyncIo, 0, 1, 0⟩
  , ⟨"event-loop-size", ServerConfig.eventLoopSize, 0, 65535, 1024⟩
  , ⟨"hz", ServerConfig.hz, 0, 65535, 10⟩
  , ⟨"db-num", ServerConfig.dbNum, 0, 65535, 16⟩
  , ⟨"slowlog-log-slower-than", ServerConfig.slowlogLogSlowerThan, 0, int64Max, 10000⟩
  , ⟨"slowlog-max-len", ServerConfig.slowlogMaxLen, 0, int64Max, 128⟩ ]

namespace ServerConfig

/-- Every setting is within the bounds of its rule. -/
def Admitted (config : ServerConfig) : Prop :=
  ∀ rule ∈ numericRules, rule.lower ≤ rule.field config ∧ rule.field config ≤ rule.upper

instance (config : ServerConfig) : Decidable config.Admitted :=
  inferInstanceAs (Decidable (∀ _ ∈ _, _))

/-- The fields start out as the defaults of their rules, which the rules admit. -/
theorem default_admitted :
    (∀ rule ∈ numericRules, rule.field {} = rule.default) ∧ Admitted {} := by
  decide

/-- The slow log `start_redis_server` makes. -/
def slowlogManager (config : ServerConfig) : SlowlogManager :=
  slowlogManagerNew config.slowlogLogSlowerThan config.slowlogMaxLen

theorem Admitted.slowlog_nonneg {config : ServerConfig} (h : config.Admitted) :
    0 ≤ config.slowlogLogSlowerThan ∧ 0 ≤ config.slowlogMaxLen :=
  ⟨(h ⟨"slowlog-log-slower-than", slowlogLogSlowerThan, 0, int64Max, 10000⟩
      (by simp [numericRules])).1,
    (h ⟨"slowlog-max-len", slowlogMaxLen, 0, int64Max, 128⟩ (by simp [numericRules])).1⟩

/-- The slow log does what the two settings say, whatever commands are run: a command gets
an entry if it took longer than `slowlog-log-slower-than`, and there are never more than
`slowlog-max-len` entries. -/
def SlowlogObeys (L : LatteC) (config : ServerConfig) : Prop :=
  ∀ (clients : List TimedClient) {s c e s'},
    config.slowlogManager.Occurs L (clients.map .pushIfNeeded) s (.pushIfNeeded c) e s' →
      (e.isSome ↔ c.duration > config.slowlogLogSlowerThan) ∧
        (s'.entries.length : Int) ≤ config.slowlogMaxLen

/-- The log that is started has the two settings in each other's place. -/
theorem slowlogManager_occurs {L : LatteC} {config : ServerConfig} (h : config.Admitted)
    {clients : List TimedClient} {s s' : SlowlogManager} {c : TimedClient}
    {e : Option SlowlogEntry}
    (hoccurs : config.slowlogManager.Occurs L (clients.map .pushIfNeeded) s (.pushIfNeeded c) e s') :
    (e.isSome ↔ c.duration > config.slowlogMaxLen) ∧
      (s'.entries.length : Int) ≤ config.slowlogLogSlowerThan := by
  obtain ⟨pre, post, es, hsplit, hrun, hcall⟩ := hoccurs
  obtain ⟨clients₁, clients₂, -, rfl, -⟩ := List.map_eq_append_iff.mp hsplit
  have hnew := SlowlogManager.new_ordered h.slowlog_nonneg.1 h.slowlog_nonneg.2
  have hs := (SlowlogManager.run_ordered hnew hrun).1
  obtain ⟨hmax, hlimit⟩ := SlowlogManager.run_push_settings hnew hrun
  obtain ⟨hcreates, -, heq⟩ := SlowlogManager.call_cases hs hcall
  constructor
  · rw [hcreates, hlimit]
    constructor
    · rintro ⟨client, hclient, hslow⟩
      cases hclient
      exact hslow
    · exact fun hslow ↦ ⟨c, rfl, hslow⟩
  · have hlen := (SlowlogManager.call_ordered hs hcall).1.length_le
    rw [congrArg SlowlogManager.maxLen heq] at hlen
    exact hlen.trans hmax.le

/-- A `PING` that took this long. -/
def timedPing (duration : Int) : TimedClient :=
  { SlowlogManager.slowPing with endTime := duration }

end ServerConfig

end LatteRedis
