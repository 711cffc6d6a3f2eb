import LatteRedis.Keyspace.Deadlines

/-!
# Laws of `EXPIRE`

An `EXPIRE` with a number of seconds does one of three things (`Expiry`): the key is not
there, and nothing happens; it has a deadline already, and that is an error; or it gets one.
Two laws one would like to have follow from this as far as they hold.

* The latest `EXPIRE` wins: only if it is also the first (`latestExpire_wins_iff`).
* A deadline is that many seconds from now: only if the time is below `2 ^ 63` milliseconds,
  since the code computes it in 64 bits and looks at the sign of the operand alone
  (`deadlineExact_iff`).  Beyond that the deadline may lie in the past, and the key that was
  to be kept for ever is gone at once (`deadline_wrapped`).
-/

namespace LatteRedis

open ByteString

variable {L : LatteC} {E : Extension} {server : Server} {r : Request} {db db' : RedisDb}
  {rc' : RedisClient} {k : Bytes} {seconds : Int}

/-- The request is an `EXPIRE` that the command accepts. -/
structure Request.Expires (L : LatteC) (r : Request) (k : Bytes) (seconds : Int) : Prop where
  calls : r.Calls "expire"
  operands : ∃ arg, r.operands = [k, arg] ∧ L.string2ll arg = some seconds
  nonneg : 0 ≤ seconds

/-- The request returns, and what it leaves behind for the client and in the database is
as described. -/
def Request.Leaves (L : LatteC) (E : Extension) (server : Server) (r : Request)
    (P : RedisClient → RedisDb → Prop) : Prop :=
  ∃ server' rc' db', r.execute L E server = .ok (server', rc') ∧
    server'.dbs[r.client.dbid]? = some db' ∧ P rc' db'

/-- The deadline that many seconds after the request. -/
def Request.secondsLater (r : Request) (seconds : Int) : Int := r.clock.mstime + 1000 * seconds

/-- What an `EXPIRE` leaves behind. -/
inductive Request.Expiry (L : LatteC) (r : Request) (k : Bytes) (seconds : Int) (db : RedisDb)
    (rc' : RedisClient) : RedisDb → Prop
  | missing (hkey : db.value k = none)
      (hreply : rc'.reply = addReplyLongLongWithPrefix L r.client.reply 0 58) :
      Expiry L r k seconds db rc' db
  | refused (hkey : db.value k ≠ none) (hdead : (db.deadline k).isSome)
      (hreply : rc'.reply = addReplyError L r.client.reply "ERR could not set expire") :
      Expiry L r k seconds db rc' db
  | set {db' : RedisDb} (hkey : db.value k ≠ none) (hdead : db.deadline k = none)
      (hreply : rc'.reply = addReplyLongLongWithPrefix L r.client.reply 1 58)
      (hvalue : db'.value = db.value)
      (hset : db'.deadline =
        Function.update db.deadline k (some (wrap64 (r.secondsLater seconds)))) :
      Expiry L r k seconds db rc' db'

theorem Request.expireDeadline_arrives (r : Request) (server : Server) (seconds : Int) :
    expireDeadline (r.arrives server) seconds = wrap64 (r.secondsLater seconds) := by
  unfold expireDeadline secondsLater
  rw [wrap64_add_wrap64, Int.mul_comm]
  rfl

theorem Request.wrap64_secondsLater (hclock : -2 ^ 63 ≤ r.clock.mstime) (hnonneg : 0 ≤ seconds) :
    wrap64 (r.secondsLater seconds) = r.secondsLater seconds ↔
      r.clock.mstime + 1000 * seconds < 2 ^ 63 := by
  unfold secondsLater
  rw [wrap64_eq_self_iff]
  exact and_iff_right (by omega)

/-- **The three outcomes.** -/
theorem Request.Expires.leaves (h : r.Expires L k seconds) (hready : server.Ready)
    (hdb : server.dbs[r.client.dbid]? = some db) :
    ∃ rc' db', r.Expiry L k seconds db rc' db' ∧
      ∀ P, r.Leaves L E server P ↔ P rc' db' := by
  obtain ⟨arg, hops, harg⟩ := h.operands
  have hargs := Request.called_operands hops ⟨ascii "expire", .expire⟩
  have hdb₁ := r.db_called ⟨ascii "expire", .expire⟩ hdb
  have hseconds : expireSeconds L arg = some seconds := by
    rw [expireSeconds, harg, Option.filter_some_pos (by simpa using h.nonneg)]
  have hexec := expireCommand_eq (L := L) hargs hdb₁
  rw [hseconds, ← r.execute_expire (E := E) hready h.calls] at hexec
  -- what the request returns decides what it leaves
  have hleaves : ∀ {server' rc' db'}, r.execute L E server = .ok (server', rc') →
      server'.dbs[r.client.dbid]? = some db' → ∀ P, r.Leaves L E server P ↔ P rc' db' := by
    intro server' rc' db' hret hdb' P
    constructor
    · rintro ⟨server'', rc'', db'', hret'', hdb'', hP⟩
      rw [hret] at hret''
      cases hret''
      rw [hdb'] at hdb''
      cases hdb''
      exact hP
    · exact fun hP ↦ ⟨server', rc', db', hret, hdb', hP⟩
  by_cases hkey : db.value k = none
  · simp only [if_pos hkey] at hexec
    exact ⟨_, db, .missing hkey rfl, hleaves hexec hdb⟩
  · simp only [if_neg hkey, Request.expireDeadline_arrives] at hexec
    cases hdead : db.deadline k with
    | some w =>
        have hsome : (db.deadline k).isSome := by rw [hdead]; rfl
        rw [dbSetExpire_existing hsome] at hexec
        exact ⟨_, db, .refused hkey hsome rfl, hleaves hexec (Server.getElem?_setDb hdb₁ db)⟩
    | none =>
        obtain ⟨db', hset, hkeys, hdead'⟩ := dbSetExpire_new hdead (wrap64 (r.secondsLater seconds))
        rw [hset] at hexec
        refine ⟨_, db', .set hkey hdead rfl (by rw [RedisDb.value, hkeys]; rfl) hdead',
          hleaves hexec (Server.getElem?_setDb hdb₁ db')⟩

/-! ## The latest `EXPIRE` -/

/-- The `EXPIRE` has replied `:1`, and the deadline is that of the request. -/
structure Request.Wins (r : Request) (k : Bytes) (seconds : Int) (db : RedisDb)
    (rc' : RedisClient) (db' : RedisDb) : Prop where
  reply : rc'.reply.out = r.client.reply.out ++ ascii ":1\r\n"
  deadline : dbGetExpire db' k = r.secondsLater seconds
  others : ∀ k', k' ≠ k → db'.value k' = db.value k' ∧ db'.deadline k' = db.deadline k'

/-- **The first `EXPIRE` wins.**  Of a key that is there, it sets the deadline it names exactly
if the key has none. -/
theorem latestExpire_wins_iff (hL : L.AppendsProto) (hready : server.Ready)
    (h : r.Expires L k seconds) (hdb : server.dbs[r.client.dbid]? = some db)
    (hkey : (db.value k).isSome) (hclock : -2 ^ 63 ≤ r.clock.mstime)
    (hrange : r.clock.mstime + 1000 * seconds < 2 ^ 63) :
    r.Leaves L E server (r.Wins k seconds db) ↔ db.deadline k = none := by
  obtain ⟨rc', db', hexpiry, hleaves⟩ := h.leaves (E := E) hready hdb
  rw [hleaves]
  have hexact := (Request.wrap64_secondsLater hclock h.nonneg).mpr hrange
  cases hexpiry with
  | missing hmissing =>
      rw [hmissing] at hkey
      cases hkey
  | refused _ hdead hreply =>
      refine iff_of_false ?_ (Option.isSome_iff_ne_none.mp hdead)
      intro hwins
      have hout := hwins.reply
      rw [hreply, addReplyError, out_addReplyErrorLength hL] at hout
      cases List.append_cancel_left hout
  | set _ hdead hreply hvalue hset =>
      refine iff_of_true ⟨?_, ?_, ?_⟩ hdead
      · rw [hreply, out_addReplyLongLongWithPrefix hL]
        rfl
      · have hfind : db'.expires.find k = some (r.secondsLater seconds) := by
          rw [← hexact]
          exact (congrFun hset k).trans (Function.update_self _ _ _)
        rw [dbGetExpire, hfind]
        rfl
      · intro k' hk'
        rw [hvalue, hset, Function.update_of_ne hk']
        exact ⟨rfl, rfl⟩

/-- `EXPIRE` of a key without a deadline. -/
theorem latestExpire_wins_iff_first :
    let past := [Request.of 0 ⟨0, 0, 0⟩ (ascii "SET") [ascii "k", ascii "v"]]
    let r := Request.of 0 ⟨500, 0, 0⟩ (ascii "EXPIRE") [ascii "k", ascii "10"]
    ∃ server db,
      Request.serveAll .sample .absent (startRedisServer 16 10 ⟨0, 0, 0⟩) past = .ok server ∧
      server.dbs[0]? = some db ∧ r.Leaves .sample .absent server (r.Wins (ascii "k") 10 db) := by
  intro past r
  have hrun : ∃ server db,
      Request.serveAll .sample .absent (startRedisServer 16 10 ⟨0, 0, 0⟩) past = .ok server ∧
      server.dbs[0]? = some db ∧ (db.value (ascii "k")).isSome ∧ db.deadline (ascii "k") = none :=
    ⟨_, _, rfl, rfl, rfl, rfl⟩
  obtain ⟨server, db, hpast, hdb, hkey, hdead⟩ := hrun
  have hready := (running_of_serveAll (fun r _ ↦ .inr Extension.absent_passive) hpast).ready
  have hexpires : r.Expires .sample (ascii "k") 10 :=
    ⟨by decide, ⟨ascii "10", rfl, by decide⟩, by decide⟩
  exact ⟨server, db, hpast, hdb, (latestExpire_wins_iff LatteC.sample_appends hready hexpires hdb
    hkey (by decide) (by decide)).mpr hdead⟩

/-- The second `EXPIRE` of a key is refused, half a second after the first. -/
theorem secondExpire_refused :
    let past := [Request.of 0 ⟨0, 0, 0⟩ (ascii "SET") [ascii "k", ascii "v"],
      Request.of 0 ⟨0, 0, 0⟩ (ascii "EXPIRE") [ascii "k", ascii "1"]]
    let r := Request.of 0 ⟨500, 0, 0⟩ (ascii "EXPIRE") [ascii "k", ascii "10"]
    ∃ server db, Request.serveAll .sample .absent (startRedisServer 16 10 ⟨0, 0, 0⟩) past =
        .ok server ∧ server.dbs[0]? = some db ∧ (db.value (ascii "k")).isSome ∧
      ¬ db.Stale 500 (ascii "k") ∧ r.Expires .sample (ascii "k") 10 ∧
      ¬ r.Leaves .sample .absent server (r.Wins (ascii "k") 10 db) := by
  intro past r
  refine ⟨_, _, rfl, rfl, rfl, by decide, ⟨by decide, ⟨ascii "10", rfl, by decide⟩, by decide⟩, ?_⟩
  rintro ⟨server', rc', db', hexec, hdb', hwins⟩
  have hreply := hwins.reply
  cases hexec
  cases hreply

/-! ## Deadlines far away -/

/-- The request has left the database as it was, because there is nothing to expire or with
an error, or the deadline it has set is that many seconds later. -/
def Request.DeadlineExact (r : Request) (k : Bytes) (seconds : Int) (db : RedisDb)
    (rc' : RedisClient) (db' : RedisDb) : Prop :=
  (db' = db ∧ (db.value k = none ∨ ∃ line, rc'.reply.out = r.client.reply.out ++ 45 :: line)) ∨
    (db'.deadline k = some (r.secondsLater seconds) ∧
      (0 < seconds → ¬ db'.Stale r.clock.mstime k))

/-- **Deadlines wrap around.**  An `EXPIRE` that sets a deadline sets the right one exactly if
it is below `2 ^ 63`. -/
theorem deadlineExact_iff (hL : L.AppendsProto) (hready : server.Ready)
    (h : r.Expires L k seconds) (hdb : server.dbs[r.client.dbid]? = some db)
    (hclock : 0 ≤ r.clock.mstime) :
    r.Leaves L E server (r.DeadlineExact k seconds db) ↔
      db.value k = none ∨ (db.deadline k).isSome ∨ r.clock.mstime + 1000 * seconds < 2 ^ 63 := by
  obtain ⟨rc', db', hexpiry, hleaves⟩ := h.leaves (E := E) hready hdb
  rw [hleaves]
  have hwrap := Request.wrap64_secondsLater (r := r) (by omega) h.nonneg
  cases hexpiry with
  | missing hmissing => exact iff_of_true (.inl ⟨rfl, .inl hmissing⟩) (.inl hmissing)
  | refused _ hdead hreply =>
      refine iff_of_true (.inl ⟨rfl, .inr ?_⟩) (.inr (.inl hdead))
      rw [hreply, addReplyError, out_addReplyErrorLength hL]
      exact ⟨_, rfl⟩
  | set hkey hdead hreply hvalue hset =>
      have hset' : db'.deadline k = some (wrap64 (r.secondsLater seconds)) := by
        rw [hset, Function.update_self]
      constructor
      · rintro (⟨rfl, -⟩ | ⟨hexact, -⟩)
        · rw [hdead] at hset'
          cases hset'
        · rw [hset', Option.some.injEq] at hexact
          exact .inr (.inr (hwrap.mp hexact))
      · rintro (hnone | hsome | hrange)
        · exact absurd hnone hkey
        · rw [hdead] at hsome
          cases hsome
        · rw [hwrap.mpr hrange] at hset'
          refine .inr ⟨hset', fun hpos ↦ ?_⟩
          rintro ⟨w, hw, hle⟩
          rw [hset', Option.some.injEq] at hw
          unfold Request.secondsLater at hw
          omega

/-- Ten seconds. -/
theorem deadlineExact_iff_soon :
    let past := [Request.of 0 ⟨0, 0, 0⟩ (ascii "SET") [ascii "k", ascii "v"]]
    let r := Request.of 0 ⟨500, 0, 0⟩ (ascii "EXPIRE") [ascii "k", ascii "10"]
    ∃ server db,
      Request.serveAll .sample .absent (startRedisServer 16 10 ⟨0, 0, 0⟩) past = .ok server ∧
      server.dbs[0]? = some db ∧
      r.Leaves .sample .absent server (r.DeadlineExact (ascii "k") 10 db) := by
  intro past r
  have hrun : ∃ server db,
      Request.serveAll .sample .absent (startRedisServer 16 10 ⟨0, 0, 0⟩) past = .ok server ∧
      server.dbs[0]? = some db := ⟨_, _, rfl, rfl⟩
  obtain ⟨server, db, hpast, hdb⟩ := hrun
  have hready := (running_of_serveAll (fun r _ ↦ .inr Extension.absent_passive) hpast).ready
  have hexpires : r.Expires .sample (ascii "k") 10 :=
    ⟨by decide, ⟨ascii "10", rfl, by decide⟩, by decide⟩
  exact ⟨server, db, hpast, hdb, (deadlineExact_iff LatteC.sample_appends hready hexpires hdb
    (by decide)).mpr (.inr (.inr (by decide)))⟩

/-- `EXPIRE k 9223372036854775807`: the deadline is one second before the request. -/
theorem deadline_wrapped :
    let past := [Request.of 0 ⟨0, 0, 0⟩ (ascii "SET") [ascii "k", ascii "v"]]
    let r := Request.of 0 ⟨5000, 0, 0⟩ (ascii "EXPIRE") [ascii "k", ascii "9223372036854775807"]
    ∃ server db, Request.serveAll .sample .absent (startRedisServer 16 10 ⟨0, 0, 0⟩) past =
        .ok server ∧ server.dbs[0]? = some db ∧ r.Expires .sample (ascii "k") 9223372036854775807 ∧
      r.Leaves .sample .absent server (fun _ db' ↦ db'.deadline (ascii "k") = some 4000) ∧
      ¬ r.Leaves .sample .absent server (r.DeadlineExact (ascii "k") 9223372036854775807 db) := by
  intro past r
  refine ⟨_, _, rfl, rfl, ⟨by decide, ⟨ascii "9223372036854775807", rfl, by decide⟩, by decide⟩,
    ⟨_, _, _, rfl, rfl, rfl⟩, ?_⟩
  rintro ⟨server', rc', db', hexec, hdb', hexact⟩
  have hset : db'.deadline (ascii "k") = some 4000 := by
    cases hexec
    cases hdb'
    rfl
  rcases hexact with ⟨rfl, -⟩ | ⟨hdead, -⟩
  · cases hset
  · rw [hset] at hdead
    exact absurd hdead (by decide)

end LatteRedis
