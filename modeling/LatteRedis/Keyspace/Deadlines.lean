import LatteRedis.Keyspace.Request

/-!
# Deadlines and values

The values and the deadlines of a database are separate stores that different commands
write to.  Two questions about them have opposite answers.

* `no_orphan_deadlines`: in every run a key that has a deadline is there.
* `set_value_lasts`: a value that has been set stays until the next `SET` or `EXPIRE` of
  its key exactly if the `SET` found no deadline in the future.  A `SET` that replaces the
  value of a key keeps the key's deadline, and at that deadline the new value goes
  (`set_value_lost`).
-/

namespace LatteRedis

open ByteString

variable {L : LatteC} {E : Extension}

/-! ## No orphan deadlines -/

/-- Every key with a deadline is there. -/
def RedisDb.Guarded (db : RedisDb) : Prop := ∀ k, (db.deadline k).isSome → (db.value k).isSome

/-- Every value is a string, as the parsers make them. -/
def RedisDb.Strings (db : RedisDb) : Prop := ∀ k o, db.value k = some o → o.IsText

theorem RedisDb.Reaps.guarded {db db₁ : RedisDb} {t : Int} {k : Bytes} (h : db.Reaps t k db₁)
    (hdb : db.Guarded) : db₁.Guarded := by
  intro k' hk'
  by_cases hstale : db.Stale t k
  · rw [h.deadline, if_pos hstale] at hk'
    rw [h.value, if_pos hstale]
    by_cases heq : k' = k
    · rw [heq, Function.update_self] at hk'
      cases hk'
    · rw [Function.update_of_ne heq] at hk' ⊢
      exact hdb k' hk'
  · rw [(h.of_fresh hstale).2] at hk'
    rw [(h.of_fresh hstale).1]
    exact hdb k' hk'

theorem RedisDb.Reaps.strings {db db₁ : RedisDb} {t : Int} {k : Bytes} (h : db.Reaps t k db₁)
    (hdb : db.Strings) : db₁.Strings := by
  intro k' o ho
  by_cases hstale : db.Stale t k
  · rw [h.value, if_pos hstale] at ho
    by_cases heq : k' = k
    · rw [heq, Function.update_self] at ho
      cases ho
    · rw [Function.update_of_ne heq] at ho
      exact hdb k' o ho
  · rw [(h.of_fresh hstale).1] at ho
    exact hdb k' o ho

theorem Effect.guarded {r : Request} {db db' : RedisDb} (h : Effect r db db') (hdb : db.Guarded) :
    db'.Guarded := by
  cases h with
  | lookup hreaps => exact hreaps.guarded hdb
  | @store k v k₁ o db₁ _ hr hops hreaps ho hkey hdead hvalue hcount =>
      intro k' hk'
      rw [hdead] at hk'
      rw [hvalue]
      by_cases heq : k' = k₁
      · rw [heq, Function.update_self]
        rfl
      · rw [Function.update_of_ne heq]
        exact hreaps.guarded hdb k' hk'
  | @expire k s w _ hr hops hkey hnone hkeys hdead =>
      intro k' hk'
      rw [RedisDb.value, hkeys]
      rw [hdead] at hk'
      by_cases heq : k' = k
      · rw [heq]
        exact hkey
      · rw [Function.update_of_ne heq] at hk'
        exact hdb k' hk'

theorem Effect.strings {r : Request} {db db' : RedisDb} (h : Effect r db db') (hdb : db.Strings) :
    db'.Strings := by
  cases h with
  | lookup hreaps => exact hreaps.strings hdb
  | @store k v k₁ o db₁ _ hr hops hreaps ho hkey hdead hvalue hcount =>
      intro k' o' ho'
      rw [hvalue] at ho'
      by_cases heq : k' = k₁
      · rw [heq, Function.update_self] at ho'
        cases ho'
        exact ho.1
      · rw [Function.update_of_ne heq] at ho'
        exact hreaps.strings hdb k' o' ho'
  | expire hr hops hkey hnone hkeys hdead =>
      intro k' o' ho'
      rw [RedisDb.value, hkeys] at ho'
      exact hdb k' o' ho'

/-- A fresh database has no keys. -/
theorem initRedisServerDbs_isEmpty {dbNum : Nat} {db : RedisDb} (h : db ∈ initRedisServerDbs dbNum) :
    db.IsEmpty := by
  rw [List.eq_of_mem_replicate h]
  exact ⟨fun _ ↦ rfl, fun _ ↦ rfl⟩

theorem RedisDb.IsEmpty.guarded {db : RedisDb} (h : db.IsEmpty) : db.Guarded := by
  intro k hk
  rw [h.2 k] at hk
  cases hk

theorem RedisDb.IsEmpty.strings {db : RedisDb} (h : db.IsEmpty) : db.Strings := by
  intro k o ho
  rw [h.1 k] at ho
  cases ho

/-- The state of a server that has been running. -/
structure Server.Running (server : Server) : Prop where
  ready : server.Ready
  guarded : ∀ db ∈ server.dbs, db.Guarded
  strings : ∀ db ∈ server.dbs, db.Strings

theorem running_of_serveAll {dbNum : Nat} {hz : Int} {clock : Clock} {rs : List Request}
    (hrs : ∀ r ∈ rs, r.Known E) {server : Server}
    (h : Request.serveAll L E (startRedisServer dbNum hz clock) rs = .ok server) :
    server.Running := by
  obtain ⟨hready, hinv⟩ := Request.serveAll_invariant (I := fun db ↦ db.Guarded ∧ db.Strings)
    (fun heff h ↦ ⟨heff.guarded h.1, heff.strings h.2⟩) hrs (startRedisServer_ready _ _ _)
    (fun db hdb ↦ ⟨(initRedisServerDbs_isEmpty hdb).guarded, (initRedisServerDbs_isEmpty hdb).strings⟩)
    h
  exact ⟨hready, fun db hdb ↦ (hinv db hdb).1, fun db hdb ↦ (hinv db hdb).2⟩

/-- **No orphan deadlines.**  Whatever the connections ask for and whatever the clock says,
a key of the `expires` store of a database is a key of its `keys` store. -/
theorem no_orphan_deadlines (L : LatteC) (E : Extension) (dbNum : Nat) (hz : Int) (clock : Clock)
    (rs : List Request) (hrs : ∀ r ∈ rs, r.OnKeys) (server : Server)
    (h : Request.serveAll L E (startRedisServer dbNum hz clock) rs = .ok server) :
    ∀ db ∈ server.dbs, ∀ k ∈ db.expires.keys, k ∈ db.keys.keys := by
  intro db hdb k hk
  have hrunning := running_of_serveAll (fun r hr ↦ .inl (hrs r hr)) h
  rw [KvStore.mem_keys] at hk ⊢
  exact hrunning.guarded db hdb k hk

/-- A run that sets a key, gives it a deadline, and reads it after that. -/
theorem no_orphan_deadlines_expired :
    let rs := [Request.of 0 ⟨0, 0, 0⟩ (ascii "SET") [ascii "k", ascii "v"],
      Request.of 0 ⟨10, 0, 0⟩ (ascii "EXPIRE") [ascii "k", ascii "1"],
      Request.of 1 ⟨20, 0, 0⟩ (ascii "SET") [ascii "k", ascii "w"],
      Request.of 0 ⟨2000, 0, 0⟩ (ascii "get") [ascii "k"]]
    ∃ server, Request.serveAll .sample .absent (startRedisServer 16 10 ⟨0, 0, 0⟩) rs = .ok server ∧
      ∀ db ∈ server.dbs, ∀ k ∈ db.expires.keys, k ∈ db.keys.keys := by
  intro rs
  have hrun : ∃ server,
      Request.serveAll .sample .absent (startRedisServer 16 10 ⟨0, 0, 0⟩) rs = .ok server := ⟨_, rfl⟩
  obtain ⟨server, hrun⟩ := hrun
  exact ⟨server, hrun, no_orphan_deadlines _ _ _ _ _ rs
    (by unfold Request.OnKeys; decide) server hrun⟩

/-! ## How long a value lasts -/

/-- A `SET` of a NUL-free key that returns has stored its value under that key. -/
theorem Request.serve_set {server server' : Server} (hready : server.Ready)
    {r : Request} (hstrings : ∀ db, server.dbs[r.client.dbid]? = some db → db.Strings)
    (hr : r.Calls "set") {k v : Bytes} (hops : r.operands = [k, v]) (hk : (0 : UInt8) ∉ k)
    (h : r.serve L E server = .ok server') :
    ∃ db db₁ db' o, server.dbs[r.client.dbid]? = some db ∧ db.Reaps r.clock.mstime k db₁ ∧
      server'.dbs = server.dbs.set r.client.dbid db' ∧ o.Stores v ∧ db'.deadline = db₁.deadline ∧
      db'.value = Function.update db₁.value k (some o) ∧
      (db₁.keys.Counted → db'.keys.Counted) := by
  obtain ⟨rc', h⟩ := Request.serve_eq_ok.mp h
  rw [r.execute_set hready hr] at h
  have hargs := Request.called_operands hops ⟨ascii "set", .dispatcher .set⟩
  obtain ⟨db, db₁, db', hdb, hreaps, rfl, ⟨k', o, ho, hkey, hdead, hvalue, hcount⟩ |
    ⟨⟨old, hold, htype⟩, -⟩⟩ := setCommand_returns hargs h
  · have hk' : k' = k := by
      rcases hkey with ⟨hk', -⟩ | ⟨hk', -⟩
      · exact hk'
      · rw [hk', cString_of_notMem hk]
    rw [hk'] at hvalue
    exact ⟨db, db₁, db', o, hdb, hreaps, rfl, ho, hdead, hvalue, hcount⟩
  · exact absurd (hreaps.strings (hstrings db hdb) k old hold).1 htype

/-- A request that stores a value under `k` or gives `k` a deadline, in database `d`. -/
def Request.Rewrites (r : Request) (d : Nat) (k : Bytes) : Prop :=
  r.client.dbid = d ∧ (r.Calls "set" ∨ r.Calls "expire") ∧ ∃ x, r.operands = [k, x]

/-- A `GET k` in database `d`. -/
def Request.Reads (r : Request) (d : Nat) (k : Bytes) : Prop :=
  r.client.dbid = d ∧ r.Calls "get" ∧ r.operands = [k]

/-- The request is answered with the value `v`. -/
def Request.Answers (L : LatteC) (E : Extension) (server : Server) (r : Request) (v : Bytes) :
    Prop :=
  ∃ server' rc' o, r.execute L E server = .ok (server', rc') ∧ o.Stores v ∧
    rc'.reply = addReplyBulk L r.client.reply o

/-- From `server` on, `GET k` in database `d` is answered with `v` at every time from `t` on,
until a request rewrites the key. -/
def Lasts (L : LatteC) (E : Extension) (server : Server) (d : Nat) (k v : Bytes) (t : Int) : Prop :=
  ∀ rs server', (∀ r ∈ rs, ¬ r.Rewrites d k) → Request.serveAll L E server rs = .ok server' →
    ∀ r : Request, r.Reads d k → t ≤ r.clock.mstime → r.Answers L E server' v

/-- What `GET k` does, in terms of the maps. -/
theorem Request.Reads.execute_eq {r : Request} {d : Nat} {k : Bytes} (h : r.Reads d k)
    {server : Server} (hready : server.Ready) {db : RedisDb} (hdb : server.dbs[d]? = some db) :
    ∃ server', r.execute L E server = .ok (server', getReply L
      (r.called ⟨ascii "get", .dispatcher .get⟩) (db.valueAt r.clock.mstime k)) := by
  obtain ⟨hd, hr, hops⟩ := h
  have hargs := Request.called_operands hops ⟨ascii "get", .dispatcher .get⟩
  subst hd
  obtain ⟨db₁, hreaps, hget⟩ := getCommand_ok (L := L) hargs (r.db_called _ hdb)
  rw [r.execute_get hready hr, hget, hreaps.value_self]
  exact ⟨_, rfl⟩

/-- `k` has the value `o` and no deadline. -/
def RedisDb.Keeps (db : RedisDb) (k : Bytes) (o : LatteObject) : Prop :=
  db.value k = some o ∧ db.deadline k = none

theorem RedisDb.Keeps.not_stale {db : RedisDb} {k : Bytes} {o : LatteObject} (h : db.Keeps k o)
    (t : Int) : ¬ db.Stale t k := by
  rintro ⟨w, hw, -⟩
  rw [h.2] at hw
  cases hw

theorem RedisDb.Keeps.reaps {db db₁ : RedisDb} {k k' : Bytes} {o : LatteObject} (h : db.Keeps k o)
    {t : Int} (hreaps : db.Reaps t k' db₁) : db₁.Keeps k o := by
  by_cases heq : k = k'
  · subst heq
    obtain ⟨hvalue, hdead⟩ := hreaps.of_fresh (h.not_stale t)
    exact ⟨by rw [hvalue]; exact h.1, by rw [hdead]; exact h.2⟩
  · exact ⟨by rw [hreaps.value_of_ne heq]; exact h.1, by rw [hreaps.deadline_of_ne heq]; exact h.2⟩

/-- A value without a deadline stays until its key is rewritten. -/
theorem Effect.keeps {r : Request} {db db' : RedisDb} (h : Effect r db db') {k : Bytes}
    {o : LatteObject} (hdb : db.Keeps k o) (hr : ¬ r.Rewrites r.client.dbid k) : db'.Keeps k o := by
  cases h with
  | lookup hreaps => exact hdb.reaps hreaps
  | @store k' v k₁ o' db₁ _ hset hops hreaps ho hkey hdead hvalue hcount =>
      have hdb₁ := hdb.reaps hreaps
      have hne : k ≠ k₁ := by
        rintro rfl
        rcases hkey with ⟨rfl, -⟩ | ⟨-, -, hnone⟩
        · exact hr ⟨rfl, .inl hset, v, hops⟩
        · rw [hdb₁.1] at hnone
          cases hnone
      exact ⟨by rw [hvalue, Function.update_of_ne hne]; exact hdb₁.1, by rw [hdead]; exact hdb₁.2⟩
  | @expire k' s w _ hexp hops hkey hnone hkeys hdead =>
      have hne : k ≠ k' := by
        rintro rfl
        exact hr ⟨rfl, .inr hexp, s, hops⟩
      exact ⟨by rw [RedisDb.value, hkeys]; exact hdb.1,
        by rw [hdead, Function.update_of_ne hne]; exact hdb.2⟩

theorem Request.serveAll_keeps (hE : E.Passive) {server server' : Server} (hready : server.Ready)
    {d : Nat} {k : Bytes} {o : LatteObject} {db : RedisDb} (hdb : server.dbs[d]? = some db)
    (hkeeps : db.Keeps k o) {rs : List Request} (hrs : ∀ r ∈ rs, ¬ r.Rewrites d k)
    (h : Request.serveAll L E server rs = .ok server') :
    server'.Ready ∧ ∃ db', server'.dbs[d]? = some db' ∧ db'.Keeps k o := by
  refine Run.invariant
    (P := fun s : Server ↦ s.Ready ∧ ∃ db, s.dbs[d]? = some db ∧ db.Keeps k o)
    (Q := fun r : Request ↦ ¬ r.Rewrites d k) ?_ hrs ⟨hready, db, hdb, hkeeps⟩ h
  rintro s r s' hr ⟨hs, db, hdb, hkeeps⟩ hserve
  obtain ⟨hsame | ⟨db₁, db₁', hdb₁, heff, hset⟩, hs'⟩ := Request.serve_cases hE hs hserve
  · exact ⟨hs', db, by rw [hsame]; exact hdb, hkeeps⟩
  · refine ⟨hs', ?_⟩
    by_cases hd : r.client.dbid = d
    · subst hd
      rw [hdb] at hdb₁
      cases hdb₁
      obtain ⟨hlt, -⟩ := List.getElem?_eq_some_iff.mp hdb
      exact ⟨db₁', by rw [hset, List.getElem?_set_self hlt], heff.keeps hkeeps hr⟩
    · exact ⟨db, by rw [hset, List.getElem?_set_ne hd]; exact hdb, hkeeps⟩

/-- Finding nothing and finding a value are told apart by their replies. -/
theorem replyWithNull_ne (hL : L.AppendsProto) (rc : RedisClient) (o : LatteObject) :
    (replyWithNull L rc).reply ≠ addReplyBulk L rc.reply o := by
  intro h
  have hout := congrArg ReplyBuf.out h
  rw [out_addReplyBulk hL, replyWithNull, RedisClient.replied, out_addReplyProto hL] at hout
  have hbytes := List.append_cancel_left hout
  cases hbytes

/-- What lasts is not stale. -/
theorem Lasts.not_stale (hL : L.AppendsProto) {server : Server} (hready : server.Ready) {d : Nat}
    {k v : Bytes} {t w : Int} (h : Lasts L E server d k v t) {db : RedisDb}
    (hdb : server.dbs[d]? = some db) (hle : t ≤ w) : ¬ db.Stale w k := by
  intro hstale
  have hread : (Request.of d ⟨w, 0, 0⟩ (ascii "get") [k]).Reads d k :=
    ⟨rfl, show (ascii "get").map lower = ascii "get" by decide, rfl⟩
  obtain ⟨s, rc', o', hexec, -, hreply⟩ := h [] server (by simp) rfl _ hread hle
  obtain ⟨s', hexec'⟩ := hread.execute_eq (L := L) (E := E) hready hdb
  rw [hexec'] at hexec
  cases hexec
  dsimp only [Request.of, RedisDb.valueAt] at hreply
  rw [if_pos hstale] at hreply
  exact replyWithNull_ne hL _ o' hreply

/-- A value without a deadline lasts. -/
theorem RedisDb.Keeps.lasts (hE : E.Passive) {server : Server} (hready : server.Ready) {d : Nat}
    {db : RedisDb} (hdb : server.dbs[d]? = some db) {k v : Bytes} {o : LatteObject}
    (hkeeps : db.Keeps k o) (ho : o.Stores v) (t : Int) : Lasts L E server d k v t := by
  intro rs server₂ hrs hlater g hg _
  obtain ⟨hready₂, db₂, hdb₂, hkeeps₂⟩ := Request.serveAll_keeps hE hready hdb hkeeps hrs hlater
  obtain ⟨server₃, hexec⟩ := hg.execute_eq (L := L) (E := E) hready₂ hdb₂
  refine ⟨server₃, _, o, hexec, ho, ?_⟩
  rw [RedisDb.valueAt, if_neg (hkeeps₂.not_stale _), hkeeps₂.1, getReply, if_pos ho.1.1]
  rfl

/-- A lookup leaves only deadlines in the future. -/
theorem RedisDb.Reaps.deadline_none {db db₁ : RedisDb} {t : Int} {k : Bytes} (h : db.Reaps t k db₁)
    (hnone : ¬ ∃ w, db.deadline k = some w ∧ t < w) : db₁.deadline k = none := by
  cases hw : db₁.deadline k with
  | none => rfl
  | some w =>
      have hlt : t < w := Int.not_le.mp fun hle ↦ h.not_stale ⟨w, hw, hle⟩
      by_cases hstale : db.Stale t k
      · rw [h.deadline, if_pos hstale, Function.update_self] at hw
        cases hw
      · rw [(h.of_fresh hstale).2] at hw
        exact absurd ⟨w, hw, hlt⟩ hnone

/-- **How long a value lasts.**  In every reachable state, a `SET k v` that returns makes
`GET k` answer `v` from then on, until the next `SET` or `EXPIRE` of `k`, exactly if `k` had
no deadline in the future. -/
theorem set_value_lasts (L : LatteC) (hL : L.AppendsProto) (E : Extension) (hE : E.Passive)
    (dbNum : Nat) (hz : Int) (clock : Clock) (past : List Request) (server server' : Server)
    (hpast : Request.serveAll L E (startRedisServer dbNum hz clock) past = .ok server)
    (r : Request) (k v : Bytes) (hr : r.Calls "set") (hops : r.operands = [k, v])
    (hk : (0 : UInt8) ∉ k) (hset : r.serve L E server = .ok server') (db : RedisDb)
    (hdb : server.dbs[r.client.dbid]? = some db) :
    Lasts L E server' r.client.dbid k v r.clock.mstime ↔
      ¬ ∃ w, db.deadline k = some w ∧ r.clock.mstime < w := by
  have hrunning := running_of_serveAll (fun r _ ↦ .inr hE) hpast
  obtain ⟨db₀, db₁, db', o, hdb₀, hreaps, hdbs', ho, hdead, hvalue, -⟩ :=
    Request.serve_set hrunning.ready (fun db hdb ↦ hrunning.strings db (List.mem_of_getElem? hdb))
      hr hops hk hset
  rw [hdb] at hdb₀
  cases hdb₀
  have hready' := (Request.serve_cases hE hrunning.ready hset).2
  have hdb' : server'.dbs[r.client.dbid]? = some db' := by
    rw [hdbs', List.getElem?_set_self (List.getElem?_eq_some_iff.mp hdb).1]
  constructor
  · -- at its old deadline the key is gone
    rintro hlasts ⟨w, hw, hlt⟩
    have hfresh : ¬ db.Stale r.clock.mstime k := by
      rintro ⟨w', hw', hle⟩
      rw [hw] at hw'
      cases hw'
      omega
    have hstale : db'.Stale w k := ⟨w, by rw [hdead, (hreaps.of_fresh hfresh).2, hw], le_refl w⟩
    exact hlasts.not_stale hL hready' hdb' hlt.le hstale
  · intro hnone
    have hkeeps : db'.Keeps k o := by
      refine ⟨by rw [hvalue, Function.update_self], ?_⟩
      rw [hdead]
      exact hreaps.deadline_none hnone
    exact hkeeps.lasts hE hready' hdb' ho r.clock.mstime

/-- A `SET` that replaces a value, half a second before the deadline of its key. -/
theorem set_value_lasts_replace :
    let past := [Request.of 0 ⟨0, 0, 0⟩ (ascii "SET") [ascii "k", ascii "a"],
      Request.of 0 ⟨0, 0, 0⟩ (ascii "EXPIRE") [ascii "k", ascii "1"]]
    let r := Request.of 0 ⟨500, 0, 0⟩ (ascii "SET") [ascii "k", ascii "b"]
    ∃ server server' db,
      Request.serveAll .sample .absent (startRedisServer 16 10 ⟨0, 0, 0⟩) past = .ok server ∧
      r.serve .sample .absent server = .ok server' ∧ server.dbs[0]? = some db ∧
      (Lasts .sample .absent server' 0 (ascii "k") (ascii "b") 500 ↔
        ¬ ∃ w, db.deadline (ascii "k") = some w ∧ 500 < w) := by
  intro past r
  have hrun : ∃ server server' db,
      Request.serveAll .sample .absent (startRedisServer 16 10 ⟨0, 0, 0⟩) past = .ok server ∧
      r.serve .sample .absent server = .ok server' ∧ server.dbs[0]? = some db :=
    ⟨_, _, _, rfl, rfl, rfl⟩
  obtain ⟨server, server', db, hpast, hset, hdb⟩ := hrun
  exact ⟨server, server', db, hpast, hset, hdb, set_value_lasts .sample LatteC.sample_appends .absent
    Extension.absent_passive 16 10 ⟨0, 0, 0⟩ past server server' hpast r (ascii "k") (ascii "b")
    (by decide) rfl (by decide) hset db hdb⟩

/-- `SET k a`, `EXPIRE k 1`, and half a second later `SET k b`: one second after the start
`GET k` is answered with the null reply. -/
theorem set_value_lost :
    let past := [Request.of 0 ⟨0, 0, 0⟩ (ascii "SET") [ascii "k", ascii "a"],
      Request.of 0 ⟨0, 0, 0⟩ (ascii "EXPIRE") [ascii "k", ascii "1"]]
    let r := Request.of 0 ⟨500, 0, 0⟩ (ascii "SET") [ascii "k", ascii "b"]
    let g := Request.of 0 ⟨1000, 0, 0⟩ (ascii "GET") [ascii "k"]
    ∃ server server' server'' rc',
      Request.serveAll .sample .absent (startRedisServer 16 10 ⟨0, 0, 0⟩) past = .ok server ∧
      r.serve .sample .absent server = .ok server' ∧
      g.execute .sample .absent server' = .ok (server'', rc') ∧
      rc'.reply.out = ascii "*-1\r\n" :=
  ⟨_, _, _, _, rfl, rfl, rfl, rfl⟩

end LatteRedis
