import LatteRedis.Keyspace.Deadlines

/-!
# `SET` and `GET` are a last-writer-wins map

As long as nobody asks for a deadline, a database is a finite map from keys to strings:
`GET` finds what the latest `SET` of its key has stored.  `lastSet` reads that value off
the requests alone, and `lastWriter` compares it with the database after any run.

The two ways a `SET` stores its value, by entering a key and by replacing the value of an
entry, need not be told apart here: `Request.serve_set` has made them one.
-/

namespace LatteRedis

open ByteString

variable {L : LatteC} {E : Extension}

/-- The key and the value of a `SET` that has both. -/
def Request.stores (r : Request) : Option (Bytes × Bytes) :=
  if r.Calls "set" then
    match r.operands with
    | [k, v] => some (k, v)
    | _ => none
  else none

/-- The value a request stores under `k`. -/
def Request.storesAt (r : Request) (k : Bytes) : Option Bytes :=
  (r.stores.filter fun p ↦ p.1 = k).map Prod.snd

/-- The value of the latest `SET` of `k`. -/
def lastSet (rs : List Request) (k : Bytes) : Option Bytes :=
  rs.reverse.findSome? fun r ↦ r.storesAt k

/-- The keys that have been set. -/
def setKeys (rs : List Request) : List Bytes := rs.filterMap fun r ↦ r.stores.map Prod.fst

/-- A `SET` or a `GET` in database `d`, of a key without a NUL if it has one. -/
structure Request.OnMap (r : Request) (d : Nat) : Prop where
  command : r.Calls "set" ∨ r.Calls "get"
  dbid : r.client.dbid = d
  key : ∀ k ∈ r.operands.head?, (0 : UInt8) ∉ k

theorem Request.stores_eq_some {r : Request} {k v : Bytes} :
    r.stores = some (k, v) ↔ r.Calls "set" ∧ r.operands = [k, v] := by
  unfold stores
  split
  · next hr =>
      split
      · next k' v' hops => simp [hr, hops]
      · next hops => simpa [hr] using fun h ↦ hops k v h
  · next hr => simp [hr]

theorem Request.storesAt_eq_some {r : Request} {k v : Bytes} :
    r.storesAt k = some v ↔ r.stores = some (k, v) := by
  unfold storesAt
  cases r.stores with
  | none => simp
  | some p =>
      obtain ⟨k', v'⟩ := p
      by_cases hk : k' = k <;> simp [Option.filter, hk]

theorem lastSet_concat (rs : List Request) (r : Request) (k : Bytes) :
    lastSet (rs ++ [r]) k = (r.storesAt k).or (lastSet rs k) := by
  unfold lastSet
  rw [List.reverse_append, List.reverse_singleton, List.singleton_append, List.findSome?_cons]
  cases r.storesAt k <;> rfl

theorem lastSet_concat_none {r : Request} (hr : r.stores = none) (rs : List Request) :
    lastSet (rs ++ [r]) = lastSet rs := by
  funext k
  rw [lastSet_concat, Request.storesAt, hr]
  rfl

theorem lastSet_concat_some {r : Request} {k v : Bytes} (hr : r.stores = some (k, v))
    (rs : List Request) : lastSet (rs ++ [r]) = Function.update (lastSet rs) k (some v) := by
  funext k'
  rw [lastSet_concat]
  by_cases hk : k' = k
  · rw [hk, Function.update_self, Request.storesAt_eq_some.mpr hr]
    rfl
  · rw [Function.update_of_ne hk, Request.storesAt, hr, Option.filter_some_neg]
    · rfl
    · simpa using Ne.symm hk

theorem isSome_lastSet {rs : List Request} {k : Bytes} :
    (lastSet rs k).isSome ↔ ∃ r ∈ rs, ∃ v, r.stores = some (k, v) := by
  unfold lastSet
  rw [List.findSome?_isSome_iff]
  simp only [List.mem_reverse, Option.isSome_iff_exists, Request.storesAt_eq_some]

theorem mem_setKeys {rs : List Request} {k : Bytes} : k ∈ setKeys rs ↔ (lastSet rs k).isSome := by
  rw [isSome_lastSet]
  unfold setKeys
  simp only [List.mem_filterMap, Option.map_eq_some_iff, Prod.exists, exists_and_right,
    exists_eq_right]

/-! ## One request -/

/-- The database after the requests `rs`. -/
structure RedisDb.Models (db : RedisDb) (rs : List Request) : Prop where
  value : ∀ k, (db.value k).map LatteObject.content = lastSet rs k
  deadline : ∀ k, db.deadline k = none
  strings : db.Strings
  counted : db.keys.Counted

theorem RedisDb.Models.not_stale {db : RedisDb} {rs : List Request} (h : db.Models rs) (t : Int)
    (k : Bytes) : ¬ db.Stale t k := by
  rintro ⟨w, hw, -⟩
  rw [h.deadline] at hw
  cases hw

theorem RedisDb.Models.reaps {db db₁ : RedisDb} {rs : List Request} (h : db.Models rs) {t : Int}
    {k : Bytes} (hreaps : db.Reaps t k db₁) : db₁.Models rs := by
  obtain ⟨hvalue, hdead⟩ := hreaps.of_fresh (h.not_stale t k)
  exact ⟨by rw [hvalue]; exact h.value, by rw [hdead]; exact h.deadline, hreaps.strings h.strings,
    hreaps.counted h.counted⟩

/-- A request that stores nothing. -/
theorem RedisDb.Models.unstored {db : RedisDb} {rs : List Request} (h : db.Models rs) {r : Request}
    (hr : r.stores = none) : db.Models (rs ++ [r]) := by
  refine ⟨?_, h.deadline, h.strings, h.counted⟩
  rw [lastSet_concat_none hr]
  exact h.value

/-- A request that stores `v` under `k`. -/
theorem RedisDb.Models.store {db db' : RedisDb} {rs : List Request} (h : db.Models rs) {r : Request}
    {k v : Bytes} (hr : r.stores = some (k, v)) {o : LatteObject} (ho : o.Stores v)
    (hvalue : db'.value = Function.update db.value k (some o)) (hdead : db'.deadline = db.deadline)
    (hcount : db'.keys.Counted) : db'.Models (rs ++ [r]) := by
  refine ⟨fun k' ↦ ?_, by rw [hdead]; exact h.deadline, fun k' o' ho' ↦ ?_, hcount⟩
  · rw [lastSet_concat_some hr, hvalue]
    by_cases hk : k' = k
    · rw [hk, Function.update_self, Function.update_self, Option.map_some, ho.2]
    · rw [Function.update_of_ne hk, Function.update_of_ne hk]
      exact h.value k'
  · rw [hvalue] at ho'
    by_cases hk : k' = k
    · rw [hk, Function.update_self] at ho'
      cases ho'
      exact ho.1
    · rw [Function.update_of_ne hk] at ho'
      exact h.strings k' o' ho'

/-- A `SET` and a `GET` are told apart by their names. -/
theorem Request.Calls.unique {r : Request} {w w' : String} (h : r.Calls w) (h' : r.Calls w') :
    ascii w = ascii w' := h.symm.trans h'

/-- The server has the database `db`, which is what the requests `rs` have made it. -/
structure Server.Models (server : Server) (d : Nat) (rs : List Request) : Prop where
  ready : server.Ready
  db : ∃ db, server.dbs[d]? = some db ∧ db.Models rs

/-- One more request makes one more entry in the model. -/
theorem Server.Models.serve {server server' : Server} {d : Nat} {rs : List Request}
    (h : server.Models d rs) {r : Request} (hr : r.OnMap d)
    (hserve : r.serve L E server = .ok server') : server'.Models d (rs ++ [r]) := by
  obtain ⟨hready, db, hdb, hmodels⟩ := h
  obtain ⟨hlt, -⟩ := List.getElem?_eq_some_iff.mp hdb
  have hdbid := hr.dbid
  subst hdbid
  obtain ⟨htouches, hready'⟩ := Request.serve_touches hready
    (hr.command.imp_right .inl) hserve
  refine ⟨hready', ?_⟩
  cases hstores : r.stores with
  | some p =>
      obtain ⟨k, v⟩ := p
      obtain ⟨hset, hops⟩ := Request.stores_eq_some.mp hstores
      obtain ⟨db₀, db₁, db', o, hdb₀, hreaps, hdbs', ho, hdead, hvalue, hcount⟩ :=
        Request.serve_set hready (fun db₀ hdb₀ ↦ by rw [hdb] at hdb₀; cases hdb₀; exact hmodels.strings)
          hset hops (hr.key k (by rw [hops]; rfl)) hserve
      rw [hdb] at hdb₀
      cases hdb₀
      have hmodels₁ := hmodels.reaps hreaps
      refine ⟨db', by rw [hdbs', List.getElem?_set_self hlt], ?_⟩
      exact hmodels₁.store hstores ho hvalue hdead (hcount hmodels₁.counted)
  | none =>
      rcases htouches with hsame | ⟨db₀, db', hdb₀, heff, hset⟩
      · exact ⟨db, by rw [hsame]; exact hdb, hmodels.unstored hstores⟩
      · rw [hdb] at hdb₀
        cases hdb₀
        refine ⟨db', by rw [hset, List.getElem?_set_self hlt], ?_⟩
        cases heff with
        | lookup hreaps => exact (hmodels.reaps hreaps).unstored hstores
        | store hset hops =>
            rw [Request.stores_eq_some.mpr ⟨hset, hops⟩] at hstores
            cases hstores
        | expire hexpire =>
            rcases hr.command with hcmd | hcmd
            · exact absurd (hexpire.unique hcmd) (by decide)
            · exact absurd (hexpire.unique hcmd) (by decide)

/-! ## Nothing stops such a run -/

theorem initObjectLruOrLfu_of_hz {server : Server} (hhz : server.hz ≠ 0) (o : LatteObject) :
    ∃ o', initObjectLruOrLfu server o = .ok o' := by
  unfold initObjectLruOrLfu lruClock
  rw [if_neg hhz]
  split
  · exact ⟨_, rfl⟩
  · split
    · exact ⟨_, rfl⟩
    · split <;> exact ⟨_, rfl⟩

theorem setCommand_total {server : Server} (hhz : server.hz ≠ 0) {rc : RedisClient}
    {name k v : Bytes} (hargs : rc.Holds [name, k, v]) (hk : (0 : UInt8) ∉ k) {db : RedisDb}
    (hdb : server.dbs[rc.dbid]? = some db) (hstrings : db.Strings) :
    ∃ db' rc', setCommand L server rc = .ok (server.setDb rc.dbid db', rc') := by
  cases hval : db.valueAt server.clock.mstime k with
  | none =>
      obtain ⟨-, val, -, -, -, -, ⟨f, hinit, -⟩ | ⟨o, db', -, -, -, -, hset⟩⟩ :=
        setCommand_insert (L := L) hargs hdb hval fun h ↦ h.1 (cString_of_notMem hk)
      · obtain ⟨o, ho⟩ := initObjectLruOrLfu_of_hz hhz val
        rw [ho] at hinit
        cases hinit
      · exact ⟨db', _, hset⟩
  | some old =>
      have htype : old.type = .string := by
        unfold RedisDb.valueAt at hval
        split at hval
        · cases hval
        · exact (hstrings k old hval).1
      obtain ⟨-, -, db', -, -, -, -, -, -, hset⟩ := setCommand_replace (L := L) hargs hdb hval htype
      exact ⟨db', _, hset⟩

/-- A server whose clock ticks answers every such request. -/
theorem Server.Models.serve_total {server : Server} {d : Nat} {rs : List Request}
    (h : server.Models d rs) (hhz : server.hz ≠ 0) {r : Request} (hr : r.OnMap d) :
    ∃ server', r.serve L E server = .ok server' ∧ server'.hz = server.hz := by
  obtain ⟨hready, db, hdb, hmodels⟩ := h
  have hdbid := hr.dbid
  subst hdbid
  rcases hr.command with hset | hget
  · have hexec := r.execute_set (L := L) (E := E) hready hset
    by_cases hargc : (r.called ⟨ascii "set", .dispatcher .set⟩).argc = 3
    · obtain ⟨k, v, hops⟩ := r.operands_of_argc hargc
      have hargs := Request.called_operands hops ⟨ascii "set", .dispatcher .set⟩
      obtain ⟨db', rc', heq⟩ := setCommand_total (L := L) (by exact hhz) hargs
        (hr.key k (by rw [hops]; rfl)) (r.db_called _ hdb) hmodels.strings
      exact ⟨_, Request.serve_eq_ok.mpr ⟨rc', hexec.trans heq⟩, rfl⟩
    · exact ⟨_, Request.serve_eq_ok.mpr ⟨_, hexec.trans (if_pos hargc)⟩, rfl⟩
  · have hexec := r.execute_get (L := L) (E := E) hready hget
    by_cases hargc : (r.called ⟨ascii "get", .dispatcher .get⟩).argc = 2
    · obtain ⟨k, hops⟩ := r.operand_of_argc hargc
      have hargs := Request.called_operands hops ⟨ascii "get", .dispatcher .get⟩
      obtain ⟨db₁, -, heq⟩ := getCommand_ok (L := L) hargs (r.db_called _ hdb)
      exact ⟨_, Request.serve_eq_ok.mpr ⟨_, hexec.trans heq⟩, rfl⟩
    · exact ⟨_, Request.serve_eq_ok.mpr ⟨_, hexec.trans (if_pos hargc)⟩, rfl⟩

/-! ## Whole runs -/

theorem Request.serveAll_concat (server : Server) (rs : List Request) (r : Request) :
    Request.serveAll L E server (rs ++ [r]) =
      Request.serveAll L E server rs >>= fun s ↦ r.serve L E s :=
  Run.foldlM_concat _ server rs r

theorem serveAll_models {server server' : Server} {d : Nat} (h₀ : server.Models d [])
    {rs : List Request} (hrs : ∀ r ∈ rs, r.OnMap d)
    (h : Request.serveAll L E server rs = .ok server') : server'.Models d rs := by
  induction rs using List.reverseRecOn generalizing server' with
  | nil =>
      cases h
      exact h₀
  | append_singleton rs r ih =>
      rw [Request.serveAll_concat] at h
      obtain ⟨s, hs, h⟩ := Run.bind_eq_ok.mp h
      exact (ih (fun r' hr' ↦ hrs r' (by simp [hr'])) hs).serve (hrs r (by simp)) h

theorem serveAll_total {server : Server} {d : Nat} (h₀ : server.Models d [])
    (hhz : server.hz ≠ 0) {rs : List Request} (hrs : ∀ r ∈ rs, r.OnMap d) :
    ∃ server', Request.serveAll L E server rs = .ok server' ∧ server'.hz = server.hz := by
  induction rs using List.reverseRecOn with
  | nil => exact ⟨server, rfl, rfl⟩
  | append_singleton rs r ih =>
      have hrs' : ∀ r' ∈ rs, r'.OnMap d := fun r' hr' ↦ hrs r' (by simp [hr'])
      obtain ⟨s, hs, hhz'⟩ := ih hrs'
      obtain ⟨server', hserve, hhz''⟩ := (serveAll_models h₀ hrs' hs).serve_total (L := L) (E := E)
        (by rw [hhz']; exact hhz) (hrs r (by simp))
      refine ⟨server', ?_, hhz''.trans hhz'⟩
      rw [Request.serveAll_concat, hs]
      exact hserve

theorem RedisDb.Models.keyCount {db : RedisDb} {rs : List Request} (h : db.Models rs) :
    db.keys.keyCount = (setKeys rs).toFinset.card := by
  rw [h.counted, ← List.toFinset_card_of_nodup db.keys.keys_nodup]
  congr 1
  ext k
  rw [List.mem_toFinset, List.mem_toFinset, mem_setKeys, KvStore.mem_keys, ← h.value k,
    Option.isSome_map]
  rfl

/-- **Last writer wins.**  Take any run of `SET` and `GET` requests on a database that is
empty at first.  It returns, if the server has a clock rate.  When it has returned:

* a key is there exactly if it has been set, with the bytes of the latest `SET` of it;
* `GET` answers with that value, or with the null reply;
* a further `SET` changes the value of its own key only;
* `key_count` is the number of different keys that have been set. -/
theorem lastWriter (L : LatteC) (E : Extension) (server : Server) (hready : server.Ready) (d : Nat)
    (db₀ : RedisDb) (hdb₀ : server.dbs[d]? = some db₀) (hempty : db₀.IsEmpty)
    (hcount : db₀.keys.keyCount = 0) (rs : List Request) (hrs : ∀ r ∈ rs, r.OnMap d) :
    (server.hz ≠ 0 → ∃ server', Request.serveAll L E server rs = .ok server') ∧
    ∀ server', Request.serveAll L E server rs = .ok server' →
      ∃ db, server'.dbs[d]? = some db ∧
        (∀ k, ((db.value k).isSome ↔ ∃ r ∈ rs, ∃ v, r.stores = some (k, v)) ∧
          (db.value k).map LatteObject.content = lastSet rs k) ∧
        (∀ k, ∀ r : Request, r.Reads d k → match lastSet rs k with
          | some v => r.Answers L E server' v
          | none => ∃ server'', r.execute L E server' =
              .ok (server'', replyWithNull L (r.called ⟨ascii "get", .dispatcher .get⟩))) ∧
        (∀ r : Request, ∀ k v server'', r.OnMap d → r.stores = some (k, v) →
          r.serve L E server' = .ok server'' →
          ∃ db', server''.dbs[d]? = some db' ∧ ∀ k', k' ≠ k →
            (db'.value k').map LatteObject.content = (db.value k').map LatteObject.content) ∧
        db.keys.keyCount = (setKeys rs).toFinset.card := by
  have hnone : ∀ k, db₀.value k = none := hempty.1
  have hkeys : db₀.keys.keys = [] := by
    apply List.eq_nil_iff_forall_not_mem.mpr
    intro k hk
    rw [KvStore.mem_keys, show db₀.keys.find k = none from hnone k] at hk
    cases hk
  have h₀ : server.Models d [] := by
    refine ⟨hready, db₀, hdb₀, fun k ↦ by rw [hnone k]; rfl, hempty.2, hempty.strings, ?_⟩
    rw [KvStore.Counted, hkeys, hcount]
    rfl
  refine ⟨fun hhz ↦ (serveAll_total h₀ hhz hrs).imp fun _ h ↦ h.1, ?_⟩
  intro server' hrun
  have hmodels' := serveAll_models h₀ hrs hrun
  obtain ⟨hready', db, hdb, hmodels⟩ := hmodels'
  refine ⟨db, hdb, fun k ↦ ⟨?_, hmodels.value k⟩, fun k r hr ↦ ?_, ?_, hmodels.keyCount⟩
  · rw [← isSome_lastSet, ← hmodels.value k, Option.isSome_map]
  · obtain ⟨server'', hexec⟩ := hr.execute_eq (L := L) (E := E) hready' hdb
    rw [RedisDb.valueAt, if_neg (hmodels.not_stale _ k)] at hexec
    rw [← hmodels.value k]
    cases ho : db.value k with
    | none =>
        rw [ho] at hexec
        exact ⟨server'', hexec⟩
    | some o =>
        have htext := hmodels.strings k o ho
        rw [ho, getReply, if_pos htext.1] at hexec
        exact ⟨server'', _, o, hexec, ⟨htext, rfl⟩, rfl⟩
  · intro r k v server'' hr hstores hserve
    obtain ⟨-, db', hdb', hmodels'⟩ :=
      (Server.Models.mk hready' ⟨db, hdb, hmodels⟩).serve hr hserve
    refine ⟨db', hdb', ?_⟩
    intro k' hk'
    rw [hmodels'.value, hmodels.value, lastSet_concat_some hstores, Function.update_of_ne hk']

/-- Two connections set the same key, one after the other. -/
theorem lastWriter_twice :
    let rs := [Request.of 0 ⟨0, 0, 0⟩ (ascii "SET") [ascii "k", ascii "a"],
      Request.of 0 ⟨1, 0, 0⟩ (ascii "get") [ascii "k"],
      Request.of 0 ⟨2, 0, 0⟩ (ascii "Set") [ascii "k", ascii "b"]]
    ∃ server' db, Request.serveAll .sample .absent (startRedisServer 16 10 ⟨0, 0, 0⟩) rs =
        .ok server' ∧ server'.dbs[0]? = some db ∧
      (db.value (ascii "k")).map LatteObject.content = some (ascii "b") ∧
      db.keys.keyCount = 1 := by
  intro rs
  have hrs : ∀ r ∈ rs, r.OnMap 0 := by
    intro r hr
    have hall : ∀ r ∈ rs, (r.Calls "set" ∨ r.Calls "get") ∧ r.client.dbid = 0 ∧
        ∀ k ∈ r.operands.head?, (0 : UInt8) ∉ k := by decide
    obtain ⟨hcmd, hdbid, hkey⟩ := hall r hr
    exact ⟨hcmd, hdbid, hkey⟩
  obtain ⟨hreturns, hafter⟩ := lastWriter .sample .absent (startRedisServer 16 10 ⟨0, 0, 0⟩)
    (startRedisServer_ready _ _ _) 0 _ rfl ⟨fun _ ↦ rfl, fun _ ↦ rfl⟩ rfl rs hrs
  obtain ⟨server', hrun⟩ := hreturns (by decide)
  obtain ⟨db, hdb, hvalue, -, -, hcount⟩ := hafter server' hrun
  exact ⟨server', db, hrun, hdb, (hvalue (ascii "k")).2, hcount⟩

end LatteRedis
