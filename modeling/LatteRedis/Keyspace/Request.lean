import LatteRedis.Command.Frame

/-!
# Requests against the databases

A `Request` is a complete request of some connection: the client whose argument vector a
parser has filled, and what the clock says when it is executed.  The server has one
thread, so whatever the connections do, it executes their requests in some order; a run
is a list of requests, and a fault ends the process and the run with it.

The file says what `SET`, `GET` and `EXPIRE` do to the two maps of a database.  `Effect`
is the summary: the four things a request can do to its database.  Everything that is
proved about runs goes through `execute_effect`.
-/

namespace LatteRedis

open ByteString

/-- A complete request. -/
structure Request where
  client : RedisClient
  name : Bytes
  operands : List Bytes
  clock : Clock
  holds : client.Holds (name :: operands)

namespace Request

/-- The request is for the command `word`, in any case. -/
def Calls (r : Request) (word : String) : Prop := r.name.map lower = ascii word

instance (r : Request) (word : String) : Decidable (r.Calls word) :=
  inferInstanceAs (Decidable (_ = _))

/-- The server at the time of the request. -/
def arrives (r : Request) (server : Server) : Server := { server with clock := r.clock }

variable (L : LatteC) (E : Extension)

/-- `process_command` at the time of the request. -/
def execute (server : Server) (r : Request) : Except Fault (Server × RedisClient) := do
  let (_, c) ← processCommand (machine L E fun _ ↦ 0)
    { rc := r.client, server := r.arrives server }
  return (c.server, c.rc)

/-- What a request does to the server. -/
def serve (server : Server) (r : Request) : Except Fault Server :=
  (r.execute L E server).map Prod.fst

/-- A run of the server. -/
def serveAll (server : Server) (rs : List Request) : Except Fault Server :=
  rs.foldlM (serve L E) server

end Request

/-- The built-in commands and those of the `latte` module are registered, and in front of
what other modules have registered since. -/
def Server.Ready (server : Server) : Prop :=
  ∃ cmds, server.commands = redisCommandTable ++ latteModuleCommands ++ cmds ∧
    ∀ cmd ∈ cmds, ∃ n, cmd.proc = .dispatcher (.other n)

theorem startRedisServer_ready (dbNum : Nat) (hz : Int) (clock : Clock) :
    (startRedisServer dbNum hz clock).Ready := ⟨[], (List.append_nil _).symm, by simp⟩

variable {L : LatteC} {E : Extension}

/-! ## Dispatch -/

/-- The client as its handler sees it. -/
def Request.called (r : Request) (cmd : RedisCommand) : RedisClient :=
  { r.client with cmd := .live cmd, lastcmd := .live cmd }

theorem Request.called_holds (r : Request) (cmd : RedisCommand) :
    (r.called cmd).Holds (r.name :: r.operands) := r.holds

theorem Request.called_operands {r : Request} {operands : List Bytes} (h : r.operands = operands)
    (cmd : RedisCommand) : (r.called cmd).Holds (r.name :: operands) := by
  rw [← h]
  exact r.called_holds cmd

theorem Request.execute_eq (server : Server) (r : Request) :
    r.execute L E server = match commandManagerLookup server r.name with
      | none => .ok (r.arrives server, { r.client with cmd := .null, lastcmd := .null })
      | some cmd => cmd.proc.run L E (r.arrives server) (r.called cmd) := by
  obtain ⟨o, ho, htext, hname⟩ := r.holds.argvAt (i := 0) rfl
  unfold execute
  rw [processCommand_eq (M := machine L E fun _ ↦ 0)
    (c := { rc := r.client, server := r.arrives server }) ho (htext.2.trans (congrArg _ hname))]
  show (match commandManagerLookup server r.name with
    | none => _
    | some cmd => Except.map _ (cmd.proc.run L E (r.arrives server) (r.called cmd))) >>= _ = _
  cases commandManagerLookup server r.name with
  | none => rfl
  | some cmd =>
      dsimp only
      cases cmd.proc.run L E (r.arrives server) (r.called cmd) <;> rfl

/-- The database of a request is the one its handler finds. -/
theorem Request.db_called {server : Server} (r : Request) (cmd : RedisCommand) {o : Option RedisDb}
    (h : server.dbs[r.client.dbid]? = o) : (r.arrives server).dbs[(r.called cmd).dbid]? = o := h

theorem Server.Ready.lookup {server : Server} (h : server.Ready) (cmd : RedisCommand)
    {name : Bytes} {word : String} (hname : name.map lower = ascii word)
    (hcmd : (redisCommandTable ++ latteModuleCommands).find?
      (fun cmd ↦ cmd.name.map lower = ascii word) = some cmd) :
    commandManagerLookup server name = some cmd := by
  obtain ⟨cmds, heq, -⟩ := h
  unfold commandManagerLookup
  rw [heq, hname, List.find?_append, hcmd]
  rfl

theorem Request.execute_set {server : Server} (h : server.Ready) {r : Request}
    (hr : r.Calls "set") : r.execute L E server =
      setCommand L (r.arrives server) (r.called ⟨ascii "set", .dispatcher .set⟩) := by
  rw [execute_eq, h.lookup ⟨ascii "set", .dispatcher .set⟩ hr (by decide)]
  rfl

theorem Request.execute_get {server : Server} (h : server.Ready) {r : Request}
    (hr : r.Calls "get") : r.execute L E server =
      getCommand L (r.arrives server) (r.called ⟨ascii "get", .dispatcher .get⟩) := by
  rw [execute_eq, h.lookup ⟨ascii "get", .dispatcher .get⟩ hr (by decide)]
  rfl

theorem Request.execute_expire {server : Server} (h : server.Ready) {r : Request}
    (hr : r.Calls "expire") : r.execute L E server =
      expireCommand L (r.arrives server) (r.called ⟨ascii "expire", .expire⟩) := by
  rw [execute_eq, h.lookup ⟨ascii "expire", .expire⟩ hr (by decide)]
  rfl

/-! ## Looking a key up -/

/-- `db₁` is `db` without the key `k` if its deadline has passed at time `t`. -/
structure RedisDb.Reaps (db : RedisDb) (t : Int) (k : Bytes) (db₁ : RedisDb) : Prop where
  value : db₁.value = if db.Stale t k then Function.update db.value k none else db.value
  deadline : db₁.deadline =
    if db.Stale t k then Function.update db.deadline k none else db.deadline
  counted : db.keys.Counted → db₁.keys.Counted

/-- The value of a key at time `t`. -/
def RedisDb.valueAt (db : RedisDb) (t : Int) (k : Bytes) : Option LatteObject :=
  if db.Stale t k then none else db.value k

theorem RedisDb.Reaps.value_self {db db₁ : RedisDb} {t : Int} {k : Bytes} (h : db.Reaps t k db₁) :
    db₁.value k = db.valueAt t k := by
  unfold RedisDb.valueAt
  rw [h.value]
  split
  · rw [Function.update_self]
  · rfl

theorem RedisDb.Reaps.value_of_ne {db db₁ : RedisDb} {t : Int} {k : Bytes} (h : db.Reaps t k db₁)
    {k' : Bytes} (hk : k' ≠ k) : db₁.value k' = db.value k' := by
  rw [h.value]
  split
  · rw [Function.update_of_ne hk]
  · rfl

theorem RedisDb.Reaps.deadline_of_ne {db db₁ : RedisDb} {t : Int} {k : Bytes}
    (h : db.Reaps t k db₁) {k' : Bytes} (hk : k' ≠ k) : db₁.deadline k' = db.deadline k' := by
  rw [h.deadline]
  split
  · rw [Function.update_of_ne hk]
  · rfl

/-- Behind a lookup the key is not stale. -/
theorem RedisDb.Reaps.not_stale {db db₁ : RedisDb} {t : Int} {k : Bytes} (h : db.Reaps t k db₁) :
    ¬ db₁.Stale t k := by
  rintro ⟨w, hw, hle⟩
  rw [h.deadline] at hw
  split at hw
  · rw [Function.update_self] at hw
    cases hw
  · next hfresh => exact hfresh ⟨w, hw, hle⟩

theorem RedisDb.Reaps.of_fresh {db db₁ : RedisDb} {t : Int} {k : Bytes} (h : db.Reaps t k db₁)
    (hfresh : ¬ db.Stale t k) : db₁.value = db.value ∧ db₁.deadline = db.deadline := by
  rw [h.value, h.deadline, if_neg hfresh, if_neg hfresh]
  exact ⟨rfl, rfl⟩

theorem Server.dbAt_eq {server : Server} {d : Nat} {db : RedisDb} (h : server.dbs[d]? = some db) :
    server.dbAt d = .ok db := by
  unfold Server.dbAt
  rw [h]

theorem Server.getElem?_setDb {server : Server} {d : Nat} {db : RedisDb} (h : server.dbs[d]? = some db)
    (db₁ : RedisDb) : (server.setDb d db₁).dbs[d]? = some db₁ := by
  obtain ⟨hlt, -⟩ := List.getElem?_eq_some_iff.mp h
  exact List.getElem?_set_self hlt

theorem Server.dbAt_setDb {server : Server} {d : Nat} {db : RedisDb} (h : server.dbs[d]? = some db)
    (db₁ : RedisDb) : (server.setDb d db₁).dbAt d = .ok db₁ :=
  Server.dbAt_eq (Server.getElem?_setDb h db₁)

theorem Server.setDb_setDb (server : Server) (d : Nat) (db db' : RedisDb) :
    (server.setDb d db).setDb d db' = server.setDb d db' := by
  unfold Server.setDb
  rw [List.set_set]

/-- A lookup deletes the key if it is stale, and then finds what is there. -/
theorem lookupKey_ok {server : Server} {rc : RedisClient} {key : LatteObject} (htext : key.IsText)
    {db : RedisDb} (hdb : server.dbs[rc.dbid]? = some db) :
    ∃ db₁, db.Reaps server.clock.mstime key.content db₁ ∧
      lookupKey server rc key = .ok (server.setDb rc.dbid db₁,
        (db₁.value key.content).map fun v ↦ (key.content, v)) := by
  unfold lookupKey
  rw [if_neg (not_not.mpr htext.1), htext.2, Run.ok_bind, Server.dbAt_eq hdb, Run.ok_bind]
  by_cases hstale : db.Stale server.clock.mstime key.content
  · obtain ⟨db₁, hexp, hval, hdead, hcount⟩ := expireIfNeeded_stale hstale
    refine ⟨db₁, ⟨by rw [hval, if_pos hstale], by rw [hdead, if_pos hstale], hcount⟩, ?_⟩
    rw [hexp, hval, Function.update_self]
    rfl
  · refine ⟨db, ⟨by rw [if_neg hstale], by rw [if_neg hstale], id⟩, ?_⟩
    rw [expireIfNeeded_fresh hstale]
    rfl

/-! ## `GET` -/

/-- What `GET` replies for the value it finds. -/
def getReply (L : LatteC) (rc : RedisClient) : Option LatteObject → RedisClient
  | none => replyWithNull L rc
  | some v =>
      if v.type = .string then rc.replied (addReplyBulk L rc.reply v)
      else replyWithWrongTypeError L rc

theorem getCommand_ok {server : Server} {rc : RedisClient} {name k : Bytes}
    (hargs : rc.Holds [name, k]) {db : RedisDb} (hdb : server.dbs[rc.dbid]? = some db) :
    ∃ db₁, db.Reaps server.clock.mstime k db₁ ∧
      getCommand L server rc = .ok (server.setDb rc.dbid db₁, getReply L rc (db₁.value k)) := by
  obtain ⟨key, hkey, htext, rfl⟩ := hargs.argvAt (i := 1) rfl
  obtain ⟨db₁, hreaps, hlookup⟩ := lookupKey_ok htext hdb
  refine ⟨db₁, hreaps, ?_⟩
  unfold getCommand
  rw [if_neg (by simp [hargs.1]), hkey, Run.ok_bind, hlookup, Run.ok_bind]
  cases db₁.value key.content with
  | none => rfl
  | some v =>
      simp only [Option.map_some, getReply]
      split <;> rfl

/-! ## `SET` -/

/-- The stamp does not touch the string. -/
theorem initObjectLruOrLfu_ok {server : Server} {o o' : LatteObject}
    (h : initObjectLruOrLfu server o = .ok o') : o' = { o with lru := o'.lru } := by
  unfold initObjectLruOrLfu at h
  split at h
  · cases h
    rfl
  · split at h
    · cases h
      rfl
    · obtain ⟨clock, -, h⟩ := Run.bind_eq_ok.mp h
      cases h
      rfl

/-- `o` is an object for the string `v`. -/
def LatteObject.Stores (o : LatteObject) (v : Bytes) : Prop := o.IsText ∧ o.content = v

theorem LatteObject.Stores.stamped {server : Server} {o o' : LatteObject} {v : Bytes}
    (h : o.Stores v) (hinit : initObjectLruOrLfu server o = .ok o') : o'.Stores v := by
  rw [initObjectLruOrLfu_ok hinit]
  exact h

theorem setCommand_eq {server : Server} {rc : RedisClient} {name k v : Bytes}
    (hargs : rc.Holds [name, k, v]) {db : RedisDb} (hdb : server.dbs[rc.dbid]? = some db) :
    ∃ db₁ key val, db.Reaps server.clock.mstime k db₁ ∧ key.Stores k ∧ val.Stores v ∧
      rc.argvAt 2 = .ok val ∧ setCommand L server rc = match db₁.value k with
        | none => (dbAddKeyValue server db₁ key val).map fun db' ↦
            (server.setDb rc.dbid db', replyWithSimpleString L rc "OK")
        | some old =>
            if old.type = .string then
              .ok (server.setDb rc.dbid { db₁ with keys := db₁.keys.dictSetVal 0 k val },
                replyWithSimpleString L rc "OK")
            else .ok (server.setDb rc.dbid db₁, replyWithWrongTypeError L rc) := by
  obtain ⟨key, hkey, htext, rfl⟩ := hargs.argvAt (i := 1) rfl
  obtain ⟨val, hval, hvtext, rfl⟩ := hargs.argvAt (i := 2) rfl
  obtain ⟨db₁, hreaps, hlookup⟩ := lookupKey_ok htext hdb
  refine ⟨db₁, key, val, hreaps, ⟨htext, rfl⟩, ⟨hvtext, rfl⟩, hval, ?_⟩
  unfold setCommand
  rw [if_neg (by simp [hargs.1]), hkey, Run.ok_bind, hlookup, Run.ok_bind]
  cases db₁.value key.content with
  | none =>
      simp only [Option.map_none, hval, Run.ok_bind, moduleDbAdd, Server.dbAt_setDb hdb db₁]
      rw [show dbAddKeyValue (server.setDb rc.dbid db₁) db₁ key val =
        dbAddKeyValue server db₁ key val from rfl]
      cases dbAddKeyValue server db₁ key val with
      | error f => rfl
      | ok db' =>
          simp only [Run.ok_bind, Except.map, Server.setDb_setDb, Run.pure_eq]
  | some old =>
      simp only [Option.map_some]
      split
      · simp only [hval, Run.ok_bind, moduleDbEntrySetValue, Server.dbAt_setDb hdb db₁,
          Run.pure_eq, Server.setDb_setDb]
        rfl
      · rfl

/-- The C string of `k` is another key, and that key is there. -/
def RedisDb.Blocks (db : RedisDb) (k : Bytes) : Prop :=
  cString k ≠ k ∧ (db.value (cString k)).isSome

/-- A key that is not there is entered under its C string. -/
theorem setCommand_insert {server : Server} {rc : RedisClient} {name k v : Bytes}
    (hargs : rc.Holds [name, k, v]) {db : RedisDb} (hdb : server.dbs[rc.dbid]? = some db)
    (habsent : db.valueAt server.clock.mstime k = none) (hfree : ¬ db.Blocks k) :
    ∃ db₁ val, db.Reaps server.clock.mstime k db₁ ∧ val.Stores v ∧ rc.argvAt 2 = .ok val ∧
      db₁.value (cString k) = none ∧
      ((∃ f, initObjectLruOrLfu server val = .error f ∧ setCommand L server rc = .error f) ∨
        ∃ o db', initObjectLruOrLfu server val = .ok o ∧ db'.expires = db₁.expires ∧
          db'.value = Function.update db₁.value (cString k) (some o) ∧
          (db₁.keys.Counted → db'.keys.Counted) ∧
          setCommand L server rc =
            .ok (server.setDb rc.dbid db', replyWithSimpleString L rc "OK")) := by
  obtain ⟨db₁, key, val, hreaps, hkey, hval, hargv, hset⟩ := setCommand_eq (L := L) hargs hdb
  have hnone : db₁.value k = none := hreaps.value_self.trans habsent
  have hfree₁ : db₁.value (cString k) = none := by
    by_cases hk : cString k = k
    · rw [hk, hnone]
    · rw [hreaps.value_of_ne hk]
      exact Option.not_isSome_iff_eq_none.mp fun h ↦ hfree ⟨hk, h⟩
  refine ⟨db₁, val, hreaps, hval, hargv, hfree₁, ?_⟩
  rw [hset, hnone]
  cases hinit : initObjectLruOrLfu server val with
  | error f =>
      refine .inl ⟨f, rfl, ?_⟩
      rw [dbAddKeyValue_error hkey.1 (by rw [hkey.2]; exact hfree₁) hinit]
      rfl
  | ok o =>
      obtain ⟨db', hadd, hexp, hvalue, hcount⟩ :=
        dbAddKeyValue_new hkey.1 (by rw [hkey.2]; exact hfree₁) hinit
      refine .inr ⟨o, db', rfl, hexp, by rw [hvalue, hkey.2], hcount, ?_⟩
      rw [hadd]
      rfl

/-- A key that is not there while its C string is stops the server. -/
theorem setCommand_blocked {server : Server} {rc : RedisClient} {name k v : Bytes}
    (hargs : rc.Holds [name, k, v]) {db : RedisDb} (hdb : server.dbs[rc.dbid]? = some db)
    (habsent : db.valueAt server.clock.mstime k = none) (hblocks : db.Blocks k) :
    setCommand L server rc = .error (.assertion "overwrite is not supported") := by
  obtain ⟨db₁, key, val, hreaps, hkey, -, -, hset⟩ := setCommand_eq (L := L) hargs hdb
  rw [hset, hreaps.value_self.trans habsent]
  dsimp only
  rw [dbAddKeyValue_existing hkey.1]
  · rfl
  · rw [hkey.2, hreaps.value_of_ne hblocks.1]
    exact hblocks.2

/-- A key that is there gets the new value and keeps its deadline. -/
theorem setCommand_replace {server : Server} {rc : RedisClient} {name k v : Bytes}
    (hargs : rc.Holds [name, k, v]) {db : RedisDb} (hdb : server.dbs[rc.dbid]? = some db)
    {old : LatteObject} (hold : db.valueAt server.clock.mstime k = some old)
    (htype : old.type = .string) :
    ∃ db₁ val db', db.Reaps server.clock.mstime k db₁ ∧ val.Stores v ∧ rc.argvAt 2 = .ok val ∧
      db'.expires = db₁.expires ∧ db'.value = Function.update db₁.value k (some val) ∧
      (db₁.keys.Counted → db'.keys.Counted) ∧
      setCommand L server rc = .ok (server.setDb rc.dbid db', replyWithSimpleString L rc "OK") := by
  obtain ⟨db₁, key, val, hreaps, -, hval, hargv, hset⟩ := setCommand_eq (L := L) hargs hdb
  have hsome : db₁.value k = some old := hreaps.value_self.trans hold
  have hpresent : (db₁.value k).isSome := by
    rw [hsome]
    rfl
  obtain ⟨hfind, hcount⟩ := db₁.keys.dictSetVal_find hpresent val
  refine ⟨db₁, val, { db₁ with keys := db₁.keys.dictSetVal 0 k val }, hreaps, hval, hargv, rfl,
    hfind, hcount, ?_⟩
  rw [hset, hsome]
  simp only [htype, if_true]

theorem setCommand_wrongType {server : Server} {rc : RedisClient} {name k v : Bytes}
    (hargs : rc.Holds [name, k, v]) {db : RedisDb} (hdb : server.dbs[rc.dbid]? = some db)
    {old : LatteObject} (hold : db.valueAt server.clock.mstime k = some old)
    (htype : old.type ≠ .string) :
    ∃ db₁, db.Reaps server.clock.mstime k db₁ ∧
      setCommand L server rc = .ok (server.setDb rc.dbid db₁, replyWithWrongTypeError L rc) := by
  obtain ⟨db₁, key, val, hreaps, -, -, -, hset⟩ := setCommand_eq (L := L) hargs hdb
  refine ⟨db₁, hreaps, ?_⟩
  rw [hset, hreaps.value_self.trans hold]
  simp only [htype, if_false]

/-! ## `EXPIRE` -/

/-- The seconds an `EXPIRE` asks for, if they are a number that is not negative. -/
def expireSeconds (L : LatteC) (s : Bytes) : Option Int := (L.string2ll s).filter fun n ↦ 0 ≤ n

/-- The reply to an `EXPIRE` that does not say how long. -/
def expireOutOfRange (L : LatteC) (rc : RedisClient) : RedisClient :=
  rc.replied (addReplyError L rc.reply "ERR value is not an integer or out of range")

/-- The deadline `seconds` from now. -/
def expireDeadline (server : Server) (seconds : Int) : Int :=
  wrap64 (server.clock.mstime + wrap64 (seconds * 1000))

theorem expireCommand_eq {server : Server} {rc : RedisClient} {name k s : Bytes}
    (hargs : rc.Holds [name, k, s]) {db : RedisDb} (hdb : server.dbs[rc.dbid]? = some db) :
    expireCommand L server rc = match expireSeconds L s with
      | none => .ok (server, expireOutOfRange L rc)
      | some seconds =>
          if db.value k = none then
            .ok (server, rc.replied (addReplyLongLongWithPrefix L rc.reply 0 58))
          else (dbSetExpire db k (expireDeadline server seconds)).map fun (set, db') ↦
            (server.setDb rc.dbid db', if set then
              rc.replied (addReplyLongLongWithPrefix L rc.reply 1 58)
              else rc.replied (addReplyError L rc.reply "ERR could not set expire")) := by
  obtain ⟨key, hkey, htext, rfl⟩ := hargs.argvAt (i := 1) rfl
  obtain ⟨sec, hsec, hstext, rfl⟩ := hargs.argvAt (i := 2) rfl
  unfold expireCommand expireSeconds
  rw [if_neg (by simp [hargs.1]), hsec, Run.ok_bind, hstext.2, Run.ok_bind]
  cases L.string2ll sec.content with
  | none => rfl
  | some n =>
      by_cases hn : n < 0
      · rw [Option.filter_some_neg (by simpa using hn)]
        simp only [hn, if_true]
        rfl
      · rw [Option.filter_some_pos (by simpa using hn)]
        simp only [hn, if_false, hkey, Run.ok_bind, htext.2, Server.dbAt_eq hdb]
        rw [show db.keys.find key.content = db.value key.content from rfl]
        split
        · rfl
        · rw [← expireDeadline]
          cases dbSetExpire db key.content (expireDeadline server n) with
          | error f => rfl
          | ok p =>
              obtain ⟨set, db'⟩ := p
              cases set <;> rfl

/-- Without a database there is nothing to look up in. -/
theorem expireCommand_missing {server : Server} {rc : RedisClient} {name k s : Bytes}
    (hargs : rc.Holds [name, k, s]) (hdb : server.dbs[rc.dbid]? = none) :
    expireCommand L server rc = match expireSeconds L s with
      | none => .ok (server, expireOutOfRange L rc)
      | some _ => .error .badPointer := by
  obtain ⟨key, hkey, htext, rfl⟩ := hargs.argvAt (i := 1) rfl
  obtain ⟨sec, hsec, hstext, rfl⟩ := hargs.argvAt (i := 2) rfl
  unfold expireCommand expireSeconds Server.dbAt
  rw [if_neg (by simp [hargs.1]), hsec, Run.ok_bind, hstext.2, Run.ok_bind]
  cases L.string2ll sec.content with
  | none => rfl
  | some n =>
      by_cases hn : n < 0
      · rw [Option.filter_some_neg (by simpa using hn)]
        simp only [hn, if_true]
        rfl
      · rw [Option.filter_some_pos (by simpa using hn)]
        simp only [hn, if_false, hkey, Run.ok_bind, htext.2, hdb]
        rfl

/-! ## What a request can do to its database -/

/-- What a request that returns can leave behind of its database, if it changes it at all:
a stale key is gone, a value is stored, or a deadline is set. -/
inductive Effect (r : Request) (db : RedisDb) : RedisDb → Prop
  | lookup {k : Bytes} {db' : RedisDb} (hreaps : db.Reaps r.clock.mstime k db') : Effect r db db'
  | store {k v k' : Bytes} {o : LatteObject} {db₁ db' : RedisDb} (hr : r.Calls "set")
      (hops : r.operands = [k, v]) (hreaps : db.Reaps r.clock.mstime k db₁) (ho : o.Stores v)
      (hkey : (k' = k ∧ (db₁.value k).isSome) ∨
        (k' = cString k ∧ db₁.value k = none ∧ db₁.value k' = none))
      (hdead : db'.deadline = db₁.deadline)
      (hvalue : db'.value = Function.update db₁.value k' (some o))
      (hcount : db₁.keys.Counted → db'.keys.Counted) : Effect r db db'
  | expire {k s : Bytes} {w : Int} {db' : RedisDb} (hr : r.Calls "expire")
      (hops : r.operands = [k, s]) (hkey : (db.value k).isSome) (hnone : db.deadline k = none)
      (hkeys : db'.keys = db.keys)
      (hdead : db'.deadline = Function.update db.deadline k (some w)) : Effect r db db'

/-- The request leaves the databases alone, or has an effect on the one of its client. -/
def Request.Touches (r : Request) (dbs dbs' : List RedisDb) : Prop :=
  dbs' = dbs ∨ ∃ db db', dbs[r.client.dbid]? = some db ∧ Effect r db db' ∧
    dbs' = dbs.set r.client.dbid db'

/-- Without a database there is nothing to look up in. -/
theorem lookupKey_missing {server : Server} {rc : RedisClient} {key : LatteObject}
    (htext : key.IsText) (hdb : server.dbs[rc.dbid]? = none) :
    lookupKey server rc key = .error .badPointer := by
  unfold lookupKey Server.dbAt
  rw [if_neg (not_not.mpr htext.1), htext.2, Run.ok_bind, hdb]
  rfl

variable {server server' : Server} {r : Request} {cmd : RedisCommand} {rc' : RedisClient}

/-- The operands of a request whose vector has three entries. -/
theorem Request.operands_of_argc (h : (r.called cmd).argc = 3) : ∃ k v, r.operands = [k, v] := by
  have hlen : (r.operands.length : Int) + 1 = 3 := by
    rw [← h, (r.called_holds cmd).1]
    rfl
  exact List.length_eq_two.mp (by omega)

theorem Request.operand_of_argc (h : (r.called cmd).argc = 2) : ∃ k, r.operands = [k] := by
  have hlen : (r.operands.length : Int) + 1 = 2 := by
    rw [← h, (r.called_holds cmd).1]
    rfl
  exact List.length_eq_one_iff.mp (by omega)

/-- What a `SET` with a key and a value has done when it returns. -/
theorem setCommand_returns {rc : RedisClient} {name k v : Bytes} (hargs : rc.Holds [name, k, v])
    (h : setCommand L server rc = .ok (server', rc')) :
    ∃ db db₁ db', server.dbs[rc.dbid]? = some db ∧ db.Reaps server.clock.mstime k db₁ ∧
      server' = server.setDb rc.dbid db' ∧
      ((∃ k' o, o.Stores v ∧ ((k' = k ∧ (db₁.value k).isSome) ∨
            (k' = cString k ∧ db₁.value k = none ∧ db₁.value k' = none)) ∧
          db'.deadline = db₁.deadline ∧ db'.value = Function.update db₁.value k' (some o) ∧
          (db₁.keys.Counted → db'.keys.Counted)) ∨
        (∃ old, db₁.value k = some old ∧ old.type ≠ .string) ∧ db' = db₁) := by
  cases hdb : server.dbs[rc.dbid]? with
  | none =>
      obtain ⟨key, hkey, htext, -⟩ := hargs.argvAt (i := 1) rfl
      unfold setCommand at h
      rw [if_neg (by simp [hargs.1]), hkey, Run.ok_bind, lookupKey_missing htext hdb] at h
      cases h
  | some db =>
      cases hval : db.valueAt server.clock.mstime k with
      | none =>
          by_cases hblocks : db.Blocks k
          · rw [setCommand_blocked hargs hdb hval hblocks] at h
            cases h
          · obtain ⟨db₁, val, hreaps, hstores, -, hfree, ⟨f, -, hset⟩ |
              ⟨o, db', hinit, hexp, hvalue, hcount, hset⟩⟩ :=
              setCommand_insert (L := L) hargs hdb hval hblocks
            · rw [hset] at h
              cases h
            · rw [hset] at h
              cases h
              refine ⟨db, db₁, db', rfl, hreaps, rfl, .inl ⟨cString k, o, hstores.stamped hinit, ?_,
                by rw [RedisDb.deadline, hexp]; rfl, hvalue, hcount⟩⟩
              exact .inr ⟨rfl, hreaps.value_self.trans hval, hfree⟩
      | some old =>
          by_cases htype : old.type = .string
          · obtain ⟨db₁, val, db', hreaps, hstores, -, hexp, hvalue, hcount, hset⟩ :=
              setCommand_replace (L := L) hargs hdb hval htype
            rw [hset] at h
            cases h
            refine ⟨db, db₁, db', rfl, hreaps, rfl, .inl ⟨k, val, hstores, .inl ⟨rfl, ?_⟩,
              by rw [RedisDb.deadline, hexp]; rfl, hvalue, hcount⟩⟩
            rw [hreaps.value_self.trans hval]
            rfl
          · obtain ⟨db₁, hreaps, hset⟩ := setCommand_wrongType (L := L) hargs hdb hval htype
            rw [hset] at h
            cases h
            exact ⟨db, db₁, db₁, rfl, hreaps, rfl,
              .inr ⟨⟨old, hreaps.value_self.trans hval, htype⟩, rfl⟩⟩

theorem setCommand_touches (hr : r.Calls "set")
    (h : setCommand L (r.arrives server) (r.called cmd) = .ok (server', rc')) :
    r.Touches server.dbs server'.dbs ∧ server'.commands = server.commands := by
  by_cases hargc : (r.called cmd).argc = 3
  · obtain ⟨k, v, hops⟩ := r.operands_of_argc hargc
    have hargs := Request.called_operands hops cmd
    obtain ⟨db, db₁, db', hdb, hreaps, rfl, ⟨k', o, ho, hkey, hdead, hvalue, hcount⟩ | ⟨-, rfl⟩⟩ :=
      setCommand_returns hargs h
    · exact ⟨.inr ⟨db, db', hdb, .store hr hops hreaps ho hkey hdead hvalue hcount, rfl⟩, rfl⟩
    · exact ⟨.inr ⟨db, db', hdb, .lookup hreaps, rfl⟩, rfl⟩
  · unfold setCommand at h
    rw [if_pos hargc] at h
    cases h
    exact ⟨.inl rfl, rfl⟩

theorem getCommand_touches
    (h : getCommand L (r.arrives server) (r.called cmd) = .ok (server', rc')) :
    r.Touches server.dbs server'.dbs ∧ server'.commands = server.commands := by
  by_cases hargc : (r.called cmd).argc = 2
  · obtain ⟨k, hops⟩ := r.operand_of_argc hargc
    have hargs := Request.called_operands hops cmd
    cases hdb : server.dbs[r.client.dbid]? with
    | none =>
        obtain ⟨key, hkey, htext, -⟩ := hargs.argvAt (i := 1) rfl
        unfold getCommand at h
        rw [if_neg (not_not.mpr hargc), hkey, Run.ok_bind,
          lookupKey_missing htext (r.db_called cmd hdb)] at h
        cases h
    | some db =>
        obtain ⟨db₁, hreaps, hget⟩ := getCommand_ok (L := L) hargs (r.db_called cmd hdb)
        rw [hget] at h
        cases h
        exact ⟨.inr ⟨db, db₁, hdb, .lookup hreaps, rfl⟩, rfl⟩
  · unfold getCommand at h
    rw [if_pos hargc] at h
    cases h
    exact ⟨.inl rfl, rfl⟩

theorem expireCommand_touches (hr : r.Calls "expire")
    (h : expireCommand L (r.arrives server) (r.called cmd) = .ok (server', rc')) :
    r.Touches server.dbs server'.dbs ∧ server'.commands = server.commands := by
  by_cases hargc : (r.called cmd).argc = 3
  · obtain ⟨k, s, hops⟩ := r.operands_of_argc hargc
    have hargs := Request.called_operands hops cmd
    cases hdb : server.dbs[r.client.dbid]? with
    | none =>
        rw [expireCommand_missing hargs (r.db_called cmd hdb)] at h
        split at h <;> cases h
        exact ⟨.inl rfl, rfl⟩
    | some db =>
        rw [expireCommand_eq hargs (r.db_called cmd hdb)] at h
        split at h
        · cases h
          exact ⟨.inl rfl, rfl⟩
        · next seconds _ =>
            split at h
            · cases h
              exact ⟨.inl rfl, rfl⟩
            · next hkey =>
                cases hdead : db.deadline k with
                | none =>
                    obtain ⟨db', hset, hkeys, hdead'⟩ :=
                      dbSetExpire_new hdead (expireDeadline (r.arrives server) seconds)
                    rw [hset] at h
                    cases h
                    refine ⟨.inr ⟨db, db', hdb, ?_, rfl⟩, rfl⟩
                    exact .expire hr hops (Option.isSome_iff_ne_none.mpr hkey) hdead hkeys hdead'
                | some w =>
                    rw [dbSetExpire_existing (by rw [hdead]; rfl)] at h
                    cases h
                    refine ⟨.inl ?_, rfl⟩
                    obtain ⟨hlt, rfl⟩ := List.getElem?_eq_some_iff.mp hdb
                    exact List.set_getElem_self hlt
  · unfold expireCommand at h
    rw [if_pos hargc] at h
    rw [replyWrongArity_server h]
    exact ⟨.inl rfl, rfl⟩

/-- A request for one of the commands on keys. -/
def Request.OnKeys (r : Request) : Prop := r.Calls "set" ∨ r.Calls "get" ∨ r.Calls "expire"

theorem Request.serve_eq_ok :
    r.serve L E server = .ok server' ↔ ∃ rc', r.execute L E server = .ok (server', rc') := by
  unfold serve
  cases r.execute L E server with
  | error f => simp [Except.map]
  | ok p => simp [Except.map, Prod.ext_iff]

/-- What no command writes is behind a request what it was when the request arrived. -/
theorem Request.serve_keeps {β : Type} {f : Server → β}
    (hf : ∀ server dbs, f { server with dbs := dbs } = f server) (hE : E.Keeps f)
    (h : r.serve L E server = .ok server') :
    f server' = f (r.arrives server) := by
  obtain ⟨rc', h⟩ := Request.serve_eq_ok.mp h
  rw [Request.execute_eq] at h
  split at h
  · cases h
    rfl
  · exact CommandProc.run_keeps hf hE h

/-- **What a request for a command on keys does.** -/
theorem Request.serve_touches (hready : server.Ready) (hr : r.OnKeys)
    (h : r.serve L E server = .ok server') :
    r.Touches server.dbs server'.dbs ∧ server'.Ready := by
  obtain ⟨rc', h⟩ := Request.serve_eq_ok.mp h
  have hboth : r.Touches server.dbs server'.dbs ∧ server'.commands = server.commands := by
    rcases hr with hr | hr | hr
    · rw [r.execute_set hready hr] at h
      exact setCommand_touches hr h
    · rw [r.execute_get hready hr] at h
      exact getCommand_touches h
    · rw [r.execute_expire hready hr] at h
      exact expireCommand_touches hr h
  refine ⟨hboth.1, ?_⟩
  unfold Server.Ready
  rw [hboth.2]
  exact hready

/-! ## The other commands

They leave the databases alone, if code that is loaded at run time does. -/

/-- Loaded code registers commands of its own and keeps its hands off the databases. -/
structure Extension.Passive (E : Extension) : Prop where
  load : ∀ server path args, (E.moduleLoad server path args).1.dbs = server.dbs ∧
    ∃ cmds, (E.moduleLoad server path args).1.commands = server.commands ++ cmds ∧
      ∀ cmd ∈ cmds, ∃ n, cmd.proc = .dispatcher (.other n)
  func : ∀ {n server rc server' reply}, E.func n server rc = .ok (server', reply) →
    server'.dbs = server.dbs ∧ server'.commands = server.commands

theorem Extension.absent_passive : Extension.absent.Passive where
  load server _ _ := ⟨rfl, [], (List.append_nil _).symm, by simp⟩
  func h := by cases h; exact ⟨rfl, rfl⟩

/-- The databases are the same, and so is the table up to new commands of modules. -/
def Server.Keeps (server server' : Server) : Prop :=
  server'.dbs = server.dbs ∧ ∃ cmds, server'.commands = server.commands ++ cmds ∧
    ∀ cmd ∈ cmds, ∃ n, cmd.proc = .dispatcher (.other n)

theorem Server.Keeps.refl (server : Server) : server.Keeps server :=
  ⟨rfl, [], (List.append_nil _).symm, by simp⟩

theorem moduleCommand_keeps (hE : E.Passive) {rc : RedisClient}
    (h : moduleCommand L E server rc = .ok (server', rc')) : server.Keeps server' := by
  obtain rfl | ⟨path, args, rfl⟩ := moduleCommand_cases h
  · exact .refl server'
  · exact hE.load server path args

/-- A command that is looked up is one of the table under its own name, or one of another
module. -/
theorem Server.Ready.lookup_cases (hready : server.Ready) {name : Bytes}
    (h : commandManagerLookup server name = some cmd) :
    (cmd ∈ redisCommandTable ++ latteModuleCommands ∧ name.map lower = cmd.name.map lower) ∨
      ∃ n, cmd.proc = .dispatcher (.other n) := by
  obtain ⟨cmds, heq, hother⟩ := hready
  have hname := List.find?_some h
  have hmem := List.mem_of_find?_eq_some h
  rw [heq, List.mem_append] at hmem
  rcases hmem with hmem | hmem
  · exact .inl ⟨hmem, (of_decide_eq_true hname).symm⟩
  · exact .inr (hother cmd hmem)

/-- **What any request does.** -/
theorem Request.serve_cases (hE : E.Passive) (hready : server.Ready)
    (h : r.serve L E server = .ok server') :
    (r.Touches server.dbs server'.dbs) ∧ server'.Ready := by
  by_cases hr : r.OnKeys
  · exact Request.serve_touches hready hr h
  · obtain ⟨rc', h⟩ := Request.serve_eq_ok.mp h
    have hkeeps : (r.arrives server).Keeps server' := by
      rw [Request.execute_eq] at h
      cases hl : commandManagerLookup server r.name with
      | none =>
          rw [hl] at h
          cases h
          exact .refl _
      | some cmd =>
          rw [hl] at h
          dsimp only at h
          rcases hready.lookup_cases hl with ⟨hmem, hname⟩ | ⟨n, hproc⟩
          · simp only [redisCommandTable, latteModuleCommands, List.cons_append, List.nil_append,
              List.mem_cons, List.not_mem_nil, or_false] at hmem
            rcases hmem with rfl | rfl | rfl | rfl | rfl | rfl | rfl
            · cases h
              exact .refl _
            · exact moduleCommand_keeps hE h
            · rw [pingCommand_server h]
              exact .refl _
            · cases h
              exact .refl _
            · exact absurd (.inr (.inr hname)) hr
            · exact absurd (.inl hname) hr
            · exact absurd (.inr (.inl hname)) hr
          · rw [hproc] at h
            obtain ⟨⟨server₁, reply⟩, hfunc, h⟩ := Run.bind_eq_ok.mp h
            cases h
            obtain ⟨hdbs, hcmds⟩ := hE.func hfunc
            exact ⟨hdbs, [], by rw [hcmds, List.append_nil], by simp⟩
    obtain ⟨hdbs, cmds, hcmds, hother⟩ := hkeeps
    refine ⟨.inl hdbs, ?_⟩
    obtain ⟨cmds₀, heq, hother₀⟩ := hready
    refine ⟨cmds₀ ++ cmds, ?_, ?_⟩
    · rw [hcmds, show (r.arrives server).commands = server.commands from rfl, heq,
        List.append_assoc]
    · intro cmd hcmd
      rcases List.mem_append.mp hcmd with hcmd | hcmd
      · exact hother₀ cmd hcmd
      · exact hother cmd hcmd

/-! ## Runs -/

/-- A request whose effect is known: one for a command on keys, or any request at all if
loaded code keeps its hands off the databases. -/
def Request.Known (E : Extension) (r : Request) : Prop := r.OnKeys ∨ E.Passive

theorem Request.Known.touches (hr : r.Known E) (hready : server.Ready)
    (h : r.serve L E server = .ok server') : r.Touches server.dbs server'.dbs ∧ server'.Ready :=
  hr.elim (fun hr ↦ Request.serve_touches hready hr h) fun hE ↦ Request.serve_cases hE hready h

/-- **Invariants of databases.**  What every effect preserves holds of every database in
every run. -/
theorem Request.serveAll_invariant {I : RedisDb → Prop}
    (hI : ∀ {r db db'}, Effect r db db' → I db → I db') {rs : List Request}
    (hrs : ∀ r ∈ rs, r.Known E) (hready : server.Ready) (h₀ : ∀ db ∈ server.dbs, I db)
    (h : Request.serveAll L E server rs = .ok server') :
    server'.Ready ∧ ∀ db ∈ server'.dbs, I db := by
  refine Run.invariant (P := fun s : Server ↦ s.Ready ∧ ∀ db ∈ s.dbs, I db)
    (Q := fun r : Request ↦ r.Known E) ?_ hrs ⟨hready, h₀⟩ h
  rintro s r s' hr ⟨hs, hdbs⟩ hserve
  obtain ⟨hsame | ⟨db, db', hdb, heff, hset⟩, hs'⟩ := hr.touches hs hserve
  · rw [hsame]
    exact ⟨hs', hdbs⟩
  · refine ⟨hs', ?_⟩
    intro db₁ hdb₁
    rw [hset] at hdb₁
    rcases List.mem_or_eq_of_mem_set hdb₁ with hmem | rfl
    · exact hdbs db₁ hmem
    · exact hI heff (hdbs db (List.mem_of_getElem? hdb))

/-- A request of a client that is at database `dbid` and has sent the strings given. -/
def Request.of (dbid : Nat) (clock : Clock) (name : Bytes) (operands : List Bytes) : Request where
  client := { RedisClient.idle with
    dbid := dbid
    argc := (name :: operands).length
    argv := .live ⟨(name :: operands).length, (name :: operands).map latteObjectNew⟩ }
  name := name
  operands := operands
  clock := clock
  holds := by
    refine ⟨rfl, _, _, rfl, ?_, ?_⟩
    · rw [List.map_map]
      exact List.map_id _
    · intro o ho
      obtain ⟨s, -, rfl⟩ := List.mem_map.mp ho
      exact isText_latteObjectNew s

end LatteRedis
