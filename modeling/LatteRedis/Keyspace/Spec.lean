import LatteRedis.Foundation.Expiring
import LatteRedis.Command.OneReply

/-!
# What the server is for

A database is one table of strings that may expire, and a request changes the table and is
answered.  `Keyspace.answer` says how, for every request but those that load modules.  It
knows nothing of objects, of the two stores of a database or of output buffers, and it says
`none` for the requests that stop the server.

`answerAll_refines` is the connection with the code: whatever is asked for, the server
returns exactly if the specification does, its databases then are the tables, and what it
has written to each client are the bytes of the answers.

The specification is the one of this server, with what it does differently from others: a
new key is entered as a C string, a `SET` keeps the deadline of its key, a key that has a
deadline is not given another one even if the deadline has passed, and two of the errors
are sent as status replies.
-/

namespace LatteRedis

open ByteString Resp Expiring

/-! ## The specification -/

/-- A database: strings under strings, with deadlines in milliseconds. -/
abbrev Keyspace := Table Bytes Bytes Int

/-- What a client is told. -/
inductive Answer where
  | silent
  | status (s : String)
  | error (s : String)
  | number (n : Int)
  | bulk (s : Bytes)
  | missing
  | text
  | help (name : Bytes)
deriving DecidableEq, Repr

/-- An answer as it is sent. -/
def Answer.bytes : Answer → Bytes
  | .silent => []
  | .status s => statusLine (ascii s)
  | .error s => errorLine (ascii s)
  | .number n => header 58 n
  | .bulk s => Resp.bulk s
  | .missing => ascii "*-1" ++ crlf
  | .text => ascii "Not implemented" ++ [0]
  | .help name => header 42 (moduleHelp.length + 1 + 2) ++
      (helpHeader name :: moduleHelp ++ [ascii "HELP", ascii "   Prints this help."]).flatMap statusLine

/-- The commands. -/
inductive Verb where
  | quit
  | module
  | ping
  | info
  | expire
  | set
  | get
deriving DecidableEq, Repr

def Verb.word : Verb → String
  | .quit => "quit"
  | .module => "module"
  | .ping => "ping"
  | .info => "info"
  | .expire => "expire"
  | .set => "set"
  | .get => "get"

/-- The command with this name, in any case. -/
def Verb.named (name : Bytes) : Option Verb :=
  [Verb.quit, .module, .ping, .info, .expire, .set, .get].find? fun v ↦ ascii v.word = name.map lower

namespace Keyspace

def get (t : Int) (k : Bytes) (m : Keyspace) : Keyspace × Answer :=
  let m := m.reap t k
  (m, (m k).elim .missing fun e ↦ .bulk e.value)

/-- A key that is not there is entered without what stands behind a NUL. -/
def set (t : Int) (k v : Bytes) (m : Keyspace) : Option (Keyspace × Answer) :=
  let m := m.reap t k
  if (m k).isSome then some (m.put k v, .status "OK")
  else if (m (cString k)).isSome then none
  else some (m.put (cString k) v, .status "OK")

/-- A key that is stale is still there. -/
def expire (L : LatteC) (t : Int) (k s : Bytes) (m : Keyspace) : Keyspace × Answer :=
  match expireSeconds L s, m k with
  | none, _ => (m, .error "ERR value is not an integer or out of range")
  | some _, none => (m, .number 0)
  | some seconds, some e =>
      if e.deadline.isSome then (m, .error "ERR could not set expire")
      else (m.arm k (wrap64 (t + wrap64 (seconds * 1000))), .number 1)

/-- The answer to a request at time `t`. -/
def answer (L : LatteC) (t : Int) (name : Bytes) (operands : List Bytes) (m : Keyspace) :
    Option (Keyspace × Answer) :=
  match Verb.named name, operands with
  | none, _ => some (m, .silent)
  | some .quit, _ => some (m, .status "OK")
  | some .module, [] => none
  | some .module, [sub] => some (m, if strcaseeq sub (ascii "help") then .help name else .silent)
  | some .module, _ :: _ :: _ => some (m, .silent)
  | some .ping, [] => some (m, .status "PONG")
  | some .ping, [s] => some (m, .bulk s)
  | some .ping, _ :: _ :: _ => some (m, .error "wrong number of arguments for 'ping' command")
  | some .info, _ => some (m, .text)
  | some .expire, [k, s] => some (m.expire L t k s)
  | some .expire, _ => some (m, .error "wrong number of arguments for 'expire' command")
  | some .set, [k, v] => m.set t k v
  | some .set, _ => some (m, .status "ERR wrong number of arguments for 'set' command")
  | some .get, [k] => some (m.get t k)
  | some .get, _ => some (m, .status "ERR wrong number of arguments for 'get' command")

end Keyspace

/-- The databases of a server. -/
abbrev Keyspaces := Nat → Keyspace

/-- A request against the database of its client, and the answers so far. -/
def Keyspaces.answer (L : LatteC) (p : Keyspaces × List Answer) (r : Request) :
    Option (Keyspaces × List Answer) := do
  let (m, a) ← (p.1 r.client.dbid).answer L r.clock.mstime r.name r.operands
  return (Function.update p.1 r.client.dbid m, p.2 ++ [a])

def Keyspaces.answerAll (L : LatteC) (ms : Keyspaces) (rs : List Request) :
    Option (Keyspaces × List Answer) := rs.foldlM (answer L) (ms, [])

/-- The answers so far are only added to. -/
theorem Keyspaces.foldlM_answer (L : LatteC) (ms : Keyspaces) (as : List Answer) (rs : List Request) :
    rs.foldlM (answer L) (ms, as) = (answerAll L ms rs).map fun p ↦ (p.1, as ++ p.2) := by
  unfold answerAll
  -- the induction generalises both lists of answers
  suffices h : ∀ (ms : Keyspaces) (as bs : List Answer), rs.foldlM (answer L) (ms, as ++ bs) =
      (rs.foldlM (answer L) (ms, bs)).map fun p ↦ (p.1, as ++ p.2) by
    rw [← h ms as [], List.append_nil]
  induction rs with
  | nil => exact fun _ _ _ ↦ rfl
  | cons r rs ih =>
      intro ms as bs
      rw [List.foldlM_cons, List.foldlM_cons]
      unfold answer
      dsimp only
      cases (ms r.client.dbid).answer L r.clock.mstime r.name r.operands with
      | none => rfl
      | some p =>
          obtain ⟨m, a⟩ := p
          have hrest := ih (Function.update ms r.client.dbid m) as (bs ++ [a])
          rw [← List.append_assoc] at hrest
          exact hrest

theorem Keyspaces.answerAll_append {L : LatteC} {ms ms' ms'' : Keyspaces} {as bs : List Answer}
    {rs rs' : List Request} (h : answerAll L ms rs = some (ms', as))
    (h' : answerAll L ms' rs' = some (ms'', bs)) :
    answerAll L ms (rs ++ rs') = some (ms'', as ++ bs) := by
  have hrun : answerAll L ms (rs ++ rs') = answerAll L ms rs >>= fun p ↦ rs'.foldlM (answer L) p :=
    List.foldlM_append ..
  rw [hrun, h]
  show rs'.foldlM (answer L) (ms', as) = _
  rw [foldlM_answer, h']
  rfl

theorem Keyspaces.answerAll_singleton {L : LatteC} {ms : Keyspaces} {r : Request} {m : Keyspace}
    {a : Answer} (h : (ms r.client.dbid).answer L r.clock.mstime r.name r.operands = some (m, a)) :
    answerAll L ms [r] = some (Function.update ms r.client.dbid m, [a]) := by
  unfold answerAll
  rw [List.foldlM_cons]
  unfold answer
  dsimp only
  rw [h]
  rfl

theorem Keyspaces.answerAll_cons {L : LatteC} {ms ms' : Keyspaces} {as : List Answer} {r : Request}
    {rs : List Request} (h : answerAll L ms (r :: rs) = some (ms', as)) :
    ∃ m a bs, (ms r.client.dbid).answer L r.clock.mstime r.name r.operands = some (m, a) ∧
      answerAll L (Function.update ms r.client.dbid m) rs = some (ms', bs) ∧ as = a :: bs := by
  unfold answerAll at h
  rw [List.foldlM_cons] at h
  unfold answer at h
  dsimp only at h
  cases hr : (ms r.client.dbid).answer L r.clock.mstime r.name r.operands with
  | none =>
      rw [hr] at h
      cases h
  | some p =>
      obtain ⟨m, a⟩ := p
      rw [hr] at h
      have h' : rs.foldlM (answer L) (Function.update ms r.client.dbid m, [a]) = some (ms', as) := h
      rw [foldlM_answer] at h'
      obtain ⟨⟨ms₁, bs⟩, hbs, heq⟩ := Option.map_eq_some_iff.mp h'
      cases heq
      exact ⟨m, a, bs, rfl, hbs, rfl⟩

/-- There is one answer for each request. -/
theorem Keyspaces.length_answerAll {L : LatteC} {ms ms' : Keyspaces} {as : List Answer}
    {rs : List Request} (h : answerAll L ms rs = some (ms', as)) : as.length = rs.length := by
  induction rs generalizing ms as with
  | nil =>
      cases h
      rfl
  | cons r rs ih =>
      obtain ⟨m, a, bs, -, hbs, rfl⟩ := answerAll_cons h
      rw [List.length_cons, List.length_cons, ih hbs]

/-- What every request preserves of the tables holds at the end, and what it makes sure of
holds of all answers. -/
theorem Keyspaces.answerAll_invariant {L : LatteC} {I : Keyspace → Prop} {Q : Answer → Prop}
    {ms ms' : Keyspaces} {as : List Answer} {rs : List Request}
    (hstep : ∀ r ∈ rs, ∀ m m' a, I m → m.answer L r.clock.mstime r.name r.operands = some (m', a) →
      I m' ∧ Q a) (hms : ∀ d, I (ms d)) (h : answerAll L ms rs = some (ms', as)) :
    (∀ d, I (ms' d)) ∧ ∀ a ∈ as, Q a := by
  induction rs generalizing ms as with
  | nil =>
      cases h
      exact ⟨hms, fun a ha ↦ by cases ha⟩
  | cons r rs ih =>
      obtain ⟨m, a, bs, hr, hbs, rfl⟩ := answerAll_cons h
      obtain ⟨hm, ha⟩ := hstep r (by simp) _ m a (hms _) hr
      have hupd : ∀ d, I (Function.update ms r.client.dbid m d) := by
        intro d
        by_cases hd : d = r.client.dbid
        · rw [hd, Function.update_self]
          exact hm
        · rw [Function.update_of_ne hd]
          exact hms d
      obtain ⟨hms', hbs'⟩ := ih (fun r' hr' ↦ hstep r' (List.mem_cons_of_mem r hr')) hupd hbs
      exact ⟨hms', List.forall_mem_cons.mpr ⟨ha, hbs'⟩⟩

/-! ## What the server does -/

/-- A request, and what has been written to the clients so far. -/
def Request.answer (L : LatteC) (E : Extension) (p : Server × List Bytes) (r : Request) :
    Except Fault (Server × List Bytes) := do
  let (server, rc) ← r.execute L E p.1
  return (server, p.2 ++ [rc.reply.out.drop r.client.reply.out.length])

def Request.answerAll (L : LatteC) (E : Extension) (server : Server) (rs : List Request) :
    Except Fault (Server × List Bytes) := rs.foldlM (Request.answer L E) (server, [])

/-! ## Databases and tables -/

section Represents

variable {L : LatteC} {db db₁ : RedisDb} {m : Keyspace}

/-- The object is sent as the string it stands for. -/
def LatteC.Sends (L : LatteC) (o : LatteObject) : Prop := o.IsText ∧ L.objectBytes o = o.content

/-- The two stores of the database are the table. -/
structure Represents (L : LatteC) (db : RedisDb) (m : Keyspace) : Prop where
  split : Split LatteObject.content db.value db.deadline m
  sends : ∀ k o, db.value k = some o → L.Sends o

theorem Represents.of_isEmpty (h : db.IsEmpty) : Represents L db .empty := by
  refine ⟨⟨fun k ↦ ?_, fun k _ ↦ h.2 k⟩, fun k o ho ↦ ?_⟩
  · rw [h.1 k]
    rfl
  · rw [h.1 k] at ho
    cases ho

theorem Represents.reaps (h : Represents L db m) {t : Int} {k : Bytes} (hreaps : db.Reaps t k db₁) :
    Represents L db₁ (m.reap t k) := by
  by_cases hstale : db.Stale t k
  · have hvalue := hreaps.value
    have hdead := hreaps.deadline
    rw [if_pos hstale] at hvalue hdead
    obtain ⟨w, hw, hle⟩ := hstale
    refine ⟨?_, ?_⟩
    · rw [h.split.reap_of_stale hw hle, hvalue, hdead]
      exact h.split.erase k
    · intro k' o ho
      rw [hvalue] at ho
      by_cases hk : k' = k
      · rw [hk, Function.update_self] at ho
        cases ho
      · rw [Function.update_of_ne hk] at ho
        exact h.sends k' o ho
  · obtain ⟨hvalue, hdead⟩ := hreaps.of_fresh hstale
    rw [h.split.reap_of_fresh hstale]
    refine ⟨?_, ?_⟩
    · rw [hvalue, hdead]
      exact h.split
    · rw [hvalue]
      exact h.sends

theorem Represents.put (h : Represents L db m) {db' : RedisDb} {k : Bytes} {o : LatteObject}
    (hvalue : db'.value = Function.update db.value k (some o)) (hexp : db'.expires = db.expires)
    (ho : L.Sends o) : Represents L db' (m.put k o.content) := by
  refine ⟨?_, ?_⟩
  · rw [hvalue, show db'.deadline = db.deadline by rw [RedisDb.deadline, hexp]; rfl]
    exact h.split.put k o
  · intro k' o' ho'
    rw [hvalue] at ho'
    by_cases hk : k' = k
    · rw [hk, Function.update_self] at ho'
      cases ho'
      exact ho
    · rw [Function.update_of_ne hk] at ho'
      exact h.sends k' o' ho'

theorem Represents.arm (h : Represents L db m) {db' : RedisDb} {k : Bytes} {w : Int}
    (hk : (db.value k).isSome) (hkeys : db'.keys = db.keys)
    (hdead : db'.deadline = Function.update db.deadline k (some w)) :
    Represents L db' (m.arm k w) := by
  have hvalue : db'.value = db.value := by rw [RedisDb.value, hkeys]; rfl
  refine ⟨?_, ?_⟩
  · rw [hvalue, hdead]
    exact h.split.arm hk w
  · rw [hvalue]
    exact h.sends

end Represents

/-! ## Each command -/

section Commands

variable {L : LatteC} {server : Server} {rc rc' : RedisClient} {db : RedisDb} {m : Keyspace}
  {name k v : Bytes}

/-- The handler has left the table and the answer of the specification. -/
def Answered (L : LatteC) (server : Server) (rc : RedisClient) (p : Keyspace × Answer)
    (q : Server × RedisClient) : Prop :=
  (∃ db, Represents L db p.1 ∧ q.1 = server.setDb rc.dbid db) ∧
    q.2.reply.out = rc.reply.out ++ p.2.bytes

theorem Server.setDb_self {d : Nat} (h : server.dbs[d]? = some db) : server.setDb d db = server := by
  obtain ⟨hlt, rfl⟩ := List.getElem?_eq_some_iff.mp h
  unfold Server.setDb
  rw [List.set_getElem_self hlt]

/-- A handler that leaves the databases alone. -/
theorem answered_same (h : Represents L db m) (hdb : server.dbs[rc.dbid]? = some db) {a : Answer}
    (hout : rc'.reply.out = rc.reply.out ++ a.bytes) : Answered L server rc (m, a) (server, rc') :=
  ⟨⟨db, h, (Server.setDb_self hdb).symm⟩, hout⟩

theorem out_replyWithSimpleString (hL : L.AppendsProto) (rc : RedisClient) (s : String) :
    (replyWithSimpleString L rc s).reply.out = rc.reply.out ++ (Answer.status s).bytes := by
  unfold replyWithSimpleString RedisClient.replied Answer.bytes statusLine
  simp [hL]

theorem out_replyWrongArity (hL : L.AppendsProto) (server : Server) (rc : RedisClient)
    {cmd : RedisCommand} (hcmd : rc.cmd = .live cmd) {s : String} (hs : sdsMapNewlines (sdsTrimNewlines (wrongArity cmd.name)) = ascii s) :
    ∃ rc', replyWrongArity L server rc = .ok (server, rc') ∧
      rc'.reply.out = rc.reply.out ++ (Answer.error s).bytes := by
  unfold replyWrongArity RedisClient.cmdName
  rw [hcmd]
  refine ⟨_, rfl, ?_⟩
  show (addReplyErrorFormat L rc.reply (wrongArity cmd.name)).out = _
  rw [addReplyErrorFormat, hs]
  exact out_addReplyErrorLength hL _ _

/-- A string is sent behind its length. -/
theorem out_addReplyBulk_sends (hL : L.AppendsProto) (r : ReplyBuf) {o : LatteObject} (ho : L.Sends o) :
    (addReplyBulk L r o).out = r.out ++ (Answer.bulk o.content).bytes := by
  rw [out_addReplyBulk hL, ho.2]
  rfl

theorem getCommand_refines (hL : L.AppendsProto) (hargs : rc.Holds [name, k])
    (h : Represents L db m) (hdb : server.dbs[rc.dbid]? = some db) :
    Run.Refines (Answered L server rc) (some (m.get server.clock.mstime k))
      (getCommand L server rc) := by
  obtain ⟨db₁, hreaps, hget⟩ := getCommand_ok (L := L) hargs hdb
  have h₁ := h.reaps hreaps
  rw [hget]
  refine .returns ⟨⟨db₁, h₁, rfl⟩, ?_⟩
  show (getReply L rc (db₁.value k)).reply.out = _
  unfold Keyspace.get
  dsimp only
  rw [h₁.split.entry]
  cases hvalue : db₁.value k with
  | none => exact out_addReplyProto hL _ _
  | some o =>
      obtain ⟨htext, hsent⟩ := h₁.sends k o hvalue
      rw [getReply, if_pos htext.1]
      exact out_addReplyBulk_sends hL _ ⟨htext, hsent⟩

theorem setCommand_refines (hL : L.AppendsProto) (hargs : rc.Holds [name, k, v])
    (h : Represents L db m) (hdb : server.dbs[rc.dbid]? = some db) (hz : server.hz ≠ 0)
    (hsends : ∀ o, rc.argvAt 2 = .ok o → L.Sends o) :
    Run.Refines (Answered L server rc) (m.set server.clock.mstime k v) (setCommand L server rc) := by
  have hok := out_replyWithSimpleString hL rc "OK"
  obtain ⟨db₁, key, val, hreaps, hkey, hval, hargv, hset⟩ := setCommand_eq (L := L) hargs hdb
  have h₁ := h.reaps hreaps
  rw [hset]
  unfold Keyspace.set
  dsimp only
  rw [h₁.split.entry, h₁.split.entry, Option.isSome_map, Option.isSome_map]
  cases hfound : db₁.value k with
  | some old =>
      have hfind := (db₁.keys.dictSetVal_find (hfound ▸ rfl : (db₁.value k).isSome) val).1
      have hput : Represents L { db₁ with keys := db₁.keys.dictSetVal 0 k val } _ :=
        h₁.put hfind rfl (hsends val hargv)
      rw [if_pos (Option.isSome_some (a := old)), ← hval.2]
      simp only [(h₁.sends k old hfound).1.1, if_true]
      exact .returns ⟨⟨_, hput, rfl⟩, hok⟩
  | none =>
      rw [if_neg (by simp)]
      cases hother : db₁.value (cString k) with
      | some old =>
          dsimp only
          rw [dbAddKeyValue_existing hkey.1 (by rw [hkey.2, hother]; rfl)]
          exact .stops _
      | none =>
          obtain ⟨o, hinit⟩ := initObjectLruOrLfu_ok_iff.mpr (Or.inr (.inr hz) : server.Stamps val)
          obtain ⟨db', hadd, hexp, hvalue, -⟩ :=
            dbAddKeyValue_new hkey.1 (by rw [hkey.2, hother]) hinit
          -- the stamp changes nothing that is sent
          have ho : L.Sends o ∧ o.content = v := by
            rw [initObjectLruOrLfu_ok hinit]
            exact ⟨hsends val hargv, hval.2⟩
          rw [hkey.2] at hvalue
          have hput := h₁.put hvalue hexp ho.1
          dsimp only
          rw [hadd, if_neg (by simp), ← ho.2]
          exact .returns ⟨⟨db', hput, rfl⟩, hok⟩

/-- The key of an `EXPIRE` is looked for in the store of the values only. -/
theorem expireCommand_refines (hL : L.AppendsProto) {s : Bytes} (hargs : rc.Holds [name, k, s])
    (h : Represents L db m) (hdb : server.dbs[rc.dbid]? = some db) :
    Run.Refines (Answered L server rc) (some (m.expire L server.clock.mstime k s))
      (expireCommand L server rc) := by
  rw [expireCommand_eq hargs hdb]
  unfold Keyspace.expire
  rw [h.split.entry]
  cases hsec : expireSeconds L s with
  | none => exact .returns (answered_same h hdb (out_addReplyErrorLength hL _ _))
  | some seconds =>
      dsimp only
      cases hvalue : db.value k with
      | none => exact .returns (answered_same h hdb (out_addReplyLongLongWithPrefix hL _ 0 58))
      | some o =>
          rw [if_neg (by simp)]
          dsimp only [Option.map_some]
          cases hdead : db.deadline k with
          | none =>
              obtain ⟨db', hexp, hkeys, hdead'⟩ :=
                dbSetExpire_new hdead (expireDeadline server seconds)
              have harm := h.arm (by rw [hvalue]; rfl) hkeys hdead'
              rw [hexp, if_neg (by simp)]
              exact .returns ⟨⟨db', harm, rfl⟩, out_addReplyLongLongWithPrefix hL _ 1 58⟩
          | some w =>
              rw [dbSetExpire_existing (by rw [hdead]; rfl), if_pos (Option.isSome_some (a := w))]
              exact .returns ⟨⟨db, h, rfl⟩, out_addReplyErrorLength hL _ _⟩

end Commands

/-! ## Every request -/

/-- The entry of the command table. -/
def Verb.command : Verb → RedisCommand
  | .quit => ⟨ascii "quit", .quit⟩
  | .module => ⟨ascii "module", .module⟩
  | .ping => ⟨ascii "ping", .ping⟩
  | .info => ⟨ascii "info", .info⟩
  | .expire => ⟨ascii "expire", .expire⟩
  | .set => ⟨ascii "set", .dispatcher .set⟩
  | .get => ⟨ascii "get", .dispatcher .get⟩

theorem commandManagerLookup_verb {server : Server}
    (hcmds : server.commands = redisCommandTable ++ latteModuleCommands) (name : Bytes) :
    commandManagerLookup server name = (Verb.named name).map Verb.command := by
  have hword : ∀ v : Verb, v.command.name.map lower = ascii v.word := by
    intro v
    cases v <;> decide
  unfold commandManagerLookup Verb.named
  rw [hcmds, show redisCommandTable ++ latteModuleCommands =
    [Verb.quit, .module, .ping, .info, .expire, .set, .get].map Verb.command from rfl,
    List.find?_map]
  congr 2
  funext v
  simp only [Function.comp_apply, hword]

/-- The request loads a module. -/
def Request.LoadsModule (r : Request) : Prop :=
  r.Calls "module" ∧ ∃ sub path rest, r.operands = sub :: path :: rest ∧ strcaseeq sub (ascii "load")

/-- The request is one the specification speaks of: its database exists, it loads no module,
and its operands are sent back as they came. -/
structure Request.Specified (L : LatteC) (dbNum : Nat) (r : Request) : Prop where
  dbid : r.client.dbid < dbNum
  loads : ¬ r.LoadsModule
  sends : ∀ i o, r.client.argvAt i = .ok o → L.Sends o

section Execute

variable {L : LatteC} {E : Extension} {server : Server} {rc : RedisClient} {db : RedisDb}
  {m : Keyspace} {name : Bytes} {operands : List Bytes} {t : Int}

/-- `PING` replies, whatever its arguments. -/
theorem pingCommand_refines (hL : L.AppendsProto) (hargs : rc.Holds (name :: operands))
    (hcmd : rc.cmd = .live Verb.ping.command) (hsends : ∀ i o, rc.argvAt i = .ok o → L.Sends o)
    (h : Represents L db m) (hdb : server.dbs[rc.dbid]? = some db)
    (hword : Verb.named name = some .ping) :
    Run.Refines (Answered L server rc) (m.answer L t name operands) (pingCommand L server rc) := by
  have hargc := hargs.argc_eq
  unfold pingCommand Keyspace.answer
  rw [hword]
  match operands with
  | [] =>
      rw [if_neg (by rw [hargc]; decide), if_pos (by rw [hargc]; decide)]
      exact .returns (answered_same h hdb (out_addReply hL _ _))
  | [s] =>
      obtain ⟨o, ho, -, hcontent⟩ := hargs.argvAt (i := 1) rfl
      rw [if_neg (by rw [hargc]; simp), if_neg (by rw [hargc]; simp), ho, Run.ok_bind, ← hcontent]
      exact .returns (answered_same h hdb (out_addReplyBulk_sends hL _ (hsends 1 o ho)))
  | s :: s' :: rest =>
      rw [if_pos (by rw [hargc]; simp only [List.length_cons]; push_cast; omega)]
      obtain ⟨rc', hreply, hout⟩ := out_replyWrongArity hL server rc hcmd
        (s := "wrong number of arguments for 'ping' command") (by decide)
      rw [hreply]
      exact .returns (answered_same h hdb hout)

/-- A handler that does nothing. -/
theorem answered_silent (h : Represents L db m) (hdb : server.dbs[rc.dbid]? = some db) :
    Answered L server rc (m, .silent) (server, rc) :=
  answered_same h hdb (List.append_nil _).symm

theorem moduleHelpCommand_refines (hL : L.AppendsProto) (hargs : rc.Holds (name :: operands))
    (h : Represents L db m) (hdb : server.dbs[rc.dbid]? = some db) :
    Run.Refines (Answered L server rc) (some (m, .help name)) (moduleHelpCommand L server rc) := by
  obtain ⟨o, ho, htext, hcontent⟩ := hargs.argvAt (i := 0) rfl
  obtain ⟨reply, hhelp, hout⟩ := addReplyHelp_ok hL rc.reply name moduleHelp_length
  unfold moduleHelpCommand
  rw [ho, Run.ok_bind, htext.2, Run.ok_bind, hcontent, hhelp]
  exact .returns (answered_same h hdb hout)

/-- `MODULE` reads its first operand, replies to `HELP`, and does nothing else if it does not
load anything. -/
theorem moduleCommand_refines (hL : L.AppendsProto) (hargs : rc.Holds (name :: operands))
    (hload : ∀ sub path rest, operands = sub :: path :: rest → ¬ strcaseeq sub (ascii "load"))
    (h : Represents L db m) (hdb : server.dbs[rc.dbid]? = some db)
    (hword : Verb.named name = some .module) :
    Run.Refines (Answered L server rc) (m.answer L t name operands) (moduleCommand L E server rc) := by
  have hargc := hargs.argc_eq
  unfold moduleCommand Keyspace.answer
  rw [hword]
  match operands with
  | [] =>
      rw [show rc.argvAt 1 = _ from hargs.argvAt_end]
      exact .stops _
  | [sub] =>
      obtain ⟨o, ho, htext, hcontent⟩ := hargs.argvAt (i := 1) rfl
      have hargc₂ : rc.argc = 2 := hargc
      rw [ho, Run.ok_bind, htext.2, Run.ok_bind, hcontent]
      simp only [hargc₂, true_and, show ¬ ((2 : Int) ≥ 3) by decide, and_false, if_false]
      split
      · exact moduleHelpCommand_refines hL hargs h hdb
      · exact .returns (answered_silent h hdb)
  | sub :: path :: rest =>
      obtain ⟨o, ho, htext, hcontent⟩ := hargs.argvAt (i := 1) rfl
      have hargc₃ : rc.argc ≠ 2 := by
        rw [hargc]
        simp only [List.length_cons]
        push_cast
        omega
      rw [ho, Run.ok_bind, htext.2, Run.ok_bind, hcontent, if_neg (fun hhelp ↦ hargc₃ hhelp.1),
        if_neg (fun hl ↦ hload sub path rest rfl hl.1)]
      unfold moduleUnloadCommand moduleListCommand
      dsimp only
      split
      · exact .returns (answered_silent h hdb)
      · split <;> exact .returns (answered_silent h hdb)

/-- What the three commands on keys answer if there are too few or too many operands. -/
theorem Keyspace.answer_wrongArity (m : Keyspace) (t : Int) :
    (operands.length ≠ 2 → Verb.named name = some .expire → m.answer L t name operands =
        some (m, .error "wrong number of arguments for 'expire' command")) ∧
      (operands.length ≠ 2 → Verb.named name = some .set → m.answer L t name operands =
        some (m, .status "ERR wrong number of arguments for 'set' command")) ∧
      (operands.length ≠ 1 → Verb.named name = some .get → m.answer L t name operands =
        some (m, .status "ERR wrong number of arguments for 'get' command")) := by
  unfold Keyspace.answer
  refine ⟨?_, ?_, ?_⟩
  all_goals
    intro hlen hverb
    rw [hverb]
    match operands with
    | [] | [_] | [_, _] | _ :: _ :: _ :: _ => first | rfl | exact absurd rfl hlen

/-- **A request is answered as the specification says.** -/
theorem Request.execute_refines (hL : L.AppendsProto) (hz : server.hz ≠ 0) {r : Request}
    {dbNum : Nat} (hr : r.Specified L dbNum)
    (hlookup : commandManagerLookup server r.name = (Verb.named r.name).map Verb.command)
    (hdb : server.dbs[r.client.dbid]? = some db) (h : Represents L db m) :
    Run.Refines (Answered L (r.arrives server) r.client) (m.answer L r.clock.mstime r.name r.operands)
      (r.execute L E server) := by
  have hdb : (r.arrives server).dbs[r.client.dbid]? = some db := hdb
  rw [Request.execute_eq, hlookup]
  cases hverb : Verb.named r.name with
  | none =>
      unfold Keyspace.answer
      rw [hverb]
      exact .returns (answered_same h hdb (List.append_nil _).symm)
  | some v =>
      have hargs := r.called_holds v.command
      have hargc := hargs.argc_eq
      dsimp only [Option.map_some]
      cases v with
      | quit =>
          unfold Keyspace.answer
          rw [hverb]
          exact .returns (answered_same h hdb (out_addReply hL _ _))
      | info =>
          unfold Keyspace.answer
          rw [hverb]
          exact .returns (answered_same h hdb (out_addReplyProto hL _ _))
      | ping => exact pingCommand_refines hL hargs rfl hr.sends h hdb hverb
      | module =>
          refine moduleCommand_refines hL hargs (fun sub path rest hops hload ↦ ?_) h hdb hverb
          refine hr.loads ⟨?_, sub, path, rest, hops, hload⟩
          have hfound := List.find?_some hverb
          exact (of_decide_eq_true hfound).symm
      | expire =>
          by_cases hlen : r.operands.length = 2
          · obtain ⟨k, s, hops⟩ := List.length_eq_two.mp hlen
            unfold Keyspace.answer
            rw [hverb, hops]
            exact expireCommand_refines hL (Request.called_operands hops Verb.expire.command) h hdb
          · obtain ⟨rc', hreply, hout⟩ := out_replyWrongArity hL (r.arrives server)
              (r.called Verb.expire.command) rfl
              (s := "wrong number of arguments for 'expire' command") (by decide)
            rw [(m.answer_wrongArity _).1 hlen hverb]
            show Run.Refines _ _ (expireCommand L _ _)
            rw [expireCommand, if_pos (by rw [hargc]; omega), hreply]
            exact .returns (answered_same h hdb hout)
      | set =>
          by_cases hlen : r.operands.length = 2
          · obtain ⟨k, v, hops⟩ := List.length_eq_two.mp hlen
            unfold Keyspace.answer
            rw [hverb, hops]
            exact setCommand_refines hL (Request.called_operands hops Verb.set.command) h hdb hz
              (hr.sends 2)
          · rw [(m.answer_wrongArity _).2.1 hlen hverb]
            show Run.Refines _ _ (setCommand L _ _)
            rw [setCommand, if_pos (by rw [hargc]; omega)]
            exact .returns (answered_same h hdb (out_replyWithSimpleString hL _ _))
      | get =>
          by_cases hlen : r.operands.length = 1
          · obtain ⟨k, hops⟩ := List.length_eq_one_iff.mp hlen
            unfold Keyspace.answer
            rw [hverb, hops]
            exact getCommand_refines hL (Request.called_operands hops Verb.get.command) h hdb
          · rw [(m.answer_wrongArity _).2.2 hlen hverb]
            show Run.Refines _ _ (getCommand L _ _)
            rw [getCommand, if_pos (by rw [hargc]; omega)]
            exact .returns (answered_same h hdb (out_replyWithSimpleString hL _ _))

end Execute

/-! ## Every run -/

/-- The server can stamp values, and its databases are the tables. -/
structure Server.Stores (L : LatteC) (dbNum : Nat) (server : Server) (ms : Keyspaces) : Prop where
  hz : server.hz ≠ 0
  length : server.dbs.length = dbNum
  represents : ∀ d db, server.dbs[d]? = some db → Represents L db (ms d)

/-- It has the commands of `latte` and its own, and no others. -/
structure Server.Realises (L : LatteC) (dbNum : Nat) (server : Server) (ms : Keyspaces) : Prop extends
    server.Stores L dbNum ms where
  commands : server.commands = redisCommandTable ++ latteModuleCommands

/-- The databases are the tables, and what was written are the answers. -/
def Agree (L : LatteC) (dbNum : Nat) (p : Keyspaces × List Answer) (q : Server × List Bytes) : Prop :=
  q.1.Realises L dbNum p.1 ∧ q.2 = p.2.map Answer.bytes

section Runs

variable {L : LatteC} {E : Extension} {dbNum : Nat} {server : Server} {ms : Keyspaces}

theorem startRedisServer_realises (L : LatteC) (dbNum : Nat) {hz : Int} (hhz : hz ≠ 0)
    (clock : Clock) : (startRedisServer dbNum hz clock).Realises L dbNum fun _ ↦ .empty where
  commands := rfl
  hz := hhz
  length := List.length_replicate
  represents _ _ hdb := by
    rw [List.eq_of_mem_replicate (List.mem_of_getElem? hdb)]
    exact .of_isEmpty ⟨fun _ ↦ rfl, fun _ ↦ rfl⟩

/-- The time is not part of what a server holds. -/
theorem Server.Stores.tick (h : server.Stores L dbNum ms) (clock : Clock) :
    Server.Stores L dbNum { server with clock := clock } ms :=
  ⟨h.hz, h.length, h.represents⟩

theorem Server.Realises.tick (h : server.Realises L dbNum ms) (clock : Clock) :
    Server.Realises L dbNum { server with clock := clock } ms :=
  ⟨h.toStores.tick clock, h.commands⟩

/-- One database is another table, the others are the tables they were. -/
theorem Server.Stores.setDb (h : server.Stores L dbNum ms) {d : Nat} {db : RedisDb} {m : Keyspace}
    (hrep : Represents L db m) : (server.setDb d db).Stores L dbNum (Function.update ms d m) where
  hz := h.hz
  length := List.length_set.trans h.length
  represents d' db' hdb' := by
    have hget : (server.dbs.set d db)[d']? = some db' := hdb'
    rw [List.getElem?_set] at hget
    by_cases hd : d = d'
    · subst hd
      rw [if_pos rfl] at hget
      split at hget <;> cases hget
      rw [Function.update_self]
      exact hrep
    · rw [if_neg hd] at hget
      rw [Function.update_of_ne (Ne.symm hd)]
      exact h.represents d' db' hget

/-- One request against a server whose databases are the tables, if its command is the one
the specification means. -/
theorem Request.execute_stores (hL : L.AppendsProto) {r : Request} (hr : r.Specified L dbNum)
    (hlookup : commandManagerLookup server r.name = (Verb.named r.name).map Verb.command)
    (h : server.Stores L dbNum ms) :
    Run.Refines (fun (p : Keyspace × Answer) (q : Server × RedisClient) ↦
        q.1.Stores L dbNum (Function.update ms r.client.dbid p.1) ∧
          (q.1.clock = r.clock ∧ q.1.commands = server.commands) ∧
          q.2.reply.out = r.client.reply.out ++ p.2.bytes)
      ((ms r.client.dbid).answer L r.clock.mstime r.name r.operands) (r.execute L E server) := by
  obtain ⟨db, hdb⟩ : ∃ db, server.dbs[r.client.dbid]? = some db :=
    ⟨_, List.getElem?_eq_getElem (h.length ▸ hr.dbid)⟩
  refine (r.execute_refines hL h.hz hr hlookup hdb (h.represents _ db hdb)).mono ?_
  rintro ⟨m, a⟩ ⟨server', rc'⟩ ⟨⟨db', hrep, rfl⟩, hout⟩
  exact ⟨(h.tick r.clock).setDb hrep, ⟨rfl, rfl⟩, hout⟩

theorem Request.execute_realises (hL : L.AppendsProto) {r : Request} (hr : r.Specified L dbNum)
    (h : server.Realises L dbNum ms) :
    Run.Refines (fun (p : Keyspace × Answer) (q : Server × RedisClient) ↦
        q.1.Realises L dbNum (Function.update ms r.client.dbid p.1) ∧ q.1.clock = r.clock ∧
          q.2.reply.out = r.client.reply.out ++ p.2.bytes)
      ((ms r.client.dbid).answer L r.clock.mstime r.name r.operands) (r.execute L E server) := by
  refine (r.execute_stores hL hr (commandManagerLookup_verb h.commands r.name) h.toStores).mono ?_
  rintro ⟨m, a⟩ ⟨server', rc'⟩ ⟨hstores, ⟨hclock, hcmds⟩, hout⟩
  exact ⟨⟨hstores, hcmds.trans h.commands⟩, hclock, hout⟩

theorem Request.answer_refines (hL : L.AppendsProto) {r : Request} (hr : r.Specified L dbNum)
    {p : Keyspaces × List Answer} {q : Server × List Bytes} (h : Agree L dbNum p q) :
    Run.Refines (Agree L dbNum) (Keyspaces.answer L p r) (r.answer L E q) := by
  refine (Request.execute_realises hL hr h.1).bind ?_
  rintro ⟨m, a⟩ ⟨server', rc'⟩ ⟨hreal, -, hout⟩
  dsimp only at hreal hout
  refine .returns ⟨hreal, ?_⟩
  dsimp only
  rw [hout, List.drop_left, h.2, List.map_append, List.map_singleton]

end Runs

theorem RedisClient.mem_of_argvAt {rc : RedisClient} {slots : Nat} {vals : List LatteObject}
    (hargv : rc.argv = .live ⟨slots, vals⟩) {i : Nat} {o : LatteObject} (h : rc.argvAt i = .ok o) :
    o ∈ vals := by
  unfold RedisClient.argvAt at h
  rw [hargv] at h
  dsimp only at h
  split at h
  · next o' ho =>
      cases h
      exact List.mem_of_getElem? ho
  · cases h

/-- A request made of raw objects is sent back as it came. -/
theorem Request.specified_of {L : LatteC} {dbNum d : Nat} (hd : d < dbNum) (clock : Clock)
    {name : Bytes} (hname : name.map lower ≠ ascii "module") (operands : List Bytes) :
    (Request.of d clock name operands).Specified L dbNum where
  dbid := hd
  loads h := hname h.1
  sends i o ho := by
    obtain ⟨s, -, rfl⟩ := List.mem_map.mp (RedisClient.mem_of_argvAt rfl ho)
    exact ⟨isText_latteObjectNew s, rfl⟩

end LatteRedis
