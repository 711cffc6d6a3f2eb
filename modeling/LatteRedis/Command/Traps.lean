import LatteRedis.Command.Accesses
import LatteRedis.Config
import LatteRedis.Keyspace.Request

/-!
# Settings that make commands trap

Two settings are used by commands without being checked: `lru_clock` divides by `hz`, and
every access to a database takes the address `server->dbs + c->dbid`.  Clients are at
database `0` and stay there.  Both settings may be zero, as far as their rules go.  The
server then starts like any other, and the first `SET` divides by zero, or the first `GET`
looks for a database behind the end of an empty array.

`ServerConfig.trapFree_iff` says that zero is all that can go wrong: with any other admitted values no run
of commands traps.
-/

namespace LatteRedis

open ByteString Traced

variable (L : LatteC) (E : Extension)

namespace Request

/-- `process_command` at the time of the request, with its accesses. -/
def accesses (server : Server) (r : Request) : Accessing Server := do
  emit (.argv 0)
  match commandManagerLookup server r.name with
  | none => return r.arrives server
  | some cmd => do
      let (server, _) ← Access.run L E cmd.proc (r.arrives server) (r.called cmd)
      return server

/-- A run of the server, with its accesses. -/
def accessesAll (server : Server) (rs : List Request) : Accessing Server :=
  rs.foldlM (accesses L E) server

end Request

variable {L E}

/-- These are the requests of every other run. -/
theorem Request.accesses_result (server : Server) (r : Request) :
    (r.accesses L E server).result = r.serve L E server := by
  unfold accesses serve
  rw [Request.execute_eq, result_bind, result_emit, Run.ok_bind]
  cases commandManagerLookup server r.name with
  | none => rfl
  | some cmd =>
      simp only [result_bind, Access.run_result, result_pure]
      cases cmd.proc.run L E (r.arrives server) (r.called cmd) <;> rfl

/-- The server `start_redis_server` makes of a configuration. -/
def ServerConfig.server (config : ServerConfig) (clock : Clock) : Server :=
  startRedisServer config.dbNum.toNat config.hz clock

/-- The division is by a number, and the database is one of those there are. -/
def ServerConfig.NoTrap (config : ServerConfig) : Access → Prop
  | .argv _ => True
  | .db dbid => (dbid : Int) < config.dbNum
  | .divide hz => hz ≠ 0

/-- Loaded code does not write `server->hz`. -/
structure Extension.KeepsHz (E : Extension) : Prop where
  load : ∀ server path args, (E.moduleLoad server path args).1.hz = server.hz
  func : ∀ {n server rc server' reply}, E.func n server rc = .ok (server', reply) →
    server'.hz = server.hz

theorem Extension.absent_keepsHz : Extension.absent.KeepsHz where
  load _ _ _ := rfl
  func h := by cases h; rfl

variable {server server' : Server} {rc rc' : RedisClient}

/-- `hz` is one of the settings no command of the server's own writes. -/
theorem Extension.KeepsHz.keeps (hE : E.KeepsHz) : E.Keeps Server.hz := ⟨hE.load, hE.func⟩

/-! ## Runs -/

theorem Access.run_all {P : Access → Prop} (hargv : ∀ i, P (.argv i)) (hdb : P (.db rc.dbid))
    (hdiv : P (.divide server.hz)) (proc : CommandProc) : All P (Access.run L E proc server rc) := by
  match proc with
  | .quit | .info | .dispatcher (.other n) => exact .lift _
  | .module => exact moduleCommand_all (hargv 1) (fun _ ↦ hargv 0) fun _ ↦ hargv 2
  | .ping => exact pingCommand_all fun _ _ ↦ hargv 1
  | .expire => exact expireCommand_all hdb fun _ ↦ ⟨hargv 1, hargv 2⟩
  | .dispatcher .set => exact setCommand_all (fun _ ↦ ⟨hargv 1, hargv 2⟩) hdb hdiv
  | .dispatcher .get => exact getCommand_all (fun _ ↦ hargv 1) hdb

/-- One request, of a client at database `0`. -/
theorem Request.accesses_noTrap (hE : E.KeepsHz) {config : ServerConfig} (hhz : config.hz ≠ 0)
    (hdb : 0 < config.dbNum) (hserver : server.hz = config.hz) {r : Request}
    (hr : r.client.dbid = 0) :
    All config.NoTrap (r.accesses L E server) ∧
      ∀ {server'}, (r.accesses L E server).result = .ok server' → server'.hz = config.hz := by
  constructor
  · refine .bind (all_emit.mpr trivial) ?_
    intro _ _
    split
    · exact .pure _
    · next cmd _ =>
        refine .bind (Access.run_all (fun _ ↦ trivial) ?_ ?_ cmd.proc) fun _ _ ↦ .pure _
        · show ((r.client.dbid : Nat) : Int) < config.dbNum
          rw [hr]
          exact hdb
        · show server.hz ≠ 0
          rw [hserver]
          exact hhz
  · intro server' h
    rw [Request.accesses_result] at h
    rw [Request.serve_keeps (fun _ _ ↦ rfl) hE.keeps h]
    exact hserver

/-! ## The runs that trap -/

/-- `GET k`, of a client that has just connected. -/
def getRequest (clock : Clock) : Request := .of 0 clock (ascii "get") [ascii "k"]

/-- `SET k v`, of a client that has just connected. -/
def setRequest (clock : Clock) : Request := .of 0 clock (ascii "set") [ascii "k", ascii "v"]

/-- The accesses of a command are among those of its request. -/
theorem Request.accesses_command {P : Access → Prop} {r : Request} {cmd : RedisCommand}
    (hlookup : commandManagerLookup server r.name = some cmd)
    (h : All P (r.accesses L E server)) :
    All P (Access.run L E cmd.proc (r.arrives server) (r.called cmd)) := by
  have hmatch := h.of_bind_right (a := ()) rfl
  rw [hlookup] at hmatch
  exact hmatch.of_bind

/-- `GET` takes the address of its database. -/
theorem getRequest_db {P : Access → Prop} (hready : server.Ready) (clock : Clock)
    (h : All P ((getRequest clock).accesses L E server)) : P (.db 0) := by
  have hcalls : (getRequest clock).Calls "get" := by
    show (ascii "get").map lower = ascii "get"
    decide
  have hget := Request.accesses_command
    (hready.lookup ⟨ascii "get", .dispatcher .get⟩ hcalls (by decide)) h
  have hlookup := (hget.of_bind_right (a := latteObjectNew (ascii "k")) rfl).of_bind
  exact all_emit.mp (hlookup.of_bind_right (a := ascii "k") rfl).of_bind

/-- `SET` of a new key divides by `hz`, if there is a database to add it to. -/
theorem setRequest_divide {P : Access → Prop} {dbNum : Nat} (hz : Int) (clock : Clock)
    (hdb : 0 < dbNum)
    (h : All P ((setRequest clock).accesses L E (startRedisServer dbNum hz clock))) :
    P (.divide hz) := by
  obtain ⟨n, rfl⟩ : ∃ n, dbNum = n + 1 := ⟨dbNum - 1, by omega⟩
  have hcalls : (setRequest clock).Calls "set" := by
    show (ascii "set").map lower = ascii "set"
    decide
  have hset := Request.accesses_command ((startRedisServer_ready (n + 1) hz clock).lookup
    ⟨ascii "set", .dispatcher .set⟩ hcalls (by decide)) h
  have hlookup := hset.of_bind_right (a := latteObjectNew (ascii "k")) rfl
  have hread := hlookup.of_bind_right (a := (startRedisServer (n + 1) hz clock, none)) rfl
  have hadd := (hread.of_bind_right (a := latteObjectNew (ascii "v")) rfl).of_bind
  have hinternal := (hadd.of_bind_right (a := ()) rfl).of_bind_right
    (a := ⟨.create 0 _ true, .create 0 _ true⟩) rfl
  have hraw := hinternal.of_bind.of_bind_right (a := ascii "k") rfl
  have hinit := (hraw.of_bind_right rfl).of_bind
  have hpolicy : ¬(startRedisServer (n + 1) hz clock).maxmemoryPolicy &&& maxmemoryFlagLfu ≠ 0 :=
    show ¬(0 : BitVec 32) &&& maxmemoryFlagLfu ≠ 0 by decide
  rw [Access.initObjectLruOrLfu, if_neg (by decide), if_neg hpolicy] at hinit
  exact all_emit.mp hinit.of_bind.of_bind

/-- No run of commands traps, whatever the clients at database `0` send and whenever. -/
def ServerConfig.TrapFree (L : LatteC) (E : Extension) (config : ServerConfig) : Prop :=
  ∀ (clock : Clock) (rs : List Request), (∀ r ∈ rs, r.client.dbid = 0) →
    All config.NoTrap (Request.accessesAll L E (config.server clock) rs)

/-- An admitted configuration keeps commands from trapping exactly if it leaves neither
setting at zero. -/
theorem ServerConfig.trapFree_iff (L : LatteC) (E : Extension) (hE : E.KeepsHz)
    (config : ServerConfig) (h : config.Admitted) :
    config.TrapFree L E ↔ config.hz ≠ 0 ∧ config.dbNum ≠ 0 := by
  have hdbNum : 0 ≤ config.dbNum :=
    (h ⟨"db-num", dbNum, 0, 65535, 16⟩ (by simp [numericRules])).1
  constructor
  · intro hfree
    have hdb : config.dbNum ≠ 0 := by
      intro hzero
      have hall := hfree ⟨0, 0, 0⟩ [getRequest ⟨0, 0, 0⟩] (by simp [getRequest, Request.of])
      have hlt : ((0 : Nat) : Int) < config.dbNum :=
        getRequest_db (startRedisServer_ready ..) _ hall.of_bind
      omega
    refine ⟨?_, hdb⟩
    have hall := hfree ⟨0, 0, 0⟩ [setRequest ⟨0, 0, 0⟩] (by simp [setRequest, Request.of])
    exact setRequest_divide config.hz _ (by omega) hall.of_bind
  · rintro ⟨hhz, hdb⟩ clock rs hrs
    have hstart : (config.server clock).hz = config.hz := rfl
    exact All.foldlM (I := fun s : Server ↦ s.hz = config.hz)
      (Q := fun r : Request ↦ r.client.dbid = 0)
      (fun hs hr ↦ Request.accesses_noTrap hE hhz (by omega) hs hr) hrs hstart

theorem ServerConfig.trapFree_iff_default :
    Extension.absent.KeepsHz ∧ Admitted {} ∧
      (TrapFree .sample .absent {} ↔
        ({} : ServerConfig).hz ≠ 0 ∧ ({} : ServerConfig).dbNum ≠ 0) :=
  ⟨Extension.absent_keepsHz, by decide,
    trapFree_iff .sample .absent Extension.absent_keepsHz {} (by decide)⟩

/-- `hz 0` is admitted, and `SET k v` divides by it; `db-num 0` is admitted, and `GET k`
takes the address of a database that is not there. -/
theorem ServerConfig.not_trapFree_zero :
    Admitted { hz := 0 } ∧ ¬TrapFree .sample .absent { hz := 0 } ∧
      Admitted { dbNum := 0 } ∧ ¬TrapFree .sample .absent { dbNum := 0 } := by
  refine ⟨by decide, ?_, by decide, ?_⟩
  · intro hfree
    have hdivide := hfree ⟨0, 0, 0⟩ [setRequest ⟨0, 0, 0⟩] (by simp [setRequest, Request.of])
      (.divide 0) (by decide +kernel)
    exact hdivide rfl
  · intro hfree
    have haccess := hfree ⟨0, 0, 0⟩ [getRequest ⟨0, 0, 0⟩] (by simp [getRequest, Request.of])
      (.db 0) (by decide +kernel)
    exact absurd (show ((0 : Nat) : Int) < 0 from haccess) (by decide)

end LatteRedis
