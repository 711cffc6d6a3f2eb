import LatteRedis.Client.Procs
import LatteRedis.Command.Handlers

/-!
# Closing a connection (`quit_command`, `free_redis_client_async`)

Neither of the two functions closes anything.  Each sets a bit in `client.flags`, which
`redis_process_input_buffer` tests at the top of every iteration, and which nothing clears
again.  `Life` is a connection with the history of what was done to it: the procs it has
called, and the calls of `free_redis_client_async`.
-/

namespace LatteRedis

open ByteString

/-- A client that is not connected and used by Lua. -/
def clientLua : BitVec 32 := 1 <<< 8

/-- `c->flag & CLIENT_LUA`. -/
def RedisClient.isLua (rc : RedisClient) : Bool := rc.flag &&& clientLua ≠ 0

/-- The client afterwards, and whether it was put on `server->clients_to_close`. -/
def freeRedisClientAsync (rc : RedisClient) : RedisClient × Bool :=
  if rc.closeAsap ∨ rc.isLua then (rc, false) else ({ rc with closeAsap := true }, true)

/-! ## Connections with a history -/

/-- What is done to a connection, with the client it is done to. -/
inductive ConnEvent where
  | proc (rc : RedisClient)
  | freeAsync (rc : RedisClient)

namespace ConnEvent

/-- A command proc is called. -/
def IsProc : ConnEvent → Prop
  | .proc _ => True
  | .freeAsync _ => False

/-- `quit_command` or `free_redis_client_async` is called. -/
def IsClose : ConnEvent → Prop
  | .proc rc => ∃ cmd, rc.cmd = .live cmd ∧ cmd.proc = .quit
  | .freeAsync _ => True

/-- A call of one of the two, and if it is the second, for a client that is not one of
Lua's. -/
def Closes : ConnEvent → Prop
  | .proc rc => ∃ cmd, rc.cmd = .live cmd ∧ cmd.proc = .quit
  | .freeAsync rc => rc.isLua = false

end ConnEvent

variable {σ : Type} (M : Machine σ)

/-- The proc the iteration that starts in `c` calls, as events. -/
def procEvents (c : Conn σ) : List ConnEvent := (procClient M c).toList.map .proc

/-- `Life M c₀ p events c`: starting between reads in `c₀`, by any reads and after
`events`, the connection is in `c` at `p`, or the process has stopped.  The rest of the
server may change the server state between two reads, and may call
`free_redis_client_async` at any time.  A handler that calls it acts as if the call came
right after it, since nothing looks at the bit before the next iteration. -/
inductive Life (c₀ : Conn σ) : Option Place → List ConnEvent → Conn σ → Prop
  | start : Life c₀ (some .idle) [] c₀
  | server {events c} (s : σ) : Life c₀ (some .idle) events c →
      Life c₀ (some .idle) events { c with server := s }
  | freeAsync {p events c} : Life c₀ (some p) events c →
      Life c₀ (some p) (events ++ [.freeAsync c.rc]) { c with rc := (freeRedisClientAsync c.rc).1 }
  | read {events c} (chunk : Bytes) : Life c₀ (some .idle) events c →
      Life c₀ (some .top) events (deliver chunk c)
  | again {events c executed c'} : Life c₀ (some .top) events c →
      loopBody M c = .ok (.again executed c') →
      Life c₀ (some .top) (events ++ procEvents M c) c'
  | stop {events c ret c'} : Life c₀ (some .top) events c →
      loopBody M c = .ok (.stop ret c') →
      Life c₀ (some .idle) (events ++ procEvents M c) (dropConsumed ret c')
  | fault {events c f} : Life c₀ (some .top) events c → loopBody M c = .error f →
      Life c₀ none (events ++ procEvents M c) c

/-- An iteration ends in one way or another, and its proc is in the history. -/
theorem Life.iterate {c₀ c : Conn σ} {events : List ConnEvent}
    (h : Life M c₀ (some .top) events c) :
    ∃ p c', Life M c₀ p (events ++ procEvents M c) c' := by
  cases hb : loopBody M c with
  | error f => exact ⟨_, _, h.fault hb⟩
  | ok it =>
      cases it with
      | stop ret c' => exact ⟨_, _, h.stop hb⟩
      | again executed c' => exact ⟨_, _, h.again hb⟩

/-! ## The bit stays set -/

/-- One of the two bits is set. -/
def RedisClient.Closing (rc : RedisClient) : Prop :=
  rc.closeAfterReply = true ∨ rc.closeAsap = true

theorem RedisClient.Closing.freeRedisClientAsync {rc : RedisClient} (h : rc.Closing) :
    (freeRedisClientAsync rc).1.Closing := by
  unfold LatteRedis.freeRedisClientAsync
  split
  · exact h
  · exact .inr rfl

/-- The function does what it is for unless the client is one of Lua's. -/
theorem freeRedisClientAsync_closing {rc : RedisClient} (h : rc.isLua = false) :
    (freeRedisClientAsync rc).1.Closing := by
  unfold LatteRedis.freeRedisClientAsync
  split
  · next hskip =>
      refine .inr (hskip.resolve_right ?_)
      rw [h]
      exact Bool.false_ne_true
  · exact .inr rfl

theorem RedisClient.Closing.dropConsumed {c : Conn σ} (h : c.rc.Closing) (ret : Int) :
    (dropConsumed ret c).rc.Closing := by
  unfold LatteRedis.dropConsumed
  split <;> exact h

/-- Resetting a client leaves its bits as they are. -/
theorem RedisClient.Closing.resetRedisClient {rc rc' : RedisClient} (h : rc.Closing)
    (hreset : resetRedisClient rc = .ok rc') : rc'.Closing := by
  unfold LatteRedis.resetRedisClient at hreset
  split at hreset
  · cases hreset
  · obtain ⟨rc₁, hfree, hreset⟩ := Run.bind_eq_ok.mp hreset
    unfold freeClientArgv at hfree
    split at hfree <;> cases hfree
    cases hreset
    exact h

variable {M}

/-- A connection that is to be closed does nothing more. -/
theorem procEvents_of_closing {c : Conn σ} (h : c.rc.Closing) : procEvents M c = [] := by
  rw [procEvents, procClient_of_closed (.inr h)]
  rfl

theorem loopBody_of_closing {c : Conn σ} {it : Iter σ} (h : c.rc.Closing)
    (hb : loopBody M c = .ok it) : it.conn = c := by
  obtain ⟨-, rfl⟩ | ⟨⟨-, hreply, hasap⟩, -⟩ := loopBody_cases hb
  · rfl
  · rcases h with h | h
    · rw [hreply] at h
      cases h
    · rw [hasap] at h
      cases h

/-! ## `QUIT` -/

variable {L : LatteC} {E : Extension} {stack : Nat → Int}

/-- An iteration that calls `quit_command` leaves its bit set. -/
theorem loopBody_quit {c : Conn Server} {it : Iter Server} {rc : RedisClient} {cmd : RedisCommand}
    (hrc : procClient (machine L E stack) c = some rc) (hcmd : rc.cmd = .live cmd)
    (hquit : cmd.proc = .quit) (hb : loopBody (machine L E stack) c = .ok it) :
    it.conn.rc.Closing := by
  obtain ⟨hclosed, -⟩ | ⟨⟨hu, hreply, hasap⟩, code, c₁, hp, hrest⟩ := loopBody_cases hb
  · rw [procClient_of_closed hclosed] at hrc
    cases hrc
  · rw [procClient_of_parse hu hreply hasap hp] at hrc
    obtain ⟨hne, -⟩ | ⟨-, hargc, -⟩ | ⟨-, -, code₂, c₂, hexec, rfl⟩ := hrest
    · rw [if_pos (.inl hne)] at hrc
      cases hrc
    · rw [if_pos (.inr hargc)] at hrc
      cases hrc
    · split at hrc
      · cases hrc
      · rw [Iter.conn_ite]
        obtain ⟨-, o, name, ho, hname, hcases⟩ := processCommandAndResetClient_cases hexec
        rw [calledClient_eq ho hname] at hrc
        obtain ⟨hlookup, -⟩ | ⟨cmd', server, rc₁, rc₂, hlookup, hproc, hreset, rfl⟩ := hcases
        · rw [hlookup] at hrc
          cases hrc
        · rw [hlookup] at hrc
          cases hrc
          cases hcmd
          -- the proc that was called is the one of the command that was found
          change cmd.proc.run L E c₁.server _ = _ at hproc
          rw [hquit] at hproc
          cases hproc
          exact RedisClient.Closing.resetRedisClient (.inl rfl) hreset

theorem loopBody_closes {c : Conn Server} {it : Iter Server} {e : ConnEvent}
    (he : e ∈ procEvents (machine L E stack) c) (hcloses : e.Closes)
    (hb : loopBody (machine L E stack) c = .ok it) : it.conn.rc.Closing := by
  obtain ⟨rc, hrc, rfl⟩ := List.mem_map.mp he
  obtain ⟨cmd, hcmd, hquit⟩ := hcloses
  exact loopBody_quit (Option.mem_toList.mp hrc) hcmd hquit hb

/-! ## Nothing runs afterwards -/

/-- After `first` no proc is called. -/
def Silences (first later : ConnEvent) : Prop := first.Closes → ¬later.IsProc

/-- What holds in every state: a connection some event has closed is marked, and none of
the events that close it is followed by a call. -/
def Silent (events : List ConnEvent) (rc : RedisClient) : Prop :=
  ((∃ e ∈ events, e.Closes) → rc.Closing) ∧ events.Pairwise Silences

/-- A step adds its events: none of them is a call if the connection is marked, and they
mark it if one of them closes it. -/
theorem Silent.append {events new : List ConnEvent} {rc rc' : RedisClient} (h : Silent events rc)
    (hkeep : rc.Closing → rc'.Closing ∧ ∀ e ∈ new, ¬e.IsProc)
    (hnew : ∀ e ∈ new, e.Closes → rc'.Closing) (hpairs : new.Pairwise Silences) :
    Silent (events ++ new) rc' := by
  refine ⟨?_, List.pairwise_append.mpr ⟨h.2, hpairs, ?_⟩⟩
  · rintro ⟨e, he, hcloses⟩
    rcases List.mem_append.mp he with he | he
    · exact (hkeep (h.1 ⟨e, he, hcloses⟩)).1
    · exact hnew e he hcloses
  · intro e he e' he' hcloses
    exact (hkeep (h.1 ⟨e, he, hcloses⟩)).2 e' he'

/-- An iteration calls one proc at most. -/
theorem pairwise_procEvents (c : Conn σ) : (procEvents M c).Pairwise Silences := by
  unfold procEvents
  cases procClient M c with
  | none => exact .nil
  | some rc => exact List.pairwise_singleton _ _

theorem Silent.iterate {c : Conn Server} {events : List ConnEvent} {it : Iter Server}
    (h : Silent events c.rc) (hb : loopBody (machine L E stack) c = .ok it) :
    Silent (events ++ procEvents (machine L E stack) c) it.conn.rc := by
  refine h.append (fun hclosing ↦ ⟨?_, ?_⟩) (fun e he hcloses ↦ loopBody_closes he hcloses hb)
    (pairwise_procEvents c)
  · rwa [loopBody_of_closing hclosing hb]
  · rw [procEvents_of_closing hclosing]
    exact fun e he ↦ absurd he List.not_mem_nil

/-- Every state of every life of a connection; a fault ends it inside an iteration, so
only the second part is left. -/
theorem Life.silent {c₀ c : Conn Server} {p : Option Place} {events : List ConnEvent}
    (h : Life (machine L E stack) c₀ p events c) :
    events.Pairwise Silences ∧ (p ≠ none → Silent events c.rc) := by
  induction h with
  | start => exact ⟨.nil, fun _ ↦ ⟨by simp, .nil⟩⟩
  | server s _ ih => exact ⟨ih.1, fun _ ↦ ih.2 (by simp)⟩
  | @freeAsync p events c _ ih =>
      have hsilent : Silent (events ++ [.freeAsync c.rc]) (freeRedisClientAsync c.rc).1 := by
        refine (ih.2 (by simp)).append (fun hclosing ↦ ⟨hclosing.freeRedisClientAsync, ?_⟩) ?_
          (List.pairwise_singleton _ _)
        · intro e he
          rw [List.mem_singleton.mp he]
          exact not_false
        · intro e he hcloses
          rw [List.mem_singleton.mp he] at hcloses
          exact freeRedisClientAsync_closing hcloses
      exact ⟨hsilent.2, fun _ ↦ hsilent⟩
  | read chunk _ ih => exact ⟨ih.1, fun _ ↦ ih.2 (by simp)⟩
  | again _ hb ih =>
      have hsilent := (ih.2 (by simp)).iterate hb
      exact ⟨hsilent.2, fun _ ↦ hsilent⟩
  | @stop events c ret c' _ hb ih =>
      have hsilent := (ih.2 (by simp)).iterate hb
      exact ⟨hsilent.2, fun _ ↦ ⟨fun hclosed ↦ (hsilent.1 hclosed).dropConsumed ret, hsilent.2⟩⟩
  | @fault events c f _ hb ih =>
      refine ⟨List.pairwise_append.mpr ⟨ih.1, pairwise_procEvents c, ?_⟩, by simp⟩
      intro e he e' he' hcloses
      rw [procEvents_of_closing ((ih.2 (by simp)).1 ⟨e, he, hcloses⟩)] at he'
      cases he'

/-- **Nothing runs after `QUIT`.**  Whatever is read, and however it is cut into reads, no
proc is called after `quit_command`, nor after `free_redis_client_async` was called for a
client that is not one of Lua's. -/
theorem Life.nothing_after_close {c₀ c : Conn Server} {p : Option Place} {events : List ConnEvent}
    (h : Life (machine L E stack) c₀ p events c) :
    events.Pairwise fun first later ↦ first.Closes → ¬later.IsProc :=
  h.silent.1

/-- A `QUIT` with a `PING` right behind it. -/
def quitPing : Bytes := ascii "*1\r\n$4\r\nQUIT\r\n*1\r\n$4\r\nPING\r\n"

theorem Life.nothing_after_close_quitPing :
    ∃ p events c, Life sampleMachine freshConn p events c ∧ (∃ e ∈ events, e.Closes) ∧
      events.Pairwise fun first later ↦ first.Closes → ¬later.IsProc := by
  have htop : Life sampleMachine freshConn (some .top) [] (deliver quitPing freshConn) :=
    Life.start.read quitPing
  obtain ⟨p, c, hlife⟩ := htop.iterate sampleMachine
  refine ⟨p, _, c, hlife, ?_, hlife.nothing_after_close⟩
  have hquit : (procClient sampleMachine (deliver quitPing freshConn)).any fun rc ↦
      rc.cmd = .live ⟨ascii "quit", .quit⟩ := by
    decide +kernel
  obtain ⟨rc, hrc, hcmd⟩ := (Option.any_eq_true _ _).mp hquit
  refine ⟨.proc rc, ?_, _, of_decide_eq_true hcmd, rfl⟩
  rw [procEvents, hrc]
  exact List.mem_singleton_self _

/-- A client one of whose bits says that it is used by Lua. -/
def luaConn : Conn Server := { freshConn with rc := { RedisClient.idle with flag := clientLua } }

/-- `free_redis_client_async` returns at once for a client of Lua's, whose next request is
executed. -/
theorem Life.something_after_close_luaConn :
    ¬∀ p events c, Life sampleMachine luaConn p events c →
      events.Pairwise fun first later ↦ first.IsClose → ¬later.IsProc := by
  intro hall
  have htop : Life sampleMachine luaConn (some .top) [.freeAsync luaConn.rc]
      (deliver (ascii "*1\r\n$4\r\nPING\r\n") luaConn) :=
    Life.start.freeAsync.read _
  obtain ⟨p, c, hlife⟩ := htop.iterate sampleMachine
  have hping : (procClient sampleMachine
      (deliver (ascii "*1\r\n$4\r\nPING\r\n") luaConn)).isSome := by
    decide +kernel
  obtain ⟨rc, hrc⟩ := Option.isSome_iff_exists.mp hping
  have hpairs := hall p _ c hlife
  rw [procEvents, hrc] at hpairs
  exact (List.pairwise_append.mp hpairs).2.2 _ (List.mem_singleton_self _) _
    (List.mem_singleton_self _) trivial trivial

end LatteRedis
