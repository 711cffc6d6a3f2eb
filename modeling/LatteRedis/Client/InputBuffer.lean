import LatteRedis.Client.Parser

/-!
# The parse and execute loop (last part of `client.c`)

`loopBody` is one iteration of the loop in `redis_process_input_buffer`, and
`redisProcessInputBuffer` runs it with a bound on the number of iterations, since the
loop itself has none.  `serveRead` is what the library does with a read: it appends the
bytes to the query buffer, calls `redis_client_handle`, and drops the consumed prefix
when that returns `1`.

A connection is a client together with the server state it acts on.  It carries two
records the C program does not keep: the argument lists handlers were called with, and
the number of calls of `process_inline_buffer`, which selects the value its
uninitialised local variable has.
-/

namespace LatteRedis

open ByteString

/-- What the loop runs on: the library, the server, and the values
`process_inline_buffer` finds in `linefeed_chars`, one for each call. -/
structure Machine (σ : Type) where
  lib : LatteC
  backend : Backend σ
  stack : Nat → Int

/-- A client connection. -/
structure Conn (σ : Type) where
  rc : RedisClient
  server : σ
  /-- The argument lists of the handler calls made so far. -/
  calls : List (List Bytes) := []
  /-- The number of calls of `process_inline_buffer` made so far. -/
  inlineCalls : Nat := 0

variable {σ : Type} (M : Machine σ)

/-! ## Executing a request -/

/-- `process_command`, with `call` inlined. -/
def processCommand (c : Conn σ) : Except Fault (Int × Conn σ) := do
  let name ← (← c.rc.argvAt 0).ptr
  match M.backend.lookup c.server name with
  | none => return (-1, { c with rc := { c.rc with cmd := .null, lastcmd := .null } })
  | some cmd =>
      let rc := { c.rc with cmd := .live cmd, lastcmd := .live cmd }
      let (server, rc') ← M.backend.proc cmd c.server rc
      return (0, { c with
        rc := rc', server := server, calls := c.calls ++ [rc.args.map LatteObject.content] })

/-- `command_processed`, called when `process_command` has returned `0`. -/
def commandProcessed (code : Int) (c : Conn σ) : Except Fault (Conn σ) :=
  if code = 0 then (resetRedisClient c.rc).map fun rc ↦ { c with rc := rc } else .ok c

def processCommandAndResetClient (c : Conn σ) : Except Fault (Int × Conn σ) := do
  let (code, c) ← processCommand M c
  let c ← commandProcessed code c
  return (if M.backend.clientGone c.server then -1 else 0, c)

/-! ## The loop -/

/-- The protocol an iteration parses with: the one of the request it is in, or the one
the next byte announces. -/
def selectReqType (rc : RedisClient) : Int :=
  if rc.reqType = 0 then
    if rc.unread.head? = some 42 then protoReqMultibulk else protoReqInline
  else rc.reqType

def Conn.selected (c : Conn σ) : Conn σ := { c with rc := { c.rc with reqType := selectReqType c.rc } }

def parseRequest (c : Conn σ) : Except Fault (Int × Conn σ) :=
  if c.rc.reqType = protoReqInline then do
    let (code, rc) ← processInlineBuffer M.lib (M.backend.unixtime c.server)
      (M.stack c.inlineCalls) c.rc
    return (code, { c with rc := rc, inlineCalls := c.inlineCalls + 1 })
  else if c.rc.reqType = protoReqMultibulk then do
    let (code, rc) ← processMultibulkBuffer M.lib c.rc
    return (code, { c with rc := rc })
  else .error (.panic "Unknown request type")

/-- How an iteration ends: the function returns, or control is back at the top of the
loop, after a command or after an empty request. -/
inductive Iter (σ : Type) where
  | stop (ret : Int) (c : Conn σ)
  | again (executed : Bool) (c : Conn σ)

/-- The client an iteration leaves behind. -/
def Iter.conn : Iter σ → Conn σ
  | .stop _ c | .again _ c => c

/-- The return value behind the loop. -/
def exitCode (rc : RedisClient) : Int := if rc.qbPos ≠ 0 then 1 else 0

def loopBody (c : Conn σ) : Except Fault (Iter σ) :=
  if ¬ c.rc.qbPos < c.rc.querybuf.length then .ok (.stop (exitCode c.rc) c)
  else if c.rc.closeAfterReply ∨ c.rc.closeAsap then .ok (.stop (exitCode c.rc) c)
  else do
    let (code, c) ← parseRequest M c.selected
    if code ≠ 0 then return .stop (exitCode c.rc) c
    else if c.rc.argc = 0 then
      let rc ← resetRedisClient c.rc
      return .again false { c with rc := rc }
    else
      let (code, c) ← processCommandAndResetClient M c
      if code = -1 then return .stop 0 c else return .again true c

/-- How a call ends.  A fault comes with the connection as it was at the top of the
iteration that caused it. -/
inductive Result (σ : Type) where
  | returned (ret : Int) (c : Conn σ)
  | faulted (f : Fault) (c : Conn σ)
  | running (c : Conn σ)

def redisProcessInputBuffer : Nat → Conn σ → Result σ
  | 0, c => .running c
  | n + 1, c =>
      match loopBody M c with
      | .error f => .faulted f c
      | .ok (.stop ret c) => .returned ret c
      | .ok (.again _ c) => redisProcessInputBuffer n c

/-! ## Reads -/

/-- The library appends a read to the query buffer; `redis_client_handle` counts it. -/
def deliver (chunk : Bytes) (c : Conn σ) : Conn σ :=
  { c with rc := { c.rc with
      querybuf := c.rc.querybuf ++ chunk
      readReploff := if c.rc.isMaster then c.rc.readReploff + chunk.length
        else c.rc.readReploff } }

/-- When the call returns `1`, the library drops the first `qb_pos` bytes. -/
def dropConsumed (ret : Int) (c : Conn σ) : Conn σ :=
  if ret = 1 then { c with rc := { c.rc with querybuf := c.rc.unread, qbPos := 0 } } else c

/-- One read: `redis_client_handle` and what the library does around it. -/
def serveRead (fuel : Nat) (chunk : Bytes) (c : Conn σ) : Result σ :=
  match redisProcessInputBuffer M fuel (deliver chunk c) with
  | .returned ret c => .returned ret (dropConsumed ret c)
  | r => r

/-- A sequence of reads. -/
def serveReads (fuel : Nat) : List Bytes → Conn σ → Result σ
  | [], c => .returned 0 c
  | chunk :: rest, c =>
      match serveRead M fuel chunk c with
      | .returned _ c => serveReads fuel rest c
      | r => r

/-! ## Every state of every run -/

/-- Where a connection stands: between two reads, or at the top of the loop. -/
inductive Place where
  | idle
  | top
deriving DecidableEq, Repr

/-- `Reach M P c₀ p c`: starting between reads in `c₀`, the connection gets to `c` at
`p`, by any reads and by iterations that start in states satisfying `P`.  Between two
reads the rest of the server may change the server state in any way. -/
inductive Reach (P : Conn σ → Prop) (c₀ : Conn σ) : Place → Conn σ → Prop
  | start : Reach P c₀ .idle c₀
  | server {c} (s : σ) : Reach P c₀ .idle c → Reach P c₀ .idle { c with server := s }
  | read {c} (chunk : Bytes) : Reach P c₀ .idle c → Reach P c₀ .top (deliver chunk c)
  | again {c executed c'} : Reach P c₀ .top c → P c →
      loopBody M c = .ok (.again executed c') → Reach P c₀ .top c'
  | stop {c ret c'} : Reach P c₀ .top c → P c →
      loopBody M c = .ok (.stop ret c') → Reach P c₀ .idle (dropConsumed ret c')

variable {M}

/-! ## What one iteration does -/

/-- Whether the client is still there decides where the loop goes, not with what. -/
@[simp] theorem Iter.conn_ite (p : Prop) [Decidable p] (c : Conn σ) :
    (if p then Iter.stop 0 c else .again true c).conn = c := by
  split <;> rfl

/-- A request whose name can be read is looked up and executed. -/
theorem processCommand_eq {c : Conn σ} {o : LatteObject} {name : Bytes}
    (ho : c.rc.argvAt 0 = .ok o) (hname : o.ptr = .ok name) :
    processCommand M c = match M.backend.lookup c.server name with
      | none => .ok (-1, { c with rc := { c.rc with cmd := .null, lastcmd := .null } })
      | some cmd => (M.backend.proc cmd c.server
          { c.rc with cmd := .live cmd, lastcmd := .live cmd }).map fun (server, rc') ↦
            (0, { c with
              rc := rc', server := server
              calls := c.calls ++ [c.rc.args.map LatteObject.content] }) := by
  unfold processCommand
  rw [ho, Run.ok_bind, hname, Run.ok_bind]
  cases M.backend.lookup c.server name with
  | none => rfl
  | some cmd =>
      dsimp only
      cases M.backend.proc cmd c.server { c.rc with cmd := .live cmd, lastcmd := .live cmd } <;> rfl

/-- What executing a request does: nothing but a note that the command is unknown, or the
command's handler and a reset. -/
theorem processCommandAndResetClient_cases {c c' : Conn σ} {code : Int}
    (h : processCommandAndResetClient M c = .ok (code, c')) :
    code = (if M.backend.clientGone c'.server then -1 else 0) ∧
      ∃ o name, c.rc.argvAt 0 = .ok o ∧ o.ptr = .ok name ∧
        ((M.backend.lookup c.server name = none ∧
            c' = { c with rc := { c.rc with cmd := .null, lastcmd := .null } }) ∨
          ∃ cmd server rc₁ rc₂, M.backend.lookup c.server name = some cmd ∧
            M.backend.proc cmd c.server { c.rc with cmd := .live cmd, lastcmd := .live cmd } =
              .ok (server, rc₁) ∧
            resetRedisClient rc₁ = .ok rc₂ ∧
            c' = { c with
              rc := rc₂, server := server
              calls := c.calls ++ [c.rc.args.map LatteObject.content] }) := by
  obtain ⟨⟨code₁, c₁⟩, hcmd, h⟩ := Run.bind_eq_ok.mp h
  obtain ⟨c₂, hreset, h⟩ := Run.bind_eq_ok.mp h
  cases h
  refine ⟨rfl, ?_⟩
  obtain ⟨o, ho, hcmd⟩ := Run.bind_eq_ok.mp hcmd
  obtain ⟨name, hname, hcmd⟩ := Run.bind_eq_ok.mp hcmd
  refine ⟨o, name, ho, hname, ?_⟩
  split at hcmd
  · next hl =>
      cases hcmd
      rw [commandProcessed, if_neg (by decide)] at hreset
      cases hreset
      exact .inl ⟨hl, rfl⟩
  · next cmd hl =>
      obtain ⟨⟨server, rc₁⟩, hproc, hcmd⟩ := Run.bind_eq_ok.mp hcmd
      cases hcmd
      rw [commandProcessed, if_pos rfl] at hreset
      cases hrc : resetRedisClient rc₁ with
      | error f => rw [hrc] at hreset; cases hreset
      | ok rc₂ =>
          rw [hrc] at hreset
          cases hreset
          exact .inr ⟨cmd, server, rc₁, rc₂, hl, hproc, hrc, rfl⟩

theorem unread_ne_nil_iff {rc : RedisClient} :
    rc.unread ≠ [] ↔ rc.qbPos < rc.querybuf.length := by
  rw [RedisClient.unread, ne_eq, List.drop_eq_nil_iff, Nat.not_le]

/-- An iteration that gets to parse. -/
theorem loopBody_eq {c : Conn σ} (hu : c.rc.unread ≠ []) (hreply : c.rc.closeAfterReply = false)
    (hasap : c.rc.closeAsap = false) :
    loopBody M c = (do
      let (code, c) ← parseRequest M c.selected
      if code ≠ 0 then return .stop (exitCode c.rc) c
      else if c.rc.argc = 0 then
        let rc ← resetRedisClient c.rc
        return .again false { c with rc := rc }
      else
        let (code, c) ← processCommandAndResetClient M c
        if code = -1 then return .stop 0 c else return .again true c) := by
  unfold loopBody
  rw [if_neg (not_not.mpr (unread_ne_nil_iff.mp hu)), if_neg (by simp [hreply, hasap])]

/-- The ways an iteration can end. -/
theorem loopBody_cases {c : Conn σ} {it : Iter σ} (h : loopBody M c = .ok it) :
    ((c.rc.unread = [] ∨ c.rc.closeAfterReply = true ∨ c.rc.closeAsap = true) ∧
        it = .stop (exitCode c.rc) c) ∨
      (c.rc.unread ≠ [] ∧ c.rc.closeAfterReply = false ∧ c.rc.closeAsap = false) ∧
        ∃ code c₁, parseRequest M c.selected = .ok (code, c₁) ∧
        ((code ≠ 0 ∧ it = .stop (exitCode c₁.rc) c₁) ∨
          (code = 0 ∧ c₁.rc.argc = 0 ∧ ∃ rc, resetRedisClient c₁.rc = .ok rc ∧
            it = .again false { c₁ with rc := rc }) ∨
          (code = 0 ∧ c₁.rc.argc ≠ 0 ∧ ∃ code₂ c₂,
            processCommandAndResetClient M c₁ = .ok (code₂, c₂) ∧
            it = if code₂ = -1 then .stop 0 c₂ else .again true c₂)) := by
  unfold loopBody at h
  split at h
  · next hu =>
      cases h
      rw [← unread_ne_nil_iff] at hu
      exact .inl ⟨.inl (not_not.mp hu), rfl⟩
  · next hu =>
      split at h
      · next hclose =>
          cases h
          exact .inl ⟨.inr hclose, rfl⟩
      · next hclose =>
        refine .inr ⟨⟨unread_ne_nil_iff.mpr (not_not.mp hu), ?_⟩, ?_⟩
        · simpa using hclose
        obtain ⟨⟨code, c₁⟩, hparse, h⟩ := Run.bind_eq_ok.mp h
        refine ⟨code, c₁, hparse, ?_⟩
        dsimp only at h
        split at h
        · next hcode =>
            cases h
            exact .inl ⟨hcode, rfl⟩
        · next hcode =>
            right
            split at h
            · next hargc =>
                obtain ⟨rc, hreset, h⟩ := Run.bind_eq_ok.mp h
                cases h
                exact .inl ⟨not_not.mp hcode, hargc, rc, hreset, rfl⟩
            · next hargc =>
                obtain ⟨⟨code₂, c₂⟩, hexec, h⟩ := Run.bind_eq_ok.mp h
                refine .inr ⟨not_not.mp hcode, hargc, code₂, c₂, hexec, ?_⟩
                dsimp only at h
                split at h
                · next hdead =>
                    cases h
                    rw [if_pos hdead]
                · next hdead =>
                    cases h
                    rw [if_neg hdead]

/-- **Invariants of connections.**  A property of the client that reads, dropping the
consumed prefix and iterations preserve holds in every state of every run. -/
theorem Reach.invariant {P I : Conn σ → Prop} {c₀ : Conn σ} (h₀ : I c₀)
    (hserver : ∀ c s, I c → I { c with server := s })
    (hread : ∀ c chunk, I c → I (deliver chunk c))
    (hdrop : ∀ c ret, I c → I (dropConsumed ret c))
    (hagain : ∀ c e c', I c → P c → loopBody M c = .ok (.again e c') → I c')
    (hstop : ∀ c ret c', I c → P c → loopBody M c = .ok (.stop ret c') → I c')
    {p : Place} {c : Conn σ} (h : Reach M P c₀ p c) : I c := by
  induction h with
  | start => exact h₀
  | server s _ ih => exact hserver _ s ih
  | read chunk _ ih => exact hread _ chunk ih
  | again _ hP hb ih => exact hagain _ _ _ ih hP hb
  | stop _ hP hb ih => exact hdrop _ _ (hstop _ _ _ ih hP hb)

/-- More iterations allowed do not change a call that has come to an end. -/
theorem redisProcessInputBuffer_mono {n m : Nat} (hnm : n ≤ m) {c : Conn σ} {r : Result σ}
    (h : redisProcessInputBuffer M n c = r) (hr : ∀ c', r ≠ .running c') :
    redisProcessInputBuffer M m c = r := by
  induction n generalizing m c with
  | zero => exact absurd h.symm (hr c)
  | succ n ih =>
      obtain ⟨k, rfl⟩ : ∃ k, m = k + 1 := ⟨m - 1, by omega⟩
      rw [redisProcessInputBuffer] at h ⊢
      split at h
      · exact h
      · exact h
      · exact ih (by omega) h

theorem serveRead_mono {n m : Nat} (hnm : n ≤ m) {chunk : Bytes} {c : Conn σ} {r : Result σ}
    (h : serveRead M n chunk c = r) (hr : ∀ c', r ≠ .running c') : serveRead M m chunk c = r := by
  unfold serveRead at h ⊢
  cases hcall : redisProcessInputBuffer M n (deliver chunk c) with
  | running c' =>
      rw [hcall] at h
      exact absurd h.symm (hr c')
  | returned ret c' | faulted f c' =>
      rw [hcall] at h
      rw [redisProcessInputBuffer_mono hnm hcall (by simp)]
      exact h

theorem serveReads_mono {n m : Nat} (hnm : n ≤ m) {reads : List Bytes} {c : Conn σ} {r : Result σ}
    (h : serveReads M n reads c = r) (hr : ∀ c', r ≠ .running c') : serveReads M m reads c = r := by
  induction reads generalizing c with
  | nil => exact h
  | cons chunk reads ih =>
      unfold serveReads at h ⊢
      cases hread : serveRead M n chunk c with
      | running c' =>
          rw [hread] at h
          exact absurd h.symm (hr c')
      | returned ret c' =>
          rw [hread] at h
          rw [serveRead_mono hnm hread (by simp)]
          exact ih h
      | faulted f c' =>
          rw [hread] at h
          rw [serveRead_mono hnm hread (by simp)]
          exact h

/-- Reads that stop the process do so under every bound that is large enough. -/
theorem serveReads_ne_returned {n : Nat} {reads : List Bytes} {c c₁ : Conn σ} {f : Fault}
    (h : serveReads M n reads c = .faulted f c₁) (m : Nat) (ret : Int) (c₂ : Conn σ) :
    serveReads M m reads c ≠ .returned ret c₂ := by
  intro h'
  have hfault := serveReads_mono (Nat.le_max_left n m) h (by simp)
  rw [serveReads_mono (Nat.le_max_right n m) h' (by simp)] at hfault
  cases hfault

/-- The fault reads have ended with, and the handler calls made before it. -/
def Result.fault? : Result σ → Option (Fault × List (List Bytes))
  | .faulted f c => some (f, c.calls)
  | _ => none

theorem Result.eq_of_fault? {r : Result σ} {f : Fault} {calls : List (List Bytes)}
    (h : r.fault? = some (f, calls)) : ∃ c, r = .faulted f c ∧ c.calls = calls := by
  cases r with
  | faulted f' c =>
      cases h
      exact ⟨c, rfl, rfl⟩
  | returned _ _ | running _ => cases h

end LatteRedis
