import LatteRedis.Client.InputBuffer

/-!
# Which procs are called

`Conn.calls` keeps the arguments of the handler calls that were made.  Here is the client
itself, as each handler was given it: `procClient` for one iteration of the loop and
`procClients` for a call of `redis_process_input_buffer`.
-/

namespace LatteRedis

open ByteString

variable {σ : Type} (M : Machine σ)

/-- The client `call` is given for the request in `c`, if its name is that of a command. -/
def calledClient (c : Conn σ) : Option RedisClient :=
  match c.rc.argvAt 0 >>= LatteObject.ptr with
  | .ok name =>
      (M.backend.lookup c.server name).map fun cmd ↦
        { c.rc with cmd := .live cmd, lastcmd := .live cmd }
  | .error _ => none

/-- The client the iteration that starts in `c` calls a command proc with, if it does. -/
def procClient (c : Conn σ) : Option RedisClient :=
  if c.rc.unread = [] ∨ c.rc.closeAfterReply ∨ c.rc.closeAsap then none
  else match parseRequest M c.selected with
  | .ok (code, c₁) => if code ≠ 0 ∨ c₁.rc.argc = 0 then none else calledClient M c₁
  | .error _ => none

/-- The clients a call of `redis_process_input_buffer` calls command procs with. -/
def procClients : Nat → Conn σ → List RedisClient
  | 0, _ => []
  | n + 1, c =>
      (procClient M c).toList ++ match loopBody M c with
        | .ok (.again _ c') => procClients n c'
        | _ => []

variable {M}

/-- An iteration that has nothing to parse, or is told to stop, calls nothing. -/
theorem procClient_of_closed {c : Conn σ}
    (h : c.rc.unread = [] ∨ c.rc.closeAfterReply = true ∨ c.rc.closeAsap = true) :
    procClient M c = none := if_pos h

/-- What an iteration calls is what it executes. -/
theorem procClient_of_parse {c c₁ : Conn σ} {code : Int} (hu : c.rc.unread ≠ [])
    (hreply : c.rc.closeAfterReply = false) (hasap : c.rc.closeAsap = false)
    (hp : parseRequest M c.selected = .ok (code, c₁)) :
    procClient M c = if code ≠ 0 ∨ c₁.rc.argc = 0 then none else calledClient M c₁ := by
  unfold procClient
  rw [if_neg (by simp [hu, hreply, hasap]), hp]

/-- The handler of an executed request is called with the client it is found for. -/
theorem calledClient_eq {c : Conn σ} {o : LatteObject} {name : Bytes}
    (ho : c.rc.argvAt 0 = .ok o) (hname : o.ptr = .ok name) :
    calledClient M c = (M.backend.lookup c.server name).map fun cmd ↦
      { c.rc with cmd := .live cmd, lastcmd := .live cmd } := by
  unfold calledClient
  rw [ho, Run.ok_bind, hname]

end LatteRedis
