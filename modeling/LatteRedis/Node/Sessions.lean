import LatteRedis.Client.RedisCli
import LatteRedis.Node.Interleaving

/-!
# Sessions

The server of `Node.Interleaving` and the clients of `Client.RedisCli`, with the network
between them: a closed system.  A client writes a command and blocks until it has read the
reply.  Meanwhile the network moves bytes, in both directions and in any pieces, the other
clients do the same, and the clock goes on.

`sessions_linearizable` is what the scripts rely on.  What a script is handed for its `n`-th
command is what the key-value store answered to that command, at a moment between the call
and its return.  A call that waits can always go on.
-/

namespace LatteRedis

open ByteString Expiring Incremental Resp RedisCli

/-! ## The clients and the network -/

/-- A handle of `redis_cli`, and what is on its way between it and the server.  The last two
fields record what the script has asked for and been handed. -/
structure Peer where
  outgoing : Bytes := []
  /-- How much of what the server has written to the connection has arrived. -/
  delivered : Nat
  incoming : Bytes := []
  waiting : Bool := false
  called : List (List Bytes) := []
  results : List (Except String Bytes) := []

namespace Peer

/-- A command is written.  A script that waits for a reply does not call. -/
def dispatchBlocking (p : Peer) (method : Bytes) (args : List Bytes) : Peer :=
  if p.waiting then p
  else { p with
    outgoing := p.outgoing ++ buildRespCommand method args
    waiting := true
    called := p.called ++ [method :: respArgs args] }

/-- At most `k` bytes have arrived at the server. -/
def send (p : Peer) (k : Nat) : Peer := { p with outgoing := p.outgoing.drop k }

/-- At most `k` bytes arrive of those the server has written. -/
def receive (p : Peer) (out : Bytes) (k : Nat) : Peer :=
  let chunk := (out.drop p.delivered).take k
  { p with delivered := p.delivered + chunk.length, incoming := p.incoming ++ chunk }

/-- The read of a waiting handle returns if it can. -/
def resume (T : Tcl) (p : Peer) : Peer :=
  if p.waiting then
    match readOneRespReplyBlocking T false p.incoming with
    | none => p
    | some (result, rest) =>
        { p with incoming := rest, waiting := false, results := p.results ++ [result] }
  else p

theorem resume_frame (T : Tcl) (p : Peer) :
    (p.resume T).called = p.called ∧ (p.resume T).outgoing = p.outgoing := by
  unfold resume
  split
  · split <;> exact ⟨rfl, rfl⟩
  · exact ⟨rfl, rfl⟩

end Peer

/-- The server, and the other ends of its connections. -/
structure Sessions where
  node : Node
  peers : Nat → Peer

inductive SessionEvent where
  | /-- A script calls its handle. -/ call (i : Nat) (method : Bytes) (args : List Bytes)
  | /-- At most `k` bytes reach the server. -/ arrive (i k : Nat)
  | /-- At most `k` bytes reach the client. -/ reply (i k : Nat)
  | /-- A script that waits is scheduled. -/ resume (i : Nat)
  | /-- The server reads the clock. -/ tick (clock : Clock)

/-- A command the server survives, with a reply the client can read: neither `INFO` nor
`MODULE`. -/
structure Asks (args : List Bytes) : Prop where
  sendable : Sendable args
  safe : Safe args
  plain : ∀ name ∈ args.head?, Verb.named name ≠ some .info ∧ Verb.named name ≠ some .module

/-- The scripts ask for what the client can read the reply of. -/
def SessionEvent.Admissible : SessionEvent → Prop
  | .call _ method args => Asks (method :: respArgs args)
  | _ => True

namespace Sessions

/-- Everything the server has written has been read. -/
def start (server : Server) (clients : List RedisClient) : Sessions where
  node := { server := server, clients := clients }
  peers i := { delivered := clients[i]?.elim 0 fun rc ↦ rc.reply.out.length }

def step (M : Machine Server) (fuel : Nat) (T : Tcl) (s : Sessions) : SessionEvent → Option Sessions
  | .call i method args =>
      some { s with peers := Function.update s.peers i ((s.peers i).dispatchBlocking method args) }
  | .arrive i k => do
      let node ← s.node.step M fuel (.read i ((s.peers i).outgoing.take k))
      return { node := node, peers := Function.update s.peers i ((s.peers i).send k) }
  | .reply i k =>
      match s.node.clients[i]? with
      | none => some s
      | some rc => some { s with peers := Function.update s.peers i ((s.peers i).receive rc.reply.out k) }
  | .resume i => some { s with peers := Function.update s.peers i ((s.peers i).resume T) }
  | .tick clock => do
      let node ← s.node.step M fuel (.tick clock)
      return { s with node := node }

def run (M : Machine Server) (fuel : Nat) (T : Tcl) (s : Sessions) (es : List SessionEvent) :
    Option Sessions := es.foldlM (step M fuel T) s

end Sessions

/-! ## Answers the client can read -/

/-- An answer as the script is handed it, an error with what the server puts in front. -/
def Answer.shown : Answer → Bytes
  | .status s => ascii s
  | .error s => ((if (ascii s).head? = some 45 then [] else ascii "-ERR ") ++ ascii s).tail
  | .number n => decimal n
  | .bulk s => s
  | .silent | .missing | .text | .help _ => []

def Answer.result (a : Answer) : Except String Bytes := .ok a.shown

/-- The client finds one reply in the answer.  It blocks on an answer without a line in it,
and refuses arrays with more than one element. -/
inductive Answer.Readable : Answer → Prop
  | status {s : String} : CR ∉ ascii s → LF ∉ ascii s → Readable (.status s)
  | error {s : String} : CR ∉ ascii s → LF ∉ ascii s → Readable (.error s)
  | number (n : Int) : Readable (.number n)
  | bulk {s : Bytes} : s.length + 2 < 2 ^ 31 → Readable (.bulk s)
  | missing : Readable .missing

theorem Answer.Readable.reads {T : Tcl} (hT : T.Reads) {a : Answer} (h : a.Readable) :
    readOneRespReplyBlocking T false a.bytes = some (a.result, []) := by
  cases h with
  | status hcr hlf => exact reads_line (.inl rfl) hcr hlf
  | @error s hcr hlf =>
      unfold Answer.bytes Answer.result Answer.shown errorLine
      dsimp only
      by_cases hdash : (ascii s).head? = some 45
      · obtain ⟨t, ht⟩ := List.head?_eq_some_iff.mp hdash
        rw [ht, List.mem_cons, not_or] at hcr hlf
        rw [if_pos hdash, List.nil_append, ht]
        exact reads_line (.inr (.inl rfl)) hcr.2 hlf.2
      · rw [if_neg hdash]
        refine reads_line (s := ascii "ERR " ++ ascii s) (.inr (.inl rfl)) ?_ ?_
        · rw [List.mem_append, not_or]
          exact ⟨by decide, hcr⟩
        · rw [List.mem_append, not_or]
          exact ⟨by decide, hlf⟩
  | number n =>
      obtain ⟨-, hcr, hlf⟩ := decimal_clean n
      exact reads_line (.inr (.inr rfl)) hcr hlf
  | bulk hlen => exact reads_bulk hT hlen
  | missing => exact reads_nullArray hT

/-- The strings in the table can be sent to a client that reads them. -/
def Keyspace.Short (m : Keyspace) : Prop := m.Holds fun s : Bytes ↦ s.length + 2 < 2 ^ 31

variable {L : LatteC}

theorem Keyspace.Short.get {m : Keyspace} (h : m.Short) (t : Int) (k : Bytes) :
    (m.get t k).1.Short ∧ (m.get t k).2.Readable := by
  have hreap : Keyspace.Short (m.reap t k) := Table.Holds.reap h t k
  refine ⟨hreap, ?_⟩
  unfold Keyspace.get
  dsimp only
  cases hk : m.reap t k k with
  | none => exact .missing
  | some e => exact .bulk (hreap k e hk)

theorem Keyspace.Short.set {m : Keyspace} (h : m.Short) (t : Int) (k : Bytes) {v : Bytes}
    (hv : v.length + 2 < 2 ^ 31) {p : Keyspace × Answer} (hp : m.set t k v = some p) :
    p.1.Short ∧ p.2.Readable := by
  have hreap : Table.Holds (fun s : Bytes ↦ s.length + 2 < 2 ^ 31) (m.reap t k) :=
    Table.Holds.reap h t k
  unfold Keyspace.set at hp
  dsimp only at hp
  split at hp
  · cases hp
    exact ⟨hreap.put k hv, .status (by decide) (by decide)⟩
  · split at hp
    · cases hp
    · cases hp
      exact ⟨hreap.put _ hv, .status (by decide) (by decide)⟩

theorem Keyspace.Short.expire {m : Keyspace} (h : m.Short) (t : Int) (k s : Bytes) :
    (m.expire L t k s).1.Short ∧ (m.expire L t k s).2.Readable := by
  unfold Keyspace.expire
  split
  · exact ⟨h, .error (by decide) (by decide)⟩
  · exact ⟨h, .number 0⟩
  · split
    · exact ⟨h, .error (by decide) (by decide)⟩
    · exact ⟨Table.Holds.arm h k _, .number 1⟩

/-- What the store answers to such a command can be read. -/
theorem Asks.answer {name : Bytes} {operands : List Bytes} (h : Asks (name :: operands)) (t : Int)
    {m m' : Keyspace} {a : Answer} (hm : m.Short) (ha : m.answer L t name operands = some (m', a)) :
    m'.Short ∧ a.Readable := by
  have hlen : ∀ s ∈ operands, s.length + 2 < 2 ^ 31 := by
    intro s hs
    have hbound : (s.length : Int) ≤ 1024 * 1024 :=
      h.sendable.length_le s (List.mem_cons_of_mem name hs)
    omega
  obtain ⟨_, _, heq, hharmless⟩ := h.safe
  cases heq
  obtain ⟨v, hv, hquit⟩ := hharmless.known
  obtain ⟨hinfo, hmodule⟩ := h.plain name rfl
  unfold Keyspace.answer at ha
  rw [hv] at ha hinfo hmodule
  cases v with
  | quit => exact absurd rfl hquit
  | info => exact absurd rfl hinfo
  | module => exact absurd rfl hmodule
  | ping =>
      match operands, hlen with
      | [], _ =>
          cases ha
          exact ⟨hm, .status (by decide) (by decide)⟩
      | [s], hlen =>
          cases ha
          exact ⟨hm, .bulk (hlen s (by simp))⟩
      | _ :: _ :: _, _ =>
          cases ha
          exact ⟨hm, .error (by decide) (by decide)⟩
  | expire =>
      match operands with
      | [k, s] =>
          have hexpire := hm.expire (L := L) t k s
          rwa [show m.expire L t k s = (m', a) from Option.some.inj ha] at hexpire
      | [] | [_] | _ :: _ :: _ :: _ =>
          cases ha
          exact ⟨hm, .error (by decide) (by decide)⟩
  | set =>
      match operands, hlen with
      | [k, v], hlen => exact hm.set t k (hlen v (by simp)) ha
      | [], _ | [_], _ | _ :: _ :: _ :: _, _ =>
          cases ha
          exact ⟨hm, .status (by decide) (by decide)⟩
  | get =>
      match operands with
      | [k] =>
          have hget := hm.get t k
          rwa [show m.get t k = (m', a) from Option.some.inj ha] at hget
      | [] | _ :: _ :: _ =>
          cases ha
          exact ⟨hm, .status (by decide) (by decide)⟩

/-! ## A client and the answers to its commands -/

section Answers

variable {n n' : Node} {as as' : List Answer} {i : Nat}

theorem Node.length_answersOf (h : as.length = n.log.length) :
    (n.answersOf as i).length = (n.callsOf i).length := by
  unfold Node.answersOf Node.callsOf
  conv_rhs => rw [← List.map_fst_zip h.ge, List.filter_map]
  rw [List.length_map, List.length_map, List.length_map]
  rfl

theorem Node.mem_of_mem_answersOf {a : Answer} (h : a ∈ n.answersOf as i) : a ∈ as := by
  obtain ⟨p, hp, rfl⟩ := List.mem_map.mp h
  exact (List.of_mem_zip (List.mem_filter.mp hp).1).2

/-- More requests have been answered. -/
theorem Node.answersOf_append (hlog : n.log <+: n'.log) (has : as <+: as')
    (h : as.length = n.log.length) (i : Nat) : n.answersOf as i <+: n'.answersOf as' i := by
  obtain ⟨calls, hcalls⟩ := hlog
  obtain ⟨more, rfl⟩ := has
  unfold Node.answersOf
  rw [← hcalls, List.zip_append h.symm, List.filter_append, List.map_append]
  exact List.prefix_append _ _

end Answers

/-- The handle has read the first ones of the answers `as`.  The others have arrived since,
or are what the server has written and not sent yet. -/
structure Peer.Follows (p : Peer) (as : List Answer) (out : Bytes) : Prop where
  called : p.called.length = p.results.length + p.waiting.toNat
  results : p.results <+: as.map Answer.result
  delivered : p.delivered ≤ out.length
  bytes : p.incoming ++ out.drop p.delivered = (as.drop p.results.length).flatMap Answer.bytes

namespace Peer.Follows

variable {p : Peer} {as as' : List Answer} {out out' : Bytes}

theorem length_le (h : p.Follows as out) : p.results.length ≤ as.length := by
  have hle := h.results.length_le
  rwa [List.length_map] at hle

theorem dispatchBlocking (h : p.Follows as out) (method : Bytes) (args : List Bytes) :
    (p.dispatchBlocking method args).Follows as out := by
  unfold Peer.dispatchBlocking
  split
  · exact h
  · next hwaiting =>
      refine ⟨?_, h.results, h.delivered, h.bytes⟩
      have hcalled := h.called
      rw [Bool.not_eq_true] at hwaiting
      rw [hwaiting] at hcalled
      rw [List.length_append, hcalled]
      rfl

/-- The server answers more requests. -/
theorem answered (h : p.Follows as out) {more : List Answer} (has : as ++ more = as')
    (hout : out' = out ++ more.flatMap Answer.bytes) : p.Follows as' out' := by
  subst has hout
  refine ⟨h.called, ?_, ?_, ?_⟩
  · rw [List.map_append]
    exact h.results.trans (List.prefix_append _ _)
  · rw [List.length_append]
    exact Nat.le_add_right_of_le h.delivered
  · rw [List.drop_append_of_le_length h.delivered, ← List.append_assoc, h.bytes,
      List.drop_append_of_le_length h.length_le, List.flatMap_append]

theorem send (h : p.Follows as out) (k : Nat) : (p.send k).Follows as out :=
  ⟨h.called, h.results, h.delivered, h.bytes⟩

theorem receive (h : p.Follows as out) (k : Nat) : (p.receive out k).Follows as out := by
  refine ⟨h.called, h.results, ?_, ?_⟩
  · show p.delivered + ((out.drop p.delivered).take k).length ≤ out.length
    have hle := List.length_take_le' k (out.drop p.delivered)
    have hdelivered := h.delivered
    rw [List.length_drop] at hle
    omega
  · show (p.incoming ++ (out.drop p.delivered).take k) ++
      out.drop (p.delivered + ((out.drop p.delivered).take k).length) = _
    rw [List.append_assoc, ← List.drop_drop, List.prefix_iff_eq_append.mp (List.take_prefix k _)]
    exact h.bytes

variable {T : Tcl}

/-- **What a waiting handle finds.**  Everything has been read, or all but one answer.  The
read blocks until the last byte of that answer has arrived, and then returns it. -/
theorem pending (hT : T.Reads) (h : p.Follows as out) (hreadable : ∀ a ∈ as, a.Readable)
    (hcalls : as.length ≤ p.called.length) :
    (p.results = as.map Answer.result ∧ p.incoming = [] ∧ p.delivered = out.length) ∨
      ∃ a : Answer, p.waiting = true ∧ p.results ++ [a.result] = as.map Answer.result ∧
        ((p.delivered < out.length ∧ readOneRespReplyBlocking T false p.incoming = none) ∨
          (p.delivered = out.length ∧
            readOneRespReplyBlocking T false p.incoming = some (a.result, []))) := by
  have hbytes := h.bytes
  have hsplit : p.results ++ (as.drop p.results.length).map Answer.result = as.map Answer.result := by
    rw [List.map_drop]
    exact List.prefix_iff_eq_append.mp h.results
  have hleft := List.length_drop (i := p.results.length) (l := as)
  cases hrest : as.drop p.results.length with
  | nil =>
      left
      rw [hrest] at hbytes hsplit
      obtain ⟨hincoming, hout⟩ := List.append_eq_nil_iff.mp hbytes
      refine ⟨?_, hincoming, h.delivered.antisymm (List.drop_eq_nil_iff.mp hout)⟩
      rw [← hsplit, List.map_nil, List.append_nil]
  | cons a rest =>
      right
      have hcalled := h.called
      rw [hrest, List.length_cons] at hleft
      -- the script has called once more than it has been handed results
      have hone : p.waiting = true ∧ rest.length = 0 := by
        cases hwaiting : p.waiting with
        | false =>
            rw [hwaiting, Bool.toNat_false] at hcalled
            omega
        | true =>
            rw [hwaiting, Bool.toNat_true] at hcalled
            exact ⟨rfl, by omega⟩
      obtain rfl := List.length_eq_zero_iff.mp hone.2
      rw [hrest] at hbytes hsplit
      rw [List.flatMap_singleton] at hbytes
      have hread : readOneRespReplyBlocking T false (p.incoming ++ out.drop p.delivered) =
          some (a.result, []) := by
        rw [hbytes]
        exact (hreadable a (List.mem_of_mem_drop (hrest ▸ List.mem_singleton_self a))).reads hT
      refine ⟨a, hone.1, hsplit, ?_⟩
      rcases (readOneRespReplyBlocking_steady T).of_append hread with ⟨hnil, hdone⟩ | ⟨hne, hblocks⟩
      · exact .inr ⟨h.delivered.antisymm (List.drop_eq_nil_iff.mp hnil), hdone⟩
      · refine .inl ⟨h.delivered.lt_of_ne ?_, hblocks⟩
        intro heq
        exact hne (heq ▸ List.drop_length)

theorem resume (hT : T.Reads) (h : p.Follows as out) (hreadable : ∀ a ∈ as, a.Readable)
    (hcalls : as.length ≤ p.called.length) : (p.resume T).Follows as out := by
  unfold Peer.resume
  split
  · next hwaiting =>
      rcases h.pending hT hreadable hcalls with
        ⟨-, hincoming, -⟩ | ⟨a, -, hresults, ⟨-, hblocks⟩ | ⟨hout, hread⟩⟩
      · rw [hincoming, readOneRespReplyBlocking_none rfl]
        exact h
      · rw [hblocks]
        exact h
      · rw [hread]
        have hlen := congrArg List.length hresults
        rw [List.length_append, List.length_singleton, List.length_map] at hlen
        have hcalled := h.called
        rw [hwaiting] at hcalled
        refine ⟨?_, hresults ▸ List.prefix_refl _, h.delivered, ?_⟩
        · show p.called.length = (p.results ++ [a.result]).length + 0
          rw [hcalled, List.length_append]
          rfl
        · show [] ++ out.drop p.delivered = (as.drop (p.results ++ [a.result]).length).flatMap _
          rw [hout, List.drop_length, List.length_append, List.length_singleton, hlen, List.drop_length]
          rfl
  · exact h

end Peer.Follows

/-! ## Runs -/

/-- The server has executed requests of the clients and answered as the store does, and every
client is somewhere in the answers to its own. -/
structure Sessions.Consistent (L : LatteC) (E : Extension) (stack : Nat → Int)
    (hL : L.StrictString2ll) (dbNum : Nat) (clients : List RedisClient) (s : Sessions)
    (ms : Keyspaces) (as : List Answer) : Prop where
  node : s.node.Consistent L E stack hL dbNum clients (Peer.called ∘ s.peers)
    (Peer.outgoing ∘ s.peers) ms as
  asks : ∀ i, ∀ args ∈ (s.peers i).called, Asks args
  follows : ∀ i rc, s.node.clients[i]? = some rc →
    (s.peers i).Follows (s.node.answersOf as i) rc.reply.out

section Runs

variable {E : Extension} {stack : Nat → Int} {hL : L.StrictString2ll} {dbNum : Nat}
  {clients : List RedisClient} {s : Sessions} {ms : Keyspaces} {as : List Answer} {T : Tcl}

namespace Sessions.Consistent

/-- The clients can read all answers. -/
theorem readable (h : s.Consistent L E stack hL dbNum clients ms as) (i : Nat) :
    ∀ a ∈ s.node.answersOf as i, a.Readable := by
  intro a ha
  refine (Keyspaces.answerAll_invariant (I := Keyspace.Short) ?_ ?_ h.node.spec).2 a
    (Node.mem_of_mem_answersOf ha)
  · intro r hr m m' a hm ha
    obtain ⟨call, hcall, rfl⟩ := List.mem_map.mp hr
    obtain ⟨rc, hrc, -⟩ := h.node.dbids call hcall
    have hargs : call.args ∈ s.node.callsOf call.conn :=
      List.mem_map.mpr ⟨call, List.mem_filter.mpr ⟨hcall, by simp⟩, rfl⟩
    have hasks := h.asks call.conn call.args ((h.node.callsOf hrc).1.subset hargs)
    obtain ⟨name, operands, heq⟩ := List.exists_cons_of_ne_nil hasks.sendable.ne_nil
    rw [heq] at hasks
    unfold Call.request at ha
    rw [heq] at ha
    exact hasks.answer _ hm ha
  · exact fun _ ↦ Table.Holds.of_empty

theorem client (h : s.Consistent L E stack hL dbNum clients ms as) {i : Nat} {rc : RedisClient}
    (hrc : s.node.clients[i]? = some rc) : ∃ rc₀, clients[i]? = some rc₀ :=
  ⟨_, List.getElem?_eq_getElem (h.node.length ▸ (List.getElem?_eq_some_iff.mp hrc).1)⟩

/-- A connection has been asked for no less than it has executed. -/
theorem length_answersOf_le (h : s.Consistent L E stack hL dbNum clients ms as) {i : Nat}
    {rc : RedisClient} (hrc : s.node.clients[i]? = some rc) :
    (s.node.answersOf as i).length ≤ (s.peers i).called.length := by
  obtain ⟨rc₀, h₀⟩ := h.client hrc
  rw [Node.length_answersOf h.node.length_eq]
  exact (h.node.callsOf h₀).1.length_le

/-- The clients have not noticed yet that the server has answered more requests. -/
theorem follows_node (h : s.Consistent L E stack hL dbNum clients ms as) {n' : Node}
    {pipelines : Nat → List (List Bytes)} {future : Nat → Bytes} {ms' : Keyspaces} {as' : List Answer}
    (h' : n'.Consistent L E stack hL dbNum clients pipelines future ms' as')
    (hlog : s.node.log <+: n'.log) (has : as <+: as') {i : Nat} {rc' : RedisClient}
    (hrc' : n'.clients[i]? = some rc') :
    (s.peers i).Follows (n'.answersOf as' i) rc'.reply.out := by
  have hlt : i < s.node.clients.length := by
    rw [h.node.length, ← h'.length]
    exact (List.getElem?_eq_some_iff.mp hrc').1
  have hrc := List.getElem?_eq_getElem hlt
  obtain ⟨rc₀, h₀⟩ := h.client hrc
  obtain ⟨more, hmore⟩ := Node.answersOf_append hlog has h.node.length_eq i
  refine (h.follows i _ hrc).answered hmore ?_
  rw [(h'.serving i rc₀ rc' h₀ hrc').out, (h.node.serving i rc₀ _ h₀ hrc).out, Node.sentTo_eq,
    Node.sentTo_eq, ← hmore, List.flatMap_append, List.append_assoc]

/-- The server goes on, and one client does something. -/
theorem setPeer (h : s.Consistent L E stack hL dbNum clients ms as) {n' : Node} {ms' : Keyspaces}
    {as' : List Answer} {i : Nat} {p : Peer}
    (hnode : n'.Consistent L E stack hL dbNum clients
      (Function.update (Peer.called ∘ s.peers) i p.called)
      (Function.update (Peer.outgoing ∘ s.peers) i p.outgoing) ms' as')
    (hlog : s.node.log <+: n'.log) (has : as <+: as') (hasks : ∀ args ∈ p.called, Asks args)
    (hfollows : ∀ rc, n'.clients[i]? = some rc → p.Follows (n'.answersOf as' i) rc.reply.out) :
    Sessions.Consistent L E stack hL dbNum clients
      { node := n', peers := Function.update s.peers i p } ms' as' := by
  refine ⟨?_, ?_, ?_⟩
  · rw [Function.comp_update, Function.comp_update]
    exact hnode
  · intro j
    dsimp only
    by_cases hj : j = i
    · subst hj
      rw [Function.update_self]
      exact hasks
    · rw [Function.update_of_ne hj]
      exact h.asks j
  · intro j rc hrc
    dsimp only
    by_cases hj : j = i
    · subst hj
      rw [Function.update_self]
      exact hfollows rc hrc
    · rw [Function.update_of_ne hj]
      exact h.follows_node hnode hlog has hrc

/-- A client that has read or received something. -/
theorem setReader (h : s.Consistent L E stack hL dbNum clients ms as) {i : Nat} {p : Peer}
    (hcalled : p.called = (s.peers i).called) (houtgoing : p.outgoing = (s.peers i).outgoing)
    (hfollows : ∀ rc, s.node.clients[i]? = some rc →
      p.Follows (s.node.answersOf as i) rc.reply.out) :
    Sessions.Consistent L E stack hL dbNum clients { s with peers := Function.update s.peers i p }
      ms as := by
  refine h.setPeer ?_ (List.prefix_refl _) (List.prefix_refl _) (hcalled ▸ h.asks i) hfollows
  rw [show p.called = (Peer.called ∘ s.peers) i from hcalled,
    show p.outgoing = (Peer.outgoing ∘ s.peers) i from houtgoing, Function.update_eq_self,
    Function.update_eq_self]
  exact h.node

/-- A script calls its handle. -/
theorem call (hproto : L.AppendsProto) (hemb : L.EmbedsSds) (hdb : ∀ rc ∈ clients, rc.dbid < dbNum)
    (h : s.Consistent L E stack hL dbNum clients ms as) (i : Nat) {method : Bytes}
    {args : List Bytes} (hasks : Asks (method :: respArgs args)) :
    Sessions.Consistent L E stack hL dbNum clients
      { s with peers := Function.update s.peers i ((s.peers i).dispatchBlocking method args) } ms as := by
  have hfollows : ∀ rc, s.node.clients[i]? = some rc →
      ((s.peers i).dispatchBlocking method args).Follows (s.node.answersOf as i) rc.reply.out :=
    fun rc hrc ↦ (h.follows i rc hrc).dispatchBlocking method args
  by_cases hwaiting : (s.peers i).waiting
  · have hsame : (s.peers i).dispatchBlocking method args = s.peers i := if_pos hwaiting
    exact h.setReader (congrArg Peer.called hsame) (congrArg Peer.outgoing hsame) hfollows
  · have hcall : (s.peers i).dispatchBlocking method args = { s.peers i with
        outgoing := (s.peers i).outgoing ++ encode (method :: respArgs args)
        waiting := true
        called := (s.peers i).called ++ [method :: respArgs args] } := by
      rw [← buildRespCommand_eq]
      exact if_neg hwaiting
    refine h.setPeer ?_ (List.prefix_refl _) (List.prefix_refl _) ?_ hfollows
    · rw [hcall]
      exact h.node.enqueue hproto hemb hdb i hasks.sendable hasks.safe
    · rw [hcall]
      intro args' hargs'
      rcases List.mem_append.mp hargs' with hargs' | hargs'
      · exact h.asks i args' hargs'
      · exact List.mem_singleton.mp hargs' ▸ hasks

/-- Bytes reach the server.  A client has sent at most one command that is not executed, so
two iterations are enough. -/
theorem arrive (hproto : L.AppendsProto) (hemb : L.EmbedsSds) (hdb : ∀ rc ∈ clients, rc.dbid < dbNum)
    (h : s.Consistent L E stack hL dbNum clients ms as) {fuel : Nat} (hfuel : 1 < fuel) (i k : Nat) :
    ∃ s' ms' as', s.step (machine L E stack) fuel T (.arrive i k) = some s' ∧
      s'.Consistent L E stack hL dbNum clients ms' as' ∧ s.node.log <+: s'.node.log := by
  obtain ⟨n', ms', as', hstep, hnode, hlog, has⟩ : ∃ n' ms' as',
      s.node.step (machine L E stack) fuel (.read i ((s.peers i).outgoing.take k)) = some n' ∧
      n'.Consistent L E stack hL dbNum clients (Peer.called ∘ s.peers)
        (Function.update (Peer.outgoing ∘ s.peers) i ((s.peers i).outgoing.drop k)) ms' as' ∧
      s.node.log <+: n'.log ∧ as <+: as' := by
    cases hrc : s.node.clients[i]? with
    | none =>
        refine ⟨s.node, ms, as, Node.step_read_none hrc, h.node.of_eq fun j rc₀ h₀ ↦ ⟨rfl, ?_⟩,
          List.prefix_refl _, List.prefix_refl _⟩
        refine Function.update_of_ne ?_ _ _
        rintro rfl
        exact (List.getElem?_eq_none_iff.mp hrc).not_gt
          (h.node.length ▸ (List.getElem?_eq_some_iff.mp h₀).1)
    | some rc =>
        obtain ⟨rc₀, h₀⟩ := h.client hrc
        have hfollows := h.follows i rc hrc
        have hle := hfollows.length_le
        rw [Node.length_answersOf h.node.length_eq] at hle
        refine h.node.read hproto hemb hdb _ (List.take_append_drop k _).symm ?_ h₀ hrc
        have hbool := Bool.toNat_le (s.peers i).waiting
        rw [Function.comp_apply, hfollows.called]
        omega
  refine ⟨_, ms', as', ?_, h.setPeer (i := i) (p := (s.peers i).send k) ?_ hlog has (h.asks i) ?_,
    hlog⟩
  · show (s.node.step (machine L E stack) fuel _).bind _ = _
    rw [hstep]
    rfl
  · rw [show ((s.peers i).send k).called = (Peer.called ∘ s.peers) i from rfl, Function.update_eq_self]
    exact hnode
  · intro rc' hrc'
    exact (h.follows_node hnode hlog has hrc').send k

/-- **Every event keeps the invariant**, and the log is only added to. -/
theorem step (hproto : L.AppendsProto) (hemb : L.EmbedsSds) (hdb : ∀ rc ∈ clients, rc.dbid < dbNum)
    (hT : T.Reads) (h : s.Consistent L E stack hL dbNum clients ms as) {fuel : Nat} (hfuel : 1 < fuel)
    {e : SessionEvent} (he : e.Admissible) :
    ∃ s' ms' as', s.step (machine L E stack) fuel T e = some s' ∧
      s'.Consistent L E stack hL dbNum clients ms' as' ∧ s.node.log <+: s'.node.log := by
  cases e with
  | call i method args =>
      exact ⟨_, ms, as, rfl, h.call hproto hemb hdb i he, List.prefix_refl _⟩
  | arrive i k => exact h.arrive hproto hemb hdb hfuel i k
  | reply i k =>
      cases hrc : s.node.clients[i]? with
      | none =>
          refine ⟨s, ms, as, ?_, h, List.prefix_refl _⟩
          unfold Sessions.step
          dsimp only
          rw [hrc]
      | some rc =>
          refine ⟨_, ms, as, ?_, h.setReader (i := i) (p := (s.peers i).receive rc.reply.out k)
            rfl rfl ?_, List.prefix_refl _⟩
          · unfold Sessions.step
            dsimp only
            rw [hrc]
          · intro rc' hrc'
            cases hrc.symm.trans hrc'
            exact (h.follows i rc hrc).receive k
  | resume i =>
      obtain ⟨hcalled, houtgoing⟩ := (s.peers i).resume_frame T
      refine ⟨_, ms, as, rfl, h.setReader hcalled houtgoing ?_, List.prefix_refl _⟩
      intro rc hrc
      exact (h.follows i rc hrc).resume hT (h.readable i) (h.length_answersOf_le hrc)
  | tick clock =>
      exact ⟨_, ms, as, rfl, ⟨h.node.tick hproto hemb hdb clock, h.asks, h.follows⟩, List.prefix_refl _⟩

/-- **Every run keeps the invariant.** -/
theorem run (hproto : L.AppendsProto) (hemb : L.EmbedsSds) (hdb : ∀ rc ∈ clients, rc.dbid < dbNum)
    (hT : T.Reads) {fuel : Nat} (hfuel : 1 < fuel) {es : List SessionEvent}
    (hes : ∀ e ∈ es, e.Admissible) (h : s.Consistent L E stack hL dbNum clients ms as) :
    ∃ s' ms' as', s.run (machine L E stack) fuel T es = some s' ∧
      s'.Consistent L E stack hL dbNum clients ms' as' ∧ s.node.log <+: s'.node.log := by
  induction es generalizing s ms as with
  | nil => exact ⟨s, ms, as, rfl, h, List.prefix_refl _⟩
  | cons e es ih =>
      obtain ⟨s', ms', as', hstep, h', hlog⟩ := h.step hproto hemb hdb hT hfuel (hes e (by simp))
      obtain ⟨s'', ms'', as'', hrun, h'', hlog'⟩ :=
        ih (fun e' he' ↦ hes e' (List.mem_cons_of_mem e he')) h'
      refine ⟨s'', ms'', as'', ?_, h'', hlog.trans hlog'⟩
      rw [Sessions.run, List.foldlM_cons, hstep]
      exact hrun

end Sessions.Consistent

variable (E stack) in
/-- Before any script has called. -/
theorem Sessions.consistent_start (hL : L.StrictString2ll) (hproto : L.AppendsProto)
    (hemb : L.EmbedsSds) {hz : Int} (hhz : hz ≠ 0) (clock : Clock)
    (hclients : ∀ rc ∈ clients, rc.AtRest ∧ rc.dbid < dbNum) :
    Sessions.Consistent L E stack hL dbNum clients
      (.start (startRedisServer dbNum hz clock) clients) (fun _ ↦ .empty) [] := by
  have hnone : ∀ i : Nat, ∀ args ∈ ([] : List (List Bytes)), Sendable args ∧ Safe args :=
    fun _ _ hargs ↦ by cases hargs
  refine ⟨Node.consistent_start E stack hL hproto hemb hhz clock hclients hnone, ?_, ?_⟩
  · intro i args hargs
    cases hargs
  · intro i rc hrc
    have hdelivered : ((Sessions.start (startRedisServer dbNum hz clock) clients).peers i).delivered =
        rc.reply.out.length := by
      show clients[i]?.elim 0 _ = _
      rw [show clients[i]? = some rc from hrc]
      rfl
    refine ⟨rfl, List.nil_prefix, hdelivered.le, ?_⟩
    rw [hdelivered, List.drop_length]
    rfl

end Runs

/-- What a script sees: `calls` are the requests of its connection that have been executed,
`as` what the store answered, and `out` what the server has written. -/
structure Peer.Answered (T : Tcl) (p : Peer) (calls : List (List Bytes)) (as : List Answer)
    (out : Bytes) : Prop where
  /-- Its commands are executed in order, each once. -/
  executed : calls <+: p.called
  /-- It is handed the answers to them. -/
  results : p.results <+: as.map Answer.result
  /-- It is handed one result for each call. -/
  called : p.called.length = p.results.length + p.waiting.toNat
  /-- Nothing is left over when it does not wait. -/
  returned : p.waiting = false → calls = p.called ∧ p.results = as.map Answer.result ∧
    p.incoming = [] ∧ p.delivered = out.length
  /-- It does not wait any longer when everything has arrived. -/
  returns : p.waiting = true → p.outgoing = [] → p.delivered = out.length →
    ∃ a : Answer, p.results ++ [a.result] = as.map Answer.result ∧
      readOneRespReplyBlocking T false p.incoming = some (a.result, [])

theorem Sessions.Consistent.answered {E : Extension} {stack : Nat → Int} {hL : L.StrictString2ll}
    {dbNum : Nat} {clients : List RedisClient} {s : Sessions} {ms : Keyspaces} {as : List Answer}
    {T : Tcl} (hT : T.Reads) (h : s.Consistent L E stack hL dbNum clients ms as) {i : Nat}
    {rc : RedisClient} (hrc : s.node.clients[i]? = some rc) :
    (s.peers i).Answered T (s.node.callsOf i) (s.node.answersOf as i) rc.reply.out := by
  obtain ⟨rc₀, h₀⟩ := h.client hrc
  obtain ⟨hcalls, hfinished⟩ := h.node.callsOf h₀
  have hfollows := h.follows i rc hrc
  have hlen := Node.length_answersOf (i := i) h.node.length_eq
  have hpending := hfollows.pending hT (h.readable i) (h.length_answersOf_le hrc)
  refine ⟨hcalls, hfollows.results, hfollows.called, ?_, ?_⟩
  · intro hwaiting
    have hcalled := hfollows.called
    rw [hwaiting] at hcalled
    constructor
    · have hle := hfollows.length_le
      rw [hlen] at hle
      exact hcalls.eq_of_length_le (hcalled.trans_le hle)
    · rcases hpending with hread | ⟨a, hwaiting', -⟩
      · exact hread
      · rw [hwaiting] at hwaiting'
        cases hwaiting'
  · intro hwaiting houtgoing hdelivered
    have hall : s.node.callsOf i = (s.peers i).called := hfinished houtgoing
    rcases hpending with ⟨hresults, -⟩ | ⟨a, -, hresults, ⟨hlt, -⟩ | ⟨-, hread⟩⟩
    · -- the answer to the last call is there
      have hcalled := hfollows.called
      rw [hwaiting, ← hall, ← hlen, hresults, List.length_map, Bool.toNat_true] at hcalled
      omega
    · exact absurd hdelivered hlt.ne
    · exact ⟨a, hresults, hread⟩

theorem asks_set {k v : Bytes} (hk : (0 : UInt8) ∉ k)
    (hlen : ∀ s ∈ [k, v], (s.length : Int) ≤ protoMaxBulkLen) : Asks [ascii "set", k, v] := by
  refine ⟨⟨by simp, by simp, ?_⟩, safe_set hk,
    show ∀ name ∈ some (ascii "set"), _ from by decide⟩
  intro s hs
  rcases List.mem_cons.mp hs with rfl | hs
  · decide
  · exact hlen s hs

theorem asks_get {k : Bytes} (hlen : (k.length : Int) ≤ protoMaxBulkLen) : Asks [ascii "get", k] := by
  refine ⟨⟨by simp, by simp, ?_⟩, safe_get k,
    show ∀ name ∈ some (ascii "get"), _ from by decide⟩
  intro s hs
  rcases List.mem_cons.mp hs with rfl | hs
  · decide
  · exact List.mem_singleton.mp hs ▸ hlen

end LatteRedis
