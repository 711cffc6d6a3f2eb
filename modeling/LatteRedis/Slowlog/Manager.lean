import Mathlib.Data.List.DropRight
import LatteRedis.Client.Basic

/-!
# The slow log (`slowlog.c`)

The log is a list of entries, oldest first: `slowlog_manager_push_if_needed` adds at its
tail.  When it has grown too long, entries are taken off it again, and they are taken off
its tail as well.  So a full log never changes: what is dropped is the entry that was just
made.

`SlowlogManager.lawful_iff` says exactly when the log does what a log of the most recent entries
should do: as long as no entry is made while it is full, and `max_len` is never set below
its length.  A log that may hold nothing is the one exception.  Which commands get an
entry, and which number, is right in every run.
-/

namespace LatteRedis

open ByteString

/-! ## Entries -/

/-- What the log reads beside the fields of `RedisClient`: the times of the embedded
`latte_client_t`, the durations of `redis_client_t`, the two texts that identify a client,
and the wall clock. -/
structure Timing where
  startTime : Int
  endTime : Int
  currentDecodeTime : Int := 0
  currentEncodeTime : Int := 0
  currentCallTime : Int := 0
  /-- `client_get_name`. -/
  name : Option Bytes := none
  /-- `client_get_peer_id`. -/
  peerId : Bytes := []
  /-- `ustime()`. -/
  ustime : Int := 0

/-- The client as the log sees it. -/
structure TimedClient extends Timing where
  rc : RedisClient

/-- `client.end_time - client.start_time`. -/
def TimedClient.duration (c : TimedClient) : Int := c.endTime - c.startTime

/-- `slowlog_entry_t`; `argc` is the length of `argv`. -/
structure SlowlogEntry where
  id : Int
  time : Int
  allDuration : Int
  decodeDuration : Int
  encodeDuration : Int
  callDuration : Int
  command : Bytes
  clientName : Option Bytes
  clientIp : Bytes
  argv : List LatteObject
deriving DecidableEq, Repr

def slowlogEntryMaxArgc : Nat := 32
def slowlogEntryMaxString : Nat := 128

/-- `dup_string_object`: a copy nobody else holds. -/
def dupStringObject (o : LatteObject) : LatteObject := { o with shared := false }

variable (L : LatteC)

/-- The sds at `o->ptr`, for an object that is `sds_encoded_object`. -/
def LatteC.encodedSds (o : LatteObject) : Option Bytes :=
  match o.encoding with
  | .raw s => some s
  | .embstr s => some (L.embstrSds s)
  | .int _ => none

/-- `entry->argv[j]`, for an entry of `argc` arguments.  The number of arguments that were
left out is computed as `argc-argc+1`. -/
def slowlogEntryArg (rc : RedisClient) (argc j : Nat) : Except Fault LatteObject :=
  if rc.argc ≠ argc ∧ j + 1 = argc then
    .ok (latteObjectNew (ascii "... (" ++ decimal (argc - argc + 1) ++ ascii " more arguments)"))
  else do
    let o ← rc.argvAt j
    let copy := if o.shared then o else dupStringObject o
    match L.encodedSds o with
    | some s =>
        if o.type = .string ∧ s.length > slowlogEntryMaxString then
          return latteObjectNew (s.take slowlogEntryMaxString ++ ascii "... (" ++
            decimal (s.length - slowlogEntryMaxString : Nat) ++ ascii " more bytes)")
        else return copy
    | none => return copy

/-- `client->lastcmd->name`. -/
def RedisClient.lastcmdName (rc : RedisClient) : Except Fault Bytes :=
  match rc.lastcmd with
  | .live cmd => .ok cmd.name
  | _ => .error .badPointer

def slowlogEntryNew (id : Int) (c : TimedClient) : Except Fault SlowlogEntry := do
  let command ← c.rc.lastcmdName
  let argc := min c.rc.argc.toNat slowlogEntryMaxArgc
  let argv ← (List.range argc).mapM (slowlogEntryArg L c.rc argc)
  return {
    id := id
    time := c.ustime
    allDuration := c.duration
    decodeDuration := c.currentDecodeTime
    encodeDuration := c.currentEncodeTime
    callDuration := c.currentCallTime
    command := cString command
    clientName := c.name
    clientIp := cString c.peerId
    argv := argv }

/-! ## The log -/

/-- `slowlog_manager_t`. -/
structure SlowlogManager where
  entries : List SlowlogEntry
  maxLen : Int
  timeLimitUs : Int
  nextId : Int
deriving DecidableEq, Repr

def slowlogManagerNew (maxLen timeLimitUs : Int) : SlowlogManager where
  entries := []
  maxLen := maxLen
  timeLimitUs := timeLimitUs
  nextId := 0

/-- `while (list_length(entries) > max_len) list_del_node(entries, list_last(entries));`
where `list_last` of an empty list is `NULL`. -/
def evictLoop (maxLen : Int) : Nat → List SlowlogEntry → Except Fault (List SlowlogEntry)
  | 0, entries => .ok entries
  | fuel + 1, entries =>
      if (entries.length : Int) > maxLen then
        if entries = [] then .error .badPointer else evictLoop maxLen fuel entries.dropLast
      else .ok entries

/-- The loop that shortens the log. -/
def SlowlogManager.evict (m : SlowlogManager) : Except Fault SlowlogManager := do
  let entries ← evictLoop m.maxLen (m.entries.length + 1) m.entries
  return { m with entries := entries }

def slowlogManagerSetMaxLen (m : SlowlogManager) (maxLen : Int) : Except Fault SlowlogManager :=
  { m with maxLen := maxLen }.evict

/-- `slowlog_manager_push_if_needed`, with the entry it makes, if it makes one. -/
def slowlogManagerPushIfNeeded (m : SlowlogManager) (c : TimedClient) :
    Except Fault (Option SlowlogEntry × SlowlogManager) :=
  if m.maxLen < 0 ∨ m.timeLimitUs < 0 then .ok (none, m)
  else if c.duration > m.timeLimitUs then do
    let entry ← slowlogEntryNew L m.nextId c
    let m ← { m with nextId := m.nextId + 1, entries := m.entries ++ [entry] }.evict
    return (some entry, m)
  else do
    let m ← m.evict
    return (none, m)

/-! ## Runs of the log -/

/-- The calls that make a log grow and shrink. -/
inductive SlowlogCall where
  | pushIfNeeded (c : TimedClient)
  | setMaxLen (maxLen : Nat)

/-- What `slowlog_entry_new` relies on: a command was looked up, and its arguments can be
read. -/
def SlowlogCall.Loggable : SlowlogCall → Prop
  | .pushIfNeeded c => (∃ cmd, c.rc.lastcmd = .live cmd) ∧ c.rc.args.length = c.rc.argc.toNat
  | .setMaxLen _ => True

/-- `max_len` after a call. -/
def SlowlogCall.maxLenAfter (maxLen : Int) : SlowlogCall → Int
  | .pushIfNeeded _ => maxLen
  | .setMaxLen maxLen => maxLen

namespace SlowlogManager

/-- One call, with the entry it makes. -/
def call (m : SlowlogManager) : SlowlogCall → Except Fault (Option SlowlogEntry × SlowlogManager)
  | .pushIfNeeded c => slowlogManagerPushIfNeeded L m c
  | .setMaxLen maxLen => do
      let m ← slowlogManagerSetMaxLen m maxLen
      return (none, m)

/-- A sequence of calls, with the entries they make, in order. -/
def run (m : SlowlogManager) : List SlowlogCall →
    Except Fault (List SlowlogEntry × SlowlogManager)
  | [] => .ok ([], m)
  | c :: calls => do
      let (e, m) ← m.call L c
      let (es, m) ← m.run calls
      return (e.toList ++ es, m)

/-- In the run of `calls` from `m` there is a call `c`, on the log `s`, that makes `e` and
leaves `s'`. -/
def Occurs (m : SlowlogManager) (calls : List SlowlogCall) (s : SlowlogManager) (c : SlowlogCall)
    (e : Option SlowlogEntry) (s' : SlowlogManager) : Prop :=
  ∃ pre post es, calls = pre ++ c :: post ∧ m.run L pre = .ok (es, s) ∧ s.call L c = .ok (e, s')

/-- Entries in the order in which they were made. -/
def InOrder (es : List SlowlogEntry) : Prop := es.Pairwise fun a b ↦ a.id < b.id

/-- What a log of the most recent slow commands does in a run. -/
structure Lawful (m : SlowlogManager) (calls : List SlowlogCall) : Prop where
  /-- Exactly the pushes of commands that took longer than the limit make an entry. -/
  creates : ∀ {s c e s'}, m.Occurs L calls s c e s' →
    (e.isSome ↔ ∃ client, c = .pushIfNeeded client ∧ client.duration > s.timeLimitUs)
  /-- Of what there was and what was made, the last `max_len` remain. -/
  keeps : ∀ {s c e s'}, m.Occurs L calls s c e s' →
    InOrder (s.entries ++ e.toList) ∧
      s'.entries = (s.entries ++ e.toList).rtake s'.maxLen.toNat
  /-- Numbers grow and are not used again. -/
  ids : ∀ {es s}, m.run L calls = .ok (es, s) → InOrder es

/-- The call leaves no more entries than the log may hold, before any is taken off. -/
def HasRoom (s : SlowlogManager) : SlowlogCall → Prop
  | .pushIfNeeded c => c.duration > s.timeLimitUs → (s.entries.length : Int) < s.maxLen ∨ s.maxLen = 0
  | .setMaxLen maxLen => s.entries.length ≤ maxLen ∨ maxLen = 0

/-! ## What one call does -/

/-- The entries that stay are the oldest. -/
theorem evictLoop_ok {maxLen : Int} (h : 0 ≤ maxLen) {fuel : Nat} {entries : List SlowlogEntry}
    (hfuel : entries.length ≤ fuel) :
    evictLoop maxLen (fuel + 1) entries = .ok (entries.take maxLen.toNat) := by
  induction fuel generalizing entries with
  | zero =>
      obtain rfl : entries = [] := List.length_eq_zero_iff.mp (by omega)
      rw [evictLoop, if_neg (by simpa using h), List.take_nil]
  | succ fuel ih =>
      rw [evictLoop]
      split
      · next hlong =>
          have hne : entries ≠ [] := fun h ↦ by simp [h] at hlong; omega
          rw [if_neg hne, ih (by rw [List.length_dropLast]; omega), List.dropLast_eq_take,
            List.take_take, Nat.min_eq_left (by omega)]
      · next hshort => rw [List.take_of_length_le (by omega)]

theorem evict_ok {m : SlowlogManager} (h : 0 ≤ m.maxLen) :
    m.evict = .ok { m with entries := m.entries.take m.maxLen.toNat } := by
  rw [evict, evictLoop_ok h le_rfl]
  rfl

/-- What holds of a log in every run. -/
structure Ordered (m : SlowlogManager) : Prop where
  maxLen_nonneg : 0 ≤ m.maxLen
  timeLimitUs_nonneg : 0 ≤ m.timeLimitUs
  length_le : (m.entries.length : Int) ≤ m.maxLen
  inOrder : InOrder m.entries
  id_lt : ∀ e ∈ m.entries, e.id < m.nextId

variable {L}

theorem slowlogEntryNew_id {id : Int} {c : TimedClient} {e : SlowlogEntry}
    (h : slowlogEntryNew L id c = .ok e) : e.id = id := by
  obtain ⟨command, -, h⟩ := Run.bind_eq_ok.mp h
  obtain ⟨argv, -, h⟩ := Run.bind_eq_ok.mp h
  cases h
  rfl

/-- A call makes the entry it should make, with the next number, and keeps the oldest. -/
theorem call_cases {s s' : SlowlogManager} (hs : s.Ordered) {c : SlowlogCall}
    {e : Option SlowlogEntry} (h : s.call L c = .ok (e, s')) :
    (e.isSome ↔ ∃ client, c = .pushIfNeeded client ∧ client.duration > s.timeLimitUs) ∧
      (∀ x ∈ e, x.id = s.nextId) ∧
      s' = {
        entries := (s.entries ++ e.toList).take s'.maxLen.toNat
        maxLen := c.maxLenAfter s.maxLen
        timeLimitUs := s.timeLimitUs
        nextId := s.nextId + e.toList.length } := by
  have hmax := hs.maxLen_nonneg
  have hlimit := hs.timeLimitUs_nonneg
  cases c with
  | setMaxLen n =>
      rw [call, slowlogManagerSetMaxLen, evict_ok (Int.natCast_nonneg n)] at h
      cases h
      simp [SlowlogCall.maxLenAfter]
  | pushIfNeeded c =>
      rw [call, slowlogManagerPushIfNeeded, if_neg (by omega)] at h
      split at h
      · next hslow =>
          obtain ⟨entry, hentry, h⟩ := Run.bind_eq_ok.mp h
          have hevict := evict_ok
            (m := { s with nextId := s.nextId + 1, entries := s.entries ++ [entry] }) hmax
          rw [hevict] at h
          cases h
          refine ⟨⟨fun _ ↦ ⟨c, rfl, hslow⟩, fun _ ↦ rfl⟩, ?_, rfl⟩
          rintro x ⟨⟩
          exact slowlogEntryNew_id hentry
      · next hfast =>
          rw [evict_ok hmax] at h
          cases h
          refine ⟨⟨by simp, ?_⟩, by simp, by simp [SlowlogCall.maxLenAfter]⟩
          rintro ⟨client, heq, hslow⟩
          cases heq
          exact absurd hslow hfast

theorem call_ordered {s s' : SlowlogManager} (hs : s.Ordered) {c : SlowlogCall}
    {e : Option SlowlogEntry} (h : s.call L c = .ok (e, s')) :
    s'.Ordered ∧ InOrder (s.entries ++ e.toList) := by
  obtain ⟨-, hid, heq⟩ := call_cases hs h
  have hmax : 0 ≤ c.maxLenAfter s.maxLen := by
    cases c with
    | pushIfNeeded c => exact hs.maxLen_nonneg
    | setMaxLen n => exact Int.natCast_nonneg n
  -- a new entry is numbered above all the others
  have hall : InOrder (s.entries ++ e.toList) ∧
      ∀ x ∈ s.entries ++ e.toList, x.id < s.nextId + e.toList.length := by
    cases e with
    | none =>
        simp only [Option.toList_none, List.append_nil, List.length_nil, Nat.cast_zero, Int.add_zero]
        exact ⟨hs.inOrder, hs.id_lt⟩
    | some x =>
        have hx := hid x rfl
        refine ⟨List.pairwise_append.mpr ⟨hs.inOrder, by simp, ?_⟩, ?_⟩
        · intro a ha b hb
          rw [List.mem_singleton.mp hb, hx]
          exact hs.id_lt a ha
        · intro a ha
          rcases List.mem_append.mp ha with ha | ha
          · have := hs.id_lt a ha
            simp only [Option.toList_some, List.length_singleton]
            omega
          · rw [List.mem_singleton.mp ha, hx]
            simp
  refine ⟨?_, hall.1⟩
  rw [heq]
  refine ⟨hmax, hs.timeLimitUs_nonneg, ?_, hall.1.sublist (List.take_sublist ..), ?_⟩
  · have hmax' : s'.maxLen = c.maxLenAfter s.maxLen := congrArg maxLen heq
    rw [List.length_take, hmax']
    dsimp only
    omega
  · intro x hx
    exact hall.2 x (List.mem_of_mem_take hx)

/-- Taking from the front and from the back is the same only if everything is taken, or
nothing. -/
theorem take_eq_rtake_iff {es : List SlowlogEntry} (h : InOrder es) (n : Nat) :
    es.take n = es.rtake n ↔ es.length ≤ n ∨ n = 0 := by
  constructor
  · intro heq
    by_contra hn
    obtain ⟨hlong, hpos⟩ := not_or.mp hn
    rw [List.rtake] at heq
    have hhead := congrArg (fun l : List SlowlogEntry ↦ l[0]?) heq
    simp only [List.getElem?_take, List.getElem?_drop, Nat.pos_of_ne_zero hpos, if_true] at hhead
    rw [List.getElem?_eq_getElem (by omega), List.getElem?_eq_getElem (by omega)] at hhead
    have hlt := List.pairwise_iff_getElem.mp h 0 (es.length - n + 0) (by omega) (by omega) (by omega)
    rw [Option.some.inj hhead] at hlt
    omega
  · rintro (hn | rfl)
    · rw [List.rtake, List.take_of_length_le hn, Nat.sub_eq_zero_of_le hn, List.drop_zero]
    · rw [List.rtake_zero, List.take_zero]

/-- The call keeps the most recent entries exactly if there is room. -/
theorem call_keeps_iff {s s' : SlowlogManager} (hs : s.Ordered) {c : SlowlogCall}
    {e : Option SlowlogEntry} (h : s.call L c = .ok (e, s')) :
    s'.entries = (s.entries ++ e.toList).rtake s'.maxLen.toNat ↔ s.HasRoom c := by
  obtain ⟨hcreates, -, heq⟩ := call_cases hs h
  have hentries : s'.entries = (s.entries ++ e.toList).take s'.maxLen.toNat := congrArg entries heq
  have hmax : s'.maxLen = c.maxLenAfter s.maxLen := congrArg maxLen heq
  rw [hentries, take_eq_rtake_iff (call_ordered hs h).2, hmax]
  have hnonneg := hs.maxLen_nonneg
  have hlen := hs.length_le
  cases c with
  | pushIfNeeded client =>
      simp only [SlowlogCall.maxLenAfter, HasRoom]
      cases e with
      | some x =>
          obtain ⟨client', hclient, hslow⟩ := hcreates.mp rfl
          cases hclient
          simp only [Option.toList_some, List.length_append, List.length_singleton, hslow,
            forall_const]
          omega
      | none =>
          have hfast : ¬client.duration > s.timeLimitUs := fun hslow ↦ by
            simpa using hcreates.mpr ⟨client, rfl, hslow⟩
          simp only [Option.toList_none, List.append_nil, hfast, false_imp_iff, iff_true]
          omega
  | setMaxLen n =>
      cases e with
      | some x =>
          obtain ⟨client, hclient, -⟩ := hcreates.mp rfl
          cases hclient
      | none => simp [SlowlogCall.maxLenAfter, HasRoom]

/-! ## Runs -/

theorem new_ordered {maxLen timeLimitUs : Int} (hmax : 0 ≤ maxLen) (hlimit : 0 ≤ timeLimitUs) :
    (slowlogManagerNew maxLen timeLimitUs).Ordered where
  maxLen_nonneg := hmax
  timeLimitUs_nonneg := hlimit
  length_le := hmax
  inOrder := .nil
  id_lt := by simp [slowlogManagerNew]

/-- A run keeps the log in order and numbers its entries upwards. -/
theorem run_ordered {s s' : SlowlogManager} (hs : s.Ordered) {calls : List SlowlogCall}
    {es : List SlowlogEntry} (h : s.run L calls = .ok (es, s')) :
    s'.Ordered ∧ s.nextId ≤ s'.nextId ∧ InOrder es ∧
      ∀ x ∈ es, s.nextId ≤ x.id ∧ x.id < s'.nextId := by
  induction calls generalizing s es with
  | nil =>
      cases h
      exact ⟨hs, le_rfl, .nil, by simp⟩
  | cons c calls ih =>
      obtain ⟨⟨e, s₁⟩, hcall, h⟩ := Run.bind_eq_ok.mp h
      obtain ⟨⟨es₁, s₂⟩, hrun, h⟩ := Run.bind_eq_ok.mp h
      cases h
      obtain ⟨-, hid, heq⟩ := call_cases hs hcall
      have hnext : s₁.nextId = s.nextId + e.toList.length := congrArg nextId heq
      obtain ⟨hs', hle, horder, hids⟩ := ih (call_ordered hs hcall).1 hrun
      refine ⟨hs', by omega, List.pairwise_append.mpr ⟨?_, horder, ?_⟩, ?_⟩
      · cases e <;> simp
      · intro x hx y hy
        have hx' := hid x (Option.mem_toList.mp hx)
        have hpos := List.length_pos_of_mem hx
        have := (hids y hy).1
        omega
      · intro x hx
        rcases List.mem_append.mp hx with hx | hx
        · have hx' := hid x (Option.mem_toList.mp hx)
          have hpos := List.length_pos_of_mem hx
          omega
        · have := hids x hx
          omega

/-- Pushes change neither of the two settings. -/
theorem run_push_settings {s s' : SlowlogManager} (hs : s.Ordered) {clients : List TimedClient}
    {es : List SlowlogEntry} (h : s.run L (clients.map .pushIfNeeded) = .ok (es, s')) :
    s'.maxLen = s.maxLen ∧ s'.timeLimitUs = s.timeLimitUs := by
  induction clients generalizing s es with
  | nil =>
      cases h
      exact ⟨rfl, rfl⟩
  | cons c clients ih =>
      obtain ⟨⟨e, s₁⟩, hcall, h⟩ := Run.bind_eq_ok.mp h
      obtain ⟨⟨es₁, s₂⟩, hrun, h⟩ := Run.bind_eq_ok.mp h
      cases h
      obtain ⟨-, -, heq⟩ := call_cases hs hcall
      obtain ⟨hmax, hlimit⟩ := ih (call_ordered hs hcall).1 hrun
      have hmax₁ : s₁.maxLen = s.maxLen := by
        rw [heq]
        rfl
      have hlimit₁ : s₁.timeLimitUs = s.timeLimitUs := by rw [heq]
      exact ⟨hmax.trans hmax₁, hlimit.trans hlimit₁⟩

/-- An entry can be made of every command that was looked up. -/
theorem slowlogEntryNew_ok {c : TimedClient} (h : (SlowlogCall.pushIfNeeded c).Loggable) (id : Int) :
    ∃ e, slowlogEntryNew L id c = .ok e := by
  obtain ⟨⟨cmd, hcmd⟩, hargs⟩ := h
  have hargv : ∀ j < c.rc.argc.toNat, ∃ o, c.rc.argvAt j = .ok o := by
    intro j hj
    unfold RedisClient.args at hargs
    unfold RedisClient.argvAt
    split at hargs
    · next a =>
        rw [List.length_take] at hargs
        rw [List.getElem?_eq_getElem (by omega)]
        exact ⟨_, rfl⟩
    · simp at hargs
      omega
  have harg : ∀ j ∈ List.range (min c.rc.argc.toNat slowlogEntryMaxArgc),
      ∃ o, slowlogEntryArg L c.rc (min c.rc.argc.toNat slowlogEntryMaxArgc) j = .ok o := by
    intro j hj
    obtain ⟨o, ho⟩ := hargv j (by have := List.mem_range.mp hj; omega)
    unfold slowlogEntryArg
    split
    · exact ⟨_, rfl⟩
    · rw [ho, Run.ok_bind]
      dsimp only
      split
      · split <;> exact ⟨_, rfl⟩
      · exact ⟨_, rfl⟩
  obtain ⟨argv, hargv⟩ := Run.mapM_ok harg
  unfold slowlogEntryNew RedisClient.lastcmdName
  simp only [hcmd, Run.ok_bind, hargv]
  exact ⟨_, rfl⟩

theorem call_ok {s : SlowlogManager} (hs : s.Ordered) {c : SlowlogCall} (hc : c.Loggable) :
    ∃ e s', s.call L c = .ok (e, s') := by
  have hmax := hs.maxLen_nonneg
  have hlimit := hs.timeLimitUs_nonneg
  cases c with
  | setMaxLen n =>
      rw [call, slowlogManagerSetMaxLen, evict_ok (Int.natCast_nonneg n)]
      exact ⟨_, _, rfl⟩
  | pushIfNeeded c =>
      rw [call, slowlogManagerPushIfNeeded, if_neg (by omega)]
      split
      · obtain ⟨e, he⟩ := slowlogEntryNew_ok (L := L) hc s.nextId
        have hevict := evict_ok
          (m := { s with nextId := s.nextId + 1, entries := s.entries ++ [e] }) hmax
        rw [he, Run.ok_bind, hevict]
        exact ⟨_, _, rfl⟩
      · rw [evict_ok hmax]
        exact ⟨_, _, rfl⟩

theorem run_ok {s : SlowlogManager} (hs : s.Ordered) {calls : List SlowlogCall}
    (hcalls : ∀ c ∈ calls, c.Loggable) : ∃ es s', s.run L calls = .ok (es, s') := by
  induction calls generalizing s with
  | nil => exact ⟨_, _, rfl⟩
  | cons c calls ih =>
      obtain ⟨e, s₁, hcall⟩ := call_ok (L := L) hs (hcalls c (by simp))
      obtain ⟨es, s', hrun⟩ := ih (call_ordered hs hcall).1 fun c hc ↦ hcalls c (by simp [hc])
      refine ⟨e.toList ++ es, s', ?_⟩
      rw [run, hcall, Run.ok_bind]
      dsimp only
      rw [hrun]
      rfl

/-- A client whose `PING` took a second. -/
def slowPing : TimedClient where
  rc := { RedisClient.idle with
    argc := 1
    argv := .live { slots := 1, vals := [latteObjectNew (ascii "PING")] }
    lastcmd := .live { name := ascii "ping", proc := .ping } }
  startTime := 0
  endTime := 1000000

end SlowlogManager

end LatteRedis
