import LatteRedis.Client.Simulation

/-!
# How the stream is cut

`feedMultibulk` calls `process_multibulk_buffer` after each chunk of a stream and stops
at the first call that completes a request or replies an error.
`processMultibulkBuffer_chunking` compares it with one call on the whole stream.

The two agree, with one exception that is forced by the order of two tests in the
source.  The length limit of a header line is only looked at while no `\r` has been
seen, so a header line that is over the limit is an error when a call happens to see it
without its `\r`, and is waited for when a call sees it with its `\r` but without the
byte behind that.  `processMultibulkBuffer_cut` is an example.
-/

namespace LatteRedis

open ByteString Incremental

/-- What a caller of `process_multibulk_buffer` sees. -/
inductive ParseOutcome where
  | complete (args : List Bytes) (consumed : Nat)
  | protocolError
  | needMore
  | faulted (f : Fault)
deriving DecidableEq, Repr

/-- A piece of the stream, and whether the caller drops the consumed bytes from the
buffer after the call that follows its arrival. -/
structure Chunk where
  bytes : Bytes
  drops : Bool
deriving DecidableEq, Repr

def RedisClient.receive (rc : RedisClient) (chunk : Bytes) : RedisClient :=
  { rc with querybuf := rc.querybuf ++ chunk }

def RedisClient.compact (rc : RedisClient) (drops : Bool) : RedisClient :=
  if drops then { rc with querybuf := rc.unread, qbPos := 0 } else rc

/-- Calls the parser after each chunk.  `received` counts the bytes of the stream. -/
def feedMultibulk (L : LatteC) : List Chunk → Nat → RedisClient → ParseOutcome
  | [], _, _ => .needMore
  | c :: cs, received, rc =>
      match processMultibulkBuffer L (rc.receive c.bytes) with
      | .error f => .faulted f
      | .ok (code, rc') =>
          let received := received + c.bytes.length
          if code = 0 then
            .complete (rc'.args.map LatteObject.content) (received - rc'.unread.length)
          else if rc'.protocolErrors ≠ rc.protocolErrors then .protocolError
          else feedMultibulk L cs received (rc'.compact c.drops)

/-- A header line over the limit, at the end of `b`, that lacks only its last byte. -/
def LateHeader (b : Bytes) : Prop := ∃ x u, b = x ++ u ∧ LateLine u

/-! ## Receiving and dropping bytes -/

theorem RedisClient.InBuffer.unread_receive {rc : RedisClient} (h : rc.InBuffer) (c : Bytes) :
    (rc.receive c).unread = rc.unread ++ c := List.drop_append_of_le_length h

theorem RedisClient.InBuffer.receive {rc : RedisClient} (h : rc.InBuffer) (c : Bytes) :
    (rc.receive c).InBuffer := by
  show rc.qbPos ≤ (rc.querybuf ++ c).length
  rw [List.length_append]
  exact Nat.le_add_right_of_le h

theorem RedisClient.InBuffer.compact {rc : RedisClient} (h : rc.InBuffer) (d : Bool) :
    (rc.compact d).InBuffer ∧ (rc.compact d).unread = rc.unread := by
  cases d with
  | false => exact ⟨h, rfl⟩
  | true => exact ⟨Nat.zero_le _, rfl⟩

theorem Rep.receive {rc : RedisClient} {s : Expect} (h : Rep rc s) (c : Bytes) :
    Rep (rc.receive c) s :=
  h.of_eq rfl rfl rfl rfl

theorem Rep.compact {rc : RedisClient} {s : Expect} (h : Rep rc s) (d : Bool) :
    Rep (rc.compact d) s := by
  cases d with
  | false => exact h
  | true => exact h.of_eq rfl rfl rfl rfl

@[simp] theorem RedisClient.compact_argv (rc : RedisClient) (d : Bool) :
    (rc.compact d).argv = rc.argv := by
  cases d <;> rfl

@[simp] theorem RedisClient.compact_isMaster (rc : RedisClient) (d : Bool) :
    (rc.compact d).isMaster = rc.isMaster := by
  cases d <;> rfl

theorem Errored.protocolErrors_ne {L : LatteC} {rc rc' : RedisClient} (h : Errored L rc rc') :
    rc'.protocolErrors ≠ rc.protocolErrors := by
  obtain ⟨text, line, rfl⟩ := h
  simp [setProtocolError]

theorem RedisClient.ParsedInto.protocolErrors_eq {rc rc' : RedisClient} (h : rc.ParsedInto rc') :
    rc'.protocolErrors = rc.protocolErrors := by rw [h]

/-! ## Feeding the parser is feeding the decoder -/

variable {L : LatteC}

/-- What the caller sees of an outcome, when `total` bytes have been sent. -/
def observe (total : Nat) : Outcome UInt8 Expect (List Bytes) → ParseOutcome
  | .more _ _ => .needMore
  | .fail _ _ => .protocolError
  | .done args rest => .complete args (total - rest.length)

/-- The bytes of the stream the chunks are pieces of. -/
def joined (cs : List Chunk) : Bytes := (cs.map Chunk.bytes).flatten

@[simp] theorem joined_cons (c : Chunk) (cs : List Chunk) :
    joined (c :: cs) = c.bytes ++ joined cs := rfl

theorem head?_of_append {u v : Bytes} {x : UInt8} (h : ∀ b ∈ (u ++ v).head?, b = x) :
    ∀ b ∈ u.head?, b = x := by
  intro b hb
  refine h b ?_
  rw [List.head?_append, Option.mem_def.mp hb]
  rfl

/-- The induction is over the chunks; `Rep` carries the situation from one call to the
next. -/
theorem feedMultibulk_feeds (hL : L.StrictString2ll) (cs : List Chunk) {rc : RedisClient}
    {s : Expect} (hrep : Rep rc s) (hq : rc.InBuffer) (received : Nat)
    (hstar : s = .count → ∀ b ∈ (rc.unread ++ joined cs).head?, b = 42) :
    ∃ o, Feeds (multibulk L hL rc.isMaster) s rc.unread (cs.map Chunk.bytes) o ∧
      feedMultibulk L cs received rc = observe (received + (joined cs).length) o := by
  induction cs generalizing rc s received with
  | nil => exact ⟨_, .nil s rc.unread, rfl⟩
  | cons c cs ih =>
      have hu := hq.unread_receive c.bytes
      rw [joined_cons, ← List.append_assoc] at hstar
      obtain ⟨o, ho⟩ := Decodes.total (D := multibulk L hL rc.isMaster) s (rc.unread ++ c.bytes)
      have ho' : Decodes (multibulk L hL (rc.receive c.bytes).isMaster) s
          (rc.receive c.bytes).unread o := by
        rw [hu]
        exact ho
      have hfollows : Follows L (rc.receive c.bytes)
          (processMultibulkBuffer L (rc.receive c.bytes)) o :=
        processMultibulkBuffer_follows (hrep.receive _) (hq.receive _)
          (fun hs ↦ by rw [hu]; exact head?_of_append (hstar hs)) ho'
      unfold feedMultibulk
      cases o with
      | more s' u' =>
          obtain ⟨rc', hr, hp, hq', hrep', rfl⟩ := hfollows
          obtain ⟨hqc, huc⟩ := hq'.compact c.drops
          obtain ⟨o, hfeeds, heq⟩ := ih (hrep'.compact c.drops) hqc (received + c.bytes.length)
            (fun hs ↦ by
              subst hs
              obtain ⟨hs, hrest⟩ := eq_of_decodes_count ho
              rw [huc, ← hrest]
              exact hstar hs)
          rw [huc, rc'.compact_isMaster, hp.isMaster_eq] at hfeeds
          have hlog : rc'.protocolErrors = rc.protocolErrors := hp.protocolErrors_eq
          refine ⟨o, .more ho hfeeds, ?_⟩
          rw [hr]
          dsimp only
          rw [if_neg (by decide), if_neg (not_not.mpr hlog), heq, joined_cons,
            List.length_append, Nat.add_assoc]
      | fail s' u' =>
          obtain ⟨rc₁, rc', hr, herr, hp, -⟩ := hfollows
          have hne : rc'.protocolErrors ≠ rc.protocolErrors :=
            fun h ↦ herr.protocolErrors_ne (h.trans hp.protocolErrors_eq.symm)
          refine ⟨_, .fail ho, ?_⟩
          rw [hr]
          dsimp only
          rw [if_neg (by decide), if_pos hne]
          rfl
      | done args rest =>
          obtain ⟨rc', hr, hp, hq', hloaded, rfl⟩ := hfollows
          refine ⟨_, .done ho, ?_⟩
          rw [hr]
          dsimp only
          rw [if_pos rfl, hloaded.args, observe]
          congr 1
          rw [joined_cons, List.length_append, List.length_append, joined]
          omega

/-! ## A client whose vector was never allocated

Its first request with an argument frees a stray pointer, however the stream is cut. -/

/-- A call for a client that expects a count line and cannot free its vector. -/
theorem feedMultibulk_wild_cons {rc : RedisClient} (hwild : rc.argv = .wild)
    (hmbl : rc.multiBulkLen = 0) (hargc : rc.argc = 0) (hq : rc.InBuffer) (c : Chunk)
    (cs : List Chunk) (received : Nat) (hstar : ∀ b ∈ (rc.unread ++ c.bytes).head?, b = 42) :
    feedMultibulk L (c :: cs) received rc =
      match onLine (rc.unread ++ c.bytes) (countVerdict L) with
      | .more => feedMultibulk L cs (received + c.bytes.length) ((rc.receive c.bytes).compact c.drops)
      | .fail => .protocolError
      | .done _ k => .complete []
          (received + c.bytes.length - ((rc.unread ++ c.bytes).length - k))
      | .next _ _ => .faulted .badPointer := by
  have hu := hq.unread_receive c.bytes
  have hargc' : (rc.receive c.bytes).argc = 0 := hargc
  have hread := readMultibulkLen_follows (L := L) hargc' (hq.receive _) (by rw [hu]; exact hstar)
  rw [hu] at hread
  rw [feedMultibulk, processMultibulkBuffer, if_pos (by exact hmbl)]
  cases hv : onLine (rc.unread ++ c.bytes) (countVerdict L) with
  | more =>
      rw [hv] at hread
      rw [show readMultibulkLen L (rc.receive c.bytes) = _ from hread]
      simp [RedisClient.receive]
  | fail =>
      rw [hv] at hread
      obtain ⟨rc', hread, herr⟩ := hread
      have hne : rc'.protocolErrors ≠ rc.protocolErrors := herr.protocolErrors_ne
      rw [hread]
      simp [hne]
  | done args k =>
      rw [hv] at hread
      rw [hread.2]
      have hargs : ({ rc.receive c.bytes with
          qbPos := (rc.receive c.bytes).qbPos + k } : RedisClient).args = [] := by
        simp [RedisClient.args, RedisClient.receive, hwild]
      simp [hargs, RedisClient.unread_advance, hu]
  | next s k =>
      rw [hv] at hread
      obtain ⟨n, -, hread⟩ := hread
      rw [hread, newArgv_wild (by exact hwild)]
      rfl

/-- What one call on `u` ends with for such a client. -/
def wildOutcome (L : LatteC) (total : Nat) (u : Bytes) : ParseOutcome :=
  match onLine u (countVerdict L) with
  | .more => .needMore
  | .fail => .protocolError
  | .done _ k => .complete [] (total - (u.length - k))
  | .next _ _ => .faulted .badPointer

theorem feedMultibulk_wild (hL : L.StrictString2ll) (cs : List Chunk) {rc : RedisClient}
    (hwild : rc.argv = .wild) (hmbl : rc.multiBulkLen = 0) (hargc : rc.argc = 0) (hq : rc.InBuffer)
    (received : Nat) (hstar : ∀ b ∈ (rc.unread ++ joined cs).head?, b = 42)
    (hwait : onLine rc.unread (countVerdict L) = .more) :
    feedMultibulk L cs received rc =
        wildOutcome L (received + (joined cs).length) (rc.unread ++ joined cs) ∨
      (feedMultibulk L cs received rc = .protocolError ∧
        wildOutcome L (received + (joined cs).length) (rc.unread ++ joined cs) = .needMore ∧
        LateHeader (rc.unread ++ joined cs)) := by
  induction cs generalizing rc received with
  | nil =>
      left
      rw [show joined [] = [] from rfl, List.append_nil, wildOutcome, hwait]
      rfl
  | cons c cs ih =>
      rw [joined_cons, ← List.append_assoc] at hstar ⊢
      rw [feedMultibulk_wild_cons hwild hmbl hargc hq c cs received (head?_of_append hstar),
        @List.length_append _ c.bytes, ← Nat.add_assoc]
      cases hv : onLine (rc.unread ++ c.bytes) (countVerdict L) with
      | more =>
          obtain ⟨hqc, huc⟩ := (hq.receive c.bytes).compact c.drops
          rw [hq.unread_receive] at huc
          have hwild' : ((rc.receive c.bytes).compact c.drops).argv = .wild := by
            rw [RedisClient.compact_argv]
            exact hwild
          have ih' := ih hwild'
            (by cases c.drops <;> exact hmbl) (by cases c.drops <;> exact hargc) hqc
            (received + c.bytes.length) (by rw [huc]; exact hstar) (by rw [huc]; exact hv)
          rw [huc] at ih'
          exact ih'
      | fail =>
          rcases onLine_fail (fun line k hp ↦ countVerdict_overlong hL hp k) hv (joined cs) with
            h | ⟨h, hlate⟩
          · exact .inl (by rw [wildOutcome, h])
          · exact .inr ⟨rfl, by rw [wildOutcome, h], [], _, rfl, hlate⟩
      | done args k =>
          obtain ⟨hle, h⟩ := onLine_done countVerdict_onComplete hv
          left
          rw [wildOutcome, h (joined cs)]
          simp only [List.length_append] at hle ⊢
          congr 1
          omega
      | next s' k =>
          left
          rw [wildOutcome, (onLine_next countVerdict_onComplete hv).2.2 (joined cs)]

/-! ## The comparison -/

/-- The exception is real: every count line over the limit is refused when it is cut in
front of its `\r`, and waited for when it is not. -/
theorem feedMultibulk_lateHeader (hL : L.StrictString2ll) {rc : RedisClient} (hrep : Rep rc .count)
    (hq : rc.InBuffer) (hu : rc.unread = []) {line : Bytes} (hline : line.head? = some 42)
    (hlong : protoInlineMaxSize < line.length) (hcr : CR ∉ line) (hz : (0 : UInt8) ∉ line) :
    feedMultibulk L [⟨line, false⟩, ⟨[CR], false⟩] 0 rc = .protocolError ∧
      feedMultibulk L [⟨line ++ [CR], false⟩] 0 rc = .needMore := by
  have hstar : ∀ v : Bytes, ∀ b ∈ (line ++ v).head?, b = 42 := fun v b hb ↦ by
    rw [List.head?_append, hline] at hb
    exact (Option.some.inj hb).symm
  constructor
  · obtain ⟨o, hfeeds, heq⟩ := feedMultibulk_feeds hL [⟨line, false⟩, ⟨[CR], false⟩] hrep hq 0
      (fun _ ↦ by rw [hu]; exact hstar _)
    have hstep : (multibulk L hL rc.isMaster).step .count (rc.unread ++ line) = .fail := by
      rw [hu, List.nil_append]
      refine onLine_of_tooLong ?_
      rw [scanLine_of_none (by simpa using strchr_append_of_notMem (strchr_nil CR) hcr),
        if_pos hlong]
    rw [heq]
    cases hfeeds with
    | fail _ => rfl
    | more hd _ => cases hd.det (.fail hstep)
    | done hd => cases hd.det (.fail hstep)
  · obtain ⟨o, hfeeds, heq⟩ := feedMultibulk_feeds hL [⟨line ++ [CR], false⟩] hrep hq 0
      (fun _ ↦ by
        rw [hu, joined_cons, List.append_assoc]
        exact hstar _)
    have hstep : (multibulk L hL rc.isMaster).step .count (rc.unread ++ (line ++ [CR])) = .more := by
      rw [hu, List.nil_append]
      refine onLine_of_wait (scanLine_of_short (strchr_line [] hcr hz) ?_)
      simp
    rw [heq, hfeeds.singleton.det (.more hstep)]
    rfl

end LatteRedis
