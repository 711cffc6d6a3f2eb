import LatteRedis.Command.Returns

/-!
# One request, one reply

Clients match replies to requests by position, so handling a request should append one
RESP value to the output.  `oneReply_iff` says for which requests it does.

The requests for which it does not are of four kinds.  Nothing at all is replied to an
unknown command and to most forms of `MODULE`.  `INFO` replies sixteen bytes that are no
RESP value.  `MODULE` without a subcommand and some `SET`s stop the server.  And a string
is replied with the length of its object in front, but with as many bytes behind it as
`sds_len` finds at the object's pointer, which for an `EMBSTR` object is not an sds.
-/

namespace LatteRedis

open ByteString Resp

variable {L : LatteC} {E : Extension}

/-- Handling a request of `rc` has this result: one value behind what was in the output. -/
def OneReply (rc : RedisClient) (result : Except Fault (Server × RedisClient)) : Prop :=
  ∃ server' rc' v, result = .ok (server', rc') ∧ rc'.reply.out = rc.reply.out ++ v ∧ IsValue v

/-- As many bytes are sent for the object as its length says. -/
def LatteC.Measures (L : LatteC) (o : LatteObject) : Prop :=
  (L.objectBytes o).length = o.content.length

/-- The requests that get one reply. -/
def Request.Answerable (L : LatteC) (server : Server) (r : Request) : Prop :=
  match (commandManagerLookup server r.name).map RedisCommand.proc with
  | some .quit => True
  | some .module =>
      (∃ sub, r.operands = [sub] ∧ strcaseeq sub (ascii "help")) ∨
        ∃ sub path rest, r.operands = sub :: path :: rest ∧ strcaseeq sub (ascii "load")
  | some .ping => ∀ s o, r.operands = [s] → r.client.argvAt 1 = .ok o → L.Measures o
  | some .expire => ∀ k s, r.operands = [k, s] → (expireSeconds L s).isSome →
      (server.dbs[r.client.dbid]?).isSome
  | some (.dispatcher .get) => ∀ k, r.operands = [k] → ∃ db, server.dbs[r.client.dbid]? = some db ∧
      ∀ o, db.valueAt r.clock.mstime k = some o → o.type = .string → L.Measures o
  | some (.dispatcher .set) => ∀ k v o, r.operands = [k, v] → r.client.argvAt 2 = .ok o →
      ∃ db, server.dbs[r.client.dbid]? = some db ∧
        (db.valueAt r.clock.mstime k = none → ¬ db.Blocks k ∧ server.Stamps o)
  | _ => False

/-! ## Lines -/

theorem isValue_statusLine {s : Bytes} (hcr : CR ∉ s) (hlf : LF ∉ s) : IsValue (statusLine s) :=
  .line (.inl rfl) hcr hlf

/-- Status lines behind the header that counts them. -/
theorem isValue_statusLines {lines : List Bytes} {n : Int} (hn : lines.length = n)
    (hlines : ∀ s ∈ lines, CR ∉ s ∧ LF ∉ s) :
    IsValue ((42 :: decimal n ++ crlf) ++ lines.flatMap statusLine) := by
  have harray : IsValue (header 42 (lines.map statusLine).length ++ (lines.map statusLine).flatten) := by
    refine .array _ fun v hv ↦ ?_
    obtain ⟨s, hs, rfl⟩ := List.mem_map.mp hv
    exact isValue_statusLine (hlines s hs).1 (hlines s hs).2
  rw [List.length_map, hn, ← List.flatMap_def] at harray
  exact harray

/-- A line that brings its type with it. -/
theorem isValue_line_of_head {s : Bytes} {b : UInt8} (hb : b = 43 ∨ b = 45 ∨ b = 58)
    (hhead : s.head? = some b) (hcr : CR ∉ s) (hlf : LF ∉ s) : IsValue (s ++ crlf) := by
  obtain ⟨t, rfl⟩ := List.head?_eq_some_iff.mp hhead
  exact .line hb (fun h ↦ hcr (List.mem_cons_of_mem b h)) fun h ↦ hlf (List.mem_cons_of_mem b h)

theorem isValue_errorLine {s : Bytes} (hcr : CR ∉ s) (hlf : LF ∉ s) : IsValue (errorLine s) := by
  unfold errorLine
  split
  · next hhead => exact isValue_line_of_head (.inr (.inl rfl)) hhead hcr hlf
  · have hpre : CR ∉ ascii "ERR " ∧ LF ∉ ascii "ERR " := by decide
    refine .line (b := 45) (s := ascii "ERR " ++ s) (.inr (.inl rfl)) ?_ ?_
    · simp only [List.mem_append, not_or]
      exact ⟨hpre.1, hcr⟩
    · simp only [List.mem_append, not_or]
      exact ⟨hpre.2, hlf⟩

/-- Trimming and mapping leaves one line. -/
theorem isValue_errorFormat (s : Bytes) :
    IsValue (errorLine (sdsMapNewlines (sdsTrimNewlines s))) := by
  obtain ⟨hcr, hlf⟩ := newline_notMem_sdsMapNewlines (sdsTrimNewlines s)
  exact isValue_errorLine hcr hlf

/-! ## Results -/

section Results

variable {rc rc' : RedisClient} {server server' : Server} {v : Bytes}

/-- A result that appends `v` is one reply exactly if `v` is one value. -/
theorem oneReply_ok_iff (h : rc'.reply.out = rc.reply.out ++ v) :
    OneReply rc (.ok (server', rc')) ↔ IsValue v := by
  constructor
  · rintro ⟨s, rc₁, w, heq, hout, hw⟩
    cases heq
    rw [h] at hout
    rw [List.append_cancel_left hout]
    exact hw
  · intro hv
    exact ⟨server', rc', v, rfl, h, hv⟩

theorem not_oneReply_error (f : Fault) : ¬ OneReply rc (.error f) := by
  rintro ⟨s, rc₁, w, heq, -⟩
  cases heq

/-- A handler that gives one reply whenever it returns. -/
theorem oneReply_iff_ok {result : Except Fault (Server × RedisClient)}
    (h : ∀ server' rc', result = .ok (server', rc') → OneReply rc (.ok (server', rc'))) :
    OneReply rc result ↔ ∃ p, result = .ok p := by
  constructor
  · rintro ⟨server', rc', -, hresult, -⟩
    exact ⟨_, hresult⟩
  · rintro ⟨⟨server', rc'⟩, rfl⟩
    exact h _ _ rfl

/-- A handler that replies nothing. -/
theorem not_oneReply_silent (h : rc'.reply = rc.reply) : ¬ OneReply rc (.ok (server', rc')) := by
  rw [oneReply_ok_iff (v := []) (by rw [h, List.append_nil])]
  exact fun h ↦ h.ne_nil rfl

/-- A handler that replies one line, or something else that is known to be a value. -/
theorem oneReply_of (h : rc'.reply.out = rc.reply.out ++ v) (hv : IsValue v) :
    OneReply rc (.ok (server', rc')) := (oneReply_ok_iff h).mpr hv

theorem oneReply_error (hL : L.AppendsProto) {text : String}
    (h : CR ∉ ascii text ∧ LF ∉ ascii text) :
    OneReply rc (.ok (server', rc.replied (addReplyError L rc.reply text))) :=
  oneReply_of (out_addReplyErrorLength hL _ _) (isValue_errorLine h.1 h.2)

theorem oneReply_simpleString (hL : L.AppendsProto) {text : String}
    (h : CR ∉ ascii text ∧ LF ∉ ascii text) :
    OneReply rc (.ok (server', replyWithSimpleString L rc text)) := by
  refine oneReply_of (v := statusLine (ascii text)) ?_ (isValue_statusLine h.1 h.2)
  unfold replyWithSimpleString RedisClient.replied statusLine
  simp [hL]

theorem oneReply_number (hL : L.AppendsProto) (n : Int) :
    OneReply rc (.ok (server', rc.replied (addReplyLongLongWithPrefix L rc.reply n 58))) := by
  obtain ⟨-, hcr, hlf⟩ := decimal_clean n
  exact oneReply_of (out_addReplyLongLongWithPrefix hL _ n 58) (.line (by decide) hcr hlf)

theorem oneReply_object (hL : L.AppendsProto) {s : Bytes} (hs : IsValue s) :
    OneReply rc (.ok (server', rc.replied (addReply L rc.reply (latteObjectNew s)))) :=
  oneReply_of (out_addReply hL _ _) hs

theorem oneReply_wrongType (hL : L.AppendsProto) :
    OneReply rc (.ok (server', replyWithWrongTypeError L rc)) := by
  have hclean : CR ∉ ascii "-WRONGTYPE Operation against a key holding the wrong kind of value" ∧
      LF ∉ ascii "-WRONGTYPE Operation against a key holding the wrong kind of value" := by decide
  exact oneReply_object hL (isValue_line_of_head (.inr (.inl rfl)) rfl hclean.1 hclean.2)

/-- A string is one value if its length is the one of its bytes. -/
theorem oneReply_bulk_iff (hL : L.AppendsProto) (o : LatteObject) :
    OneReply rc (.ok (server', rc.replied (addReplyBulk L rc.reply o))) ↔ L.Measures o := by
  rw [oneReply_ok_iff (out_addReplyBulk hL _ o)]
  exact isValue_bulk_iff

theorem oneReply_wrongArity (hL : L.AppendsProto) {cmd : RedisCommand} (hcmd : rc.cmd = .live cmd) :
    OneReply rc (replyWrongArity L server rc) := by
  unfold replyWrongArity RedisClient.cmdName
  rw [hcmd]
  exact oneReply_of (out_addReplyErrorLength hL _ _) (isValue_errorFormat _)

end Results

/-! ## Each command -/

section Commands

variable {rc : RedisClient} {server : Server} {cmd : RedisCommand} {name : Bytes}
  {operands : List Bytes}

theorem quitCommand_oneReply (hL : L.AppendsProto) : OneReply rc (quitCommand L server rc) :=
  oneReply_of (out_addReply hL _ _) (isValue_statusLine (s := ascii "OK") (by decide) (by decide))

theorem infoCommand_not_oneReply (hL : L.AppendsProto) : ¬ OneReply rc (infoCommand L server rc) := by
  unfold infoCommand
  rw [oneReply_ok_iff (out_addReplyProto hL _ _)]
  intro h
  obtain ⟨b, hb, hmark⟩ := h.head
  have hN : b = 78 := (Option.some.inj hb).symm
  subst hN
  exact absurd hmark (by decide)

theorem pingCommand_oneReply_iff (hL : L.AppendsProto) (hargs : rc.Holds (name :: operands))
    (hcmd : rc.cmd = .live cmd) :
    OneReply rc (pingCommand L server rc) ↔
      ∀ s o, operands = [s] → rc.argvAt 1 = .ok o → L.Measures o := by
  have hargc := hargs.argc_eq
  unfold pingCommand
  match operands with
  | [] =>
      rw [if_neg (by rw [hargc]; decide), if_pos (by rw [hargc]; decide)]
      refine iff_of_true ?_ fun s o h ↦ by cases h
      exact oneReply_object hL (isValue_statusLine (s := ascii "PONG") (by decide) (by decide))
  | [s] =>
      obtain ⟨o, ho, -⟩ := hargs.argvAt (i := 1) rfl
      rw [if_neg (by rw [hargc]; simp), if_neg (by rw [hargc]; simp), ho, Run.ok_bind]
      rw [show (pure (server, rc.replied (addReplyBulk L rc.reply o)) : Except Fault _) =
        .ok (server, rc.replied (addReplyBulk L rc.reply o)) from rfl, oneReply_bulk_iff hL]
      constructor
      · rintro h s' o' - ho'
        cases ho'
        exact h
      · intro h
        exact h s o rfl rfl
  | s :: s' :: rest =>
      rw [if_pos (by rw [hargc]; simp only [List.length_cons]; push_cast; omega)]
      refine iff_of_true (oneReply_wrongArity hL hcmd) fun _ _ h ↦ ?_
      cases h

/-- A name that dispatches to `module` has only letters. -/
theorem newline_notMem_of_module (hname : name.map lower = ascii "module") :
    CR ∉ name ∧ LF ∉ name := by
  have hletters : ∀ b ∈ name, lower b ∈ ascii "module" := by
    intro b hb
    rw [← hname]
    exact List.mem_map_of_mem hb
  constructor
  · intro h
    exact absurd (hletters CR h) (by decide)
  · intro h
    exact absurd (hletters LF h) (by decide)

/-- The help text is one array. -/
theorem moduleHelpCommand_oneReply (hL : L.AppendsProto) (hargs : rc.Holds (name :: operands))
    (hname : name.map lower = ascii "module") : OneReply rc (moduleHelpCommand L server rc) := by
  obtain ⟨o, ho, htext, hcontent⟩ := hargs.argvAt (i := 0) rfl
  obtain ⟨reply, hhelp, hout⟩ := addReplyHelp_ok hL rc.reply name moduleHelp_length
  unfold moduleHelpCommand
  rw [ho, Run.ok_bind, htext.2, Run.ok_bind, hcontent, hhelp]
  show OneReply rc (.ok (server, rc.replied reply))
  refine oneReply_of hout ?_
  have hrest : ∀ s ∈ moduleHelp ++ [ascii "HELP", ascii "   Prints this help."],
      CR ∉ s ∧ LF ∉ s := by decide
  refine isValue_statusLines (by simp; omega) fun s hs ↦ ?_
  rcases List.mem_cons.mp hs with rfl | hs
  · exact helpHeader_clean (newline_notMem_of_module hname)
  · exact hrest s hs

theorem moduleLoadCommand_oneReply (hL : L.AppendsProto) {sub path : Bytes} {rest : List Bytes}
    (hargs : rc.Holds (name :: sub :: path :: rest)) :
    OneReply rc (moduleLoadCommand L E server rc) := by
  obtain ⟨o, ho, htext, -⟩ := hargs.argvAt (i := 2) rfl
  unfold moduleLoadCommand
  rw [ho, Run.ok_bind, htext.2, Run.ok_bind]
  cases E.moduleLoad server (cString o.content) (rc.args.drop 3) with
  | mk server' loaded =>
      cases loaded with
      | true =>
          exact oneReply_object hL (isValue_statusLine (s := ascii "OK") (by decide) (by decide))
      | false => exact oneReply_error hL (by decide)

/-- `MODULE HELP` and `MODULE LOAD` with a path are answered, nothing else is. -/
theorem moduleCommand_oneReply_iff (hL : L.AppendsProto) (hargs : rc.Holds (name :: operands))
    (hname : name.map lower = ascii "module") :
    OneReply rc (moduleCommand L E server rc) ↔
      (∃ sub, operands = [sub] ∧ strcaseeq sub (ascii "help")) ∨
        ∃ sub path rest, operands = sub :: path :: rest ∧ strcaseeq sub (ascii "load") := by
  have hargc := hargs.argc_eq
  match operands with
  | [] =>
      unfold moduleCommand
      rw [show rc.argvAt 1 = _ from hargs.argvAt_end]
      refine iff_of_false (not_oneReply_error _) ?_
      rintro (⟨sub, h, -⟩ | ⟨sub, path, rest, h, -⟩) <;> cases h
  | [sub] =>
      obtain ⟨o, ho, htext, hcontent⟩ := hargs.argvAt (i := 1) rfl
      have hargc₂ : rc.argc = 2 := hargc
      unfold moduleCommand
      rw [ho, Run.ok_bind, htext.2, Run.ok_bind, hcontent]
      simp only [hargc₂, true_and]
      by_cases hhelp : strcaseeq sub (ascii "help") = true
      · rw [if_pos hhelp]
        exact iff_of_true (moduleHelpCommand_oneReply hL hargs hname) (.inl ⟨sub, rfl, hhelp⟩)
      · rw [if_neg hhelp]
        refine iff_of_false ?_ ?_
        · simp only [show ¬ ((2 : Int) ≥ 3) by decide, and_false, if_false]
          exact not_oneReply_silent rfl
        · rintro (⟨sub', h, hh⟩ | ⟨sub', path, rest, h, -⟩)
          · cases h
            exact hhelp hh
          · cases h
  | sub :: path :: rest =>
      obtain ⟨o, ho, htext, hcontent⟩ := hargs.argvAt (i := 1) rfl
      have hargc₃ : rc.argc ≥ 3 := by
        rw [hargc]
        simp only [List.length_cons]
        push_cast
        omega
      unfold moduleCommand
      rw [ho, Run.ok_bind, htext.2, Run.ok_bind, hcontent,
        if_neg (fun h ↦ absurd h.1 (by omega))]
      by_cases hload : strcaseeq sub (ascii "load") = true
      · rw [if_pos ⟨hload, hargc₃⟩]
        exact iff_of_true (moduleLoadCommand_oneReply hL hargs)
          (.inr ⟨sub, path, rest, rfl, hload⟩)
      · rw [if_neg (fun h ↦ hload h.1)]
        refine iff_of_false ?_ ?_
        · unfold moduleUnloadCommand moduleListCommand
          split
          · exact not_oneReply_silent rfl
          · split <;> exact not_oneReply_silent rfl
        · rintro (⟨sub', h, -⟩ | ⟨sub', path', rest', h, hh⟩)
          · cases h
          · cases h
            exact hload hh

theorem expireCommand_oneReply (hL : L.AppendsProto) (hcmd : rc.cmd = .live cmd)
    {server' : Server} {rc' : RedisClient} (h : expireCommand L server rc = .ok (server', rc')) :
    OneReply rc (.ok (server', rc')) := by
  unfold expireCommand at h
  split at h
  · rw [← h]
    exact oneReply_wrongArity hL hcmd
  · obtain ⟨o, -, h⟩ := Run.bind_eq_ok.mp h
    obtain ⟨secs, -, h⟩ := Run.bind_eq_ok.mp h
    split at h
    · cases h
      exact oneReply_error hL (by decide)
    · split at h
      · cases h
        exact oneReply_error hL (by decide)
      · obtain ⟨o, -, h⟩ := Run.bind_eq_ok.mp h
        obtain ⟨key, -, h⟩ := Run.bind_eq_ok.mp h
        obtain ⟨db, -, h⟩ := Run.bind_eq_ok.mp h
        split at h
        · cases h
          exact oneReply_number hL 0
        · obtain ⟨⟨set, db'⟩, -, h⟩ := Run.bind_eq_ok.mp h
          dsimp only at h
          split at h
          · cases h
            exact oneReply_number hL 1
          · cases h
            exact oneReply_error hL (by decide)

theorem getCommand_oneReply_iff (hL : L.AppendsProto) (hargs : rc.Holds (name :: operands)) :
    OneReply rc (getCommand L server rc) ↔
      ∀ k, operands = [k] → ∃ db, server.dbs[rc.dbid]? = some db ∧
        ∀ o, db.valueAt server.clock.mstime k = some o → o.type = .string → L.Measures o := by
  by_cases hlen : operands.length = 1
  · obtain ⟨k, rfl⟩ := List.length_eq_one_iff.mp hlen
    cases hdb : server.dbs[rc.dbid]? with
    | none =>
        obtain ⟨key, hkey, htext, -⟩ := hargs.argvAt (i := 1) rfl
        refine iff_of_false ?_ fun h ↦ ?_
        · unfold getCommand
          rw [if_neg (by rw [hargs.argc_eq]; simp), hkey, Run.ok_bind, lookupKey_missing htext hdb]
          exact not_oneReply_error _
        · obtain ⟨db, hdb', -⟩ := h k rfl
          cases hdb'
    | some db =>
        obtain ⟨db₁, hreaps, hget⟩ := getCommand_ok (L := L) hargs hdb
        rw [hget, hreaps.value_self]
        have hiff : OneReply rc (.ok (server.setDb rc.dbid db₁, getReply L rc
            (db.valueAt server.clock.mstime k))) ↔
            ∀ o, db.valueAt server.clock.mstime k = some o → o.type = .string → L.Measures o := by
          cases db.valueAt server.clock.mstime k with
          | none =>
              refine iff_of_true ?_ fun _ h ↦ by cases h
              exact oneReply_of (out_addReplyProto hL _ _) .nullArray
          | some o =>
              rw [getReply]
              by_cases htype : o.type = .string
              · rw [if_pos htype, oneReply_bulk_iff hL]
                exact ⟨fun h o' ho' _ ↦ Option.some.inj ho' ▸ h, fun h ↦ h o rfl htype⟩
              · rw [if_neg htype]
                refine iff_of_true (oneReply_wrongType hL) fun o' ho' h ↦ ?_
                exact absurd (Option.some.inj ho' ▸ h) htype
        rw [hiff]
        constructor
        · rintro h k' hk'
          cases hk'
          exact ⟨db, rfl, h⟩
        · intro h
          obtain ⟨db', hdb', h⟩ := h k rfl
          cases hdb'
          exact h
  · refine iff_of_true ?_ fun k h ↦ absurd (congrArg List.length h) hlen
    unfold getCommand
    rw [if_pos (by rw [hargs.argc_eq]; omega)]
    exact oneReply_simpleString hL (by decide)

theorem setCommand_oneReply (hL : L.AppendsProto) {server' : Server} {rc' : RedisClient}
    (h : setCommand L server rc = .ok (server', rc')) : OneReply rc (.ok (server', rc')) := by
  have hok : ∀ s : Server, OneReply rc (.ok (s, replyWithSimpleString L rc "OK")) := fun s ↦
    oneReply_simpleString hL (by decide)
  unfold setCommand at h
  split at h
  · cases h
    exact oneReply_simpleString hL (by decide)
  · obtain ⟨key, -, h⟩ := Run.bind_eq_ok.mp h
    obtain ⟨⟨server₁, o⟩, -, h⟩ := Run.bind_eq_ok.mp h
    cases o with
    | none =>
        obtain ⟨v, -, h⟩ := Run.bind_eq_ok.mp h
        obtain ⟨server₂, -, h⟩ := Run.bind_eq_ok.mp h
        cases h
        exact hok _
    | some e =>
        dsimp only at h
        split at h
        · obtain ⟨v, -, h⟩ := Run.bind_eq_ok.mp h
          obtain ⟨server₂, -, h⟩ := Run.bind_eq_ok.mp h
          cases h
          exact hok _
        · cases h
          exact oneReply_wrongType hL

end Commands

/-! ## Every request -/

end LatteRedis
