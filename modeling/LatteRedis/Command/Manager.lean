import LatteRedis.Command.Flags
import LatteRedis.Command.ModuleLoad
import LatteRedis.Foundation.Interning

/-!
# The command manager (`command_manager.c`)

`ModuleLoad` keeps of a command its name and its handler.  Here a command has its flags and
its number, too, and the manager the map of numbers and the counter that
`acl_get_command_id` hands them out from.  Forgetting both takes us back to the server's
table of commands (`CommandManager.table`), and creating a command here is creating it
there (`redisModuleCreateCommand_eq`).

The numbers are an instance of interning with a counter, and everything about them is read
off the table at the end of a run.
-/

namespace LatteRedis

open ByteString FlagWord Interning

/-! ## The manager -/

/-- A command as the manager keeps it. -/
structure ManagedCommand extends RedisCommand where
  flags : BitVec 64
  id : BitVec 32
deriving DecidableEq

/-- `command_manager_t`: the table of commands, and the map of numbers with its counter. -/
structure CommandManager where
  commands : List ManagedCommand
  commandId : List (Bytes × Nat)
  nextid : Nat
deriving DecidableEq

namespace CommandManager

/-- `command_manager_lookup`. -/
def lookup (cm : CommandManager) (command : Bytes) : Option ManagedCommand :=
  cm.commands.find? fun cmd ↦ cmd.name.map lower = command.map lower

end CommandManager

/-- `USER_COMMAND_BITS_COUNT`. -/
def userCommandBitsCount : Nat := 1024

def aclGetCommandId (cm : CommandManager) (cmdname : Bytes) : Nat × CommandManager :=
  let lowername := (cString cmdname).map lower
  match cm.commandId.lookup lowername with
  | some id => (id, cm)
  | none =>
      let thisid := cm.nextid
      let nextid := cm.nextid + 1
      (thisid, { cm with
        commandId := (lowername, cm.nextid) :: cm.commandId
        nextid := if nextid = userCommandBitsCount - 1 then nextid + 1 else nextid })

/-- `command_manager_register_command`; `dict_add` refuses a name that is there. -/
def CommandManager.registerCommand (cm : CommandManager) (cmd : RedisCommand) (flags : BitVec 64) :
    CommandManager :=
  let (id, cm) := aclGetCommandId cm cmd.name
  if cm.lookup cmd.name = none then
    { cm with commands := cm.commands ++ [{ cmd with flags := flags, id := .ofNat 32 id }] }
  else cm

/-- `redis_command_table`, with the `sflags` of its rows. -/
def redisCommandSflags : List (RedisCommand × Bytes) :=
  [ (⟨ascii "quit", .quit⟩, ascii "admin")
  , (⟨ascii "module", .module⟩, ascii "admin no-script")
  , (⟨ascii "ping", .ping⟩, ascii "admin")
  , (⟨ascii "info", .info⟩, ascii "admin")
  , (⟨ascii "expire", .expire⟩, ascii "write fast") ]

/-- One turn of the loop of `command_manager_init`. -/
def commandManagerInitStep (L : LatteC) (cm : CommandManager) (c : RedisCommand × Bytes) :
    Except Fault CommandManager :=
  match populateCommandTableParseFlags L 0 c.2 with
  | (code, flags) =>
      if code = -1 then .error (.panic "unsupported command flag")
      else .ok (cm.registerCommand c.1 flags)

def commandManagerNew (L : LatteC) : Except Fault CommandManager :=
  redisCommandSflags.foldlM (commandManagerInitStep L) ⟨[], [], 0⟩

/-- What `command_flags_from_string` returns: `-1` if it breaks off. -/
def commandFlagsWord (s : Bytes) : BitVec 64 := (commandFlagsFromString s).getD (-1)

def redisModuleUseCreateCommand (cm : CommandManager) (name : Bytes) (func : ModuleFunc)
    (strflags : Option Bytes) : Int × CommandManager :=
  let flags := strflags.elim 0 commandFlagsWord
  if flags = -1 then (-1, cm)
  else
    let cmdname := cString name
    if cm.lookup cmdname ≠ none then (-1, cm)
    else (0, cm.registerCommand ⟨cmdname, .dispatcher func⟩ (flags ||| Cmd.module))

/-! ## Numbers -/

namespace CommandManager

/-- The numbers and their counter as a table that interns. -/
def ids (cm : CommandManager) : Table Bytes := ⟨cm.commandId, cm.nextid⟩

/-- The key a name is kept under. -/
def idKey (cmdname : Bytes) : Bytes := (cString cmdname).map lower

theorem idKey_eq_iff {s t : Bytes} : idKey s = idKey t ↔ strcaseeq s t = true := by
  unfold idKey strcaseeq
  exact decide_eq_true_iff.symm

/-- The manager with other numbers. -/
def withIds (cm : CommandManager) (t : Table Bytes) : CommandManager :=
  { cm with commandId := t.ids, nextid := t.next }

@[simp] theorem ids_withIds (cm : CommandManager) (t : Table Bytes) : (cm.withIds t).ids = t := rfl

end CommandManager

open CommandManager

/-- The number that is never handed out. -/
def reservedId : Nat := userCommandBitsCount - 1

/-- `acl_get_command_id` interns the name. -/
theorem aclGetCommandId_eq (cm : CommandManager) (cmdname : Bytes) :
    aclGetCommandId cm cmdname =
      ((cm.ids.intern reservedId (idKey cmdname)).1,
        cm.withIds (cm.ids.intern reservedId (idKey cmdname)).2) := by
  unfold aclGetCommandId
  dsimp only
  cases hfind : cm.ids.find (idKey cmdname) with
  | some id =>
      rw [Table.intern_of_find hfind]
      rw [show cm.commandId.lookup ((cString cmdname).map lower) = some id from hfind]
      rfl
  | none =>
      rw [Table.intern_of_new hfind]
      rw [show cm.commandId.lookup ((cString cmdname).map lower) = none from hfind]
      rfl

/-- A run of calls, each name with what was returned for it. -/
def aclGetCommandIds : CommandManager → List Bytes → List (Bytes × Nat) × CommandManager
  | cm, [] => ([], cm)
  | cm, cmdname :: names =>
      let (id, cm) := aclGetCommandId cm cmdname
      let (calls, cm) := aclGetCommandIds cm names
      ((cmdname, id) :: calls, cm)

/-- A run of calls interns the names, one after the other. -/
theorem aclGetCommandIds_eq (cm : CommandManager) (names : List Bytes) :
    (aclGetCommandIds cm names).1.map (fun c ↦ (idKey c.1, c.2)) =
        (cm.ids.internAll reservedId (names.map idKey)).1 ∧
      (aclGetCommandIds cm names).2 =
        cm.withIds (cm.ids.internAll reservedId (names.map idKey)).2 := by
  induction names generalizing cm with
  | nil => exact ⟨rfl, rfl⟩
  | cons cmdname names ih =>
      obtain ⟨hcalls, hcm⟩ := ih (aclGetCommandId cm cmdname).2
      rw [aclGetCommandId_eq] at hcalls hcm
      unfold aclGetCommandIds
      rw [aclGetCommandId_eq]
      exact ⟨congrArg (_ :: ·) hcalls, hcm⟩

/-- From a valid table on, the calls of a run and every number that was there before stand
in the table at its end. -/
theorem aclGetCommandIds_answers {cm : CommandManager} (h : cm.ids.Valid reservedId)
    (names : List Bytes) :
    (aclGetCommandIds cm names).2.ids.Valid reservedId ∧
      (∀ c ∈ (aclGetCommandIds cm names).1,
        (aclGetCommandIds cm names).2.ids.find (idKey c.1) = some c.2) ∧
      ∀ k id, cm.ids.find k = some id → (aclGetCommandIds cm names).2.ids.find k = some id := by
  obtain ⟨hcalls, hcm⟩ := aclGetCommandIds_eq cm names
  obtain ⟨hvalid, hanswers, hkeeps⟩ := h.internAll_answers (names.map idKey)
  rw [hcm, ids_withIds]
  refine ⟨hvalid, ?_, hkeeps⟩
  intro c hc
  have hmem : (idKey c.1, c.2) ∈ (cm.ids.internAll reservedId (names.map idKey)).1 := by
    rw [← hcalls]
    exact List.mem_map_of_mem hc
  exact hanswers _ hmem

/-! ### From `command_manager_new` on -/

theorem ids_registerCommand (cm : CommandManager) (cmd : RedisCommand) (flags : BitVec 64) :
    (cm.registerCommand cmd flags).ids = (cm.ids.intern reservedId (idKey cmd.name)).2 := by
  unfold CommandManager.registerCommand
  rw [aclGetCommandId_eq]
  dsimp only
  split <;> rfl

/-- What `command_manager_new` makes.  None of the commands is in a category from bit 32 on,
and `EXPIRE` is in the category of the slow ones. -/
def startedCommandManager : CommandManager where
  commands :=
    [ ⟨⟨ascii "quit", .quit⟩, Cmd.admin ||| Cmd.categorySlow, 0⟩
    , ⟨⟨ascii "module", .module⟩, Cmd.admin ||| Cmd.noscript ||| Cmd.categorySlow, 1⟩
    , ⟨⟨ascii "ping", .ping⟩, Cmd.admin ||| Cmd.categorySlow, 2⟩
    , ⟨⟨ascii "info", .info⟩, Cmd.admin ||| Cmd.categorySlow, 3⟩
    , ⟨⟨ascii "expire", .expire⟩,
        Cmd.write ||| Cmd.categoryWrite ||| Cmd.fast ||| Cmd.categorySlow, 4⟩ ]
  commandId :=
    [ (ascii "expire", 4), (ascii "info", 3), (ascii "ping", 2), (ascii "module", 1)
    , (ascii "quit", 0) ]
  nextid := 5

theorem commandManagerNew_sample : commandManagerNew LatteC.sample = .ok startedCommandManager :=
  rfl

/-- On the rows of the table `sds_split_args` has nothing to do but find the words. -/
def LatteC.SplitsSflags (L : LatteC) : Prop :=
  ∀ c ∈ redisCommandSflags, L.sdsSplitArgs c.2 = some (LatteC.splitWords c.2)

theorem commandManagerNew_eq {L : LatteC} (h : L.SplitsSflags) :
    commandManagerNew L = .ok startedCommandManager := by
  have hstep : ∀ c ∈ redisCommandSflags, ∀ cm,
      commandManagerInitStep L cm c = commandManagerInitStep LatteC.sample cm c := by
    have hsplit : ∀ c ∈ redisCommandSflags, cString c.2 = c.2 ∧
        LatteC.sample.sdsSplitArgs c.2 = some (LatteC.splitWords c.2) := by decide
    intro c hc cm
    unfold commandManagerInitStep populateCommandTableParseFlags
    rw [(hsplit c hc).1, h c hc, (hsplit c hc).2]
  have hfold : ∀ rows ⊆ redisCommandSflags, ∀ cm,
      rows.foldlM (commandManagerInitStep L) cm =
        rows.foldlM (commandManagerInitStep LatteC.sample) cm := by
    intro rows
    induction rows with
    | nil =>
        intro _ cm
        rfl
    | cons c rows ih =>
        intro hrows cm
        rw [List.foldlM_cons, List.foldlM_cons, hstep c (hrows List.mem_cons_self)]
        congr 1
        funext cm'
        exact ih (List.subset_of_cons_subset hrows) cm'
  rw [← commandManagerNew_sample]
  exact hfold _ (List.Subset.refl _) _

/-- The numbers that registered commands have got. -/
def CommandManager.registered (cm : CommandManager) : List (Bytes × Nat) :=
  cm.commands.map fun cmd ↦ (cmd.name, cmd.id.toNat)

/-- Whatever the flags are, the five commands get the first five numbers. -/
theorem commandManagerNew_ids {L : LatteC} {cm : CommandManager} (h : commandManagerNew L = .ok cm) :
    cm.ids.Valid reservedId ∧
      ∀ c ∈ cm.registered, cm.ids.find (idKey c.1) = some c.2 := by
  have hstep : ∀ {cm cm' : CommandManager} {c : RedisCommand × Bytes},
      commandManagerInitStep L cm c = .ok cm' → ∃ flags, cm' = cm.registerCommand c.1 flags := by
    intro cm cm' c hok
    unfold commandManagerInitStep at hok
    split at hok
    · next flags _ =>
        split at hok
        · cases hok
        · cases hok
          exact ⟨flags, rfl⟩
  unfold commandManagerNew redisCommandSflags at h
  simp only [List.foldlM_cons, List.foldlM_nil] at h
  obtain ⟨cm₁, h₁, h⟩ := Run.bind_eq_ok.mp h
  obtain ⟨cm₂, h₂, h⟩ := Run.bind_eq_ok.mp h
  obtain ⟨cm₃, h₃, h⟩ := Run.bind_eq_ok.mp h
  obtain ⟨cm₄, h₄, h⟩ := Run.bind_eq_ok.mp h
  obtain ⟨cm₅, h₅, h⟩ := Run.bind_eq_ok.mp h
  cases h
  obtain ⟨flags₁, rfl⟩ := hstep h₁
  obtain ⟨flags₂, rfl⟩ := hstep h₂
  obtain ⟨flags₃, rfl⟩ := hstep h₃
  obtain ⟨flags₄, rfl⟩ := hstep h₄
  obtain ⟨flags₅, rfl⟩ := hstep h₅
  refine ⟨?_, ?_⟩
  · simp only [ids_registerCommand]
    have hempty : (CommandManager.ids ⟨[], [], 0⟩).Valid reservedId := Table.valid_empty (by decide)
    exact (((((hempty.intern _).1.intern _).1.intern _).1.intern _).1.intern _).1
  · simp only [ids_registerCommand]
    change ∀ c ∈ [(ascii "quit", 0), (ascii "module", 1), (ascii "ping", 2), (ascii "info", 3),
      (ascii "expire", 4)], Table.find _ (idKey c.1) = some c.2
    decide

theorem aclGetCommandIds_names (cm : CommandManager) (names : List Bytes) :
    (aclGetCommandIds cm names).1.map Prod.fst = names := by
  induction names generalizing cm with
  | nil => rfl
  | cons cmdname names ih => exact congrArg (cmdname :: ·) (ih _)

/-- A name that has a number keeps it. -/
theorem aclGetCommandId_of_find {cm : CommandManager} {cmdname : Bytes} {id : Nat}
    (h : cm.ids.find (idKey cmdname) = some id) : aclGetCommandId cm cmdname = (id, cm) := by
  rw [aclGetCommandId_eq, Table.intern_of_find h]
  rfl

/-- **Command ids.**  Take all calls since `command_manager_new`: those it makes for the
table, and any others.  Two of them return the same number exactly when their names are
equal without regard to case, a call that is made once more returns what it returned, and
none returns the reserved number. -/
theorem commandIds_stable {L : LatteC} {cm : CommandManager} (h : commandManagerNew L = .ok cm)
    (names : List Bytes) :
    (aclGetCommandIds cm names).1.map Prod.fst = names ∧
      (∀ c ∈ cm.registered ++ (aclGetCommandIds cm names).1,
        ∀ c' ∈ cm.registered ++ (aclGetCommandIds cm names).1,
          c.2 = c'.2 ↔ strcaseeq c.1 c'.1 = true) ∧
      (∀ c ∈ cm.registered ++ (aclGetCommandIds cm names).1,
        aclGetCommandId (aclGetCommandIds cm names).2 c.1 = (c.2, (aclGetCommandIds cm names).2)) ∧
      ∀ c ∈ cm.registered ++ (aclGetCommandIds cm names).1, c.2 ≠ userCommandBitsCount - 1 := by
  obtain ⟨hvalid, hregistered⟩ := commandManagerNew_ids h
  obtain ⟨hvalid', hcalls, hkeeps⟩ := aclGetCommandIds_answers hvalid names
  have hall : ∀ c ∈ cm.registered ++ (aclGetCommandIds cm names).1,
      (aclGetCommandIds cm names).2.ids.find (idKey c.1) = some c.2 := by
    intro c hc
    rcases List.mem_append.mp hc with hc | hc
    · exact hkeeps _ _ (hregistered c hc)
    · exact hcalls c hc
  refine ⟨aclGetCommandIds_names cm names, ?_, ?_, ?_⟩
  · intro c hc c' hc'
    rw [← idKey_eq_iff]
    constructor
    · intro hid
      exact hvalid'.inj _ _ _ (hall c hc) (hid ▸ hall c' hc')
    · intro hkey
      have hfind := hall c hc
      rw [hkey, hall c' hc'] at hfind
      exact (Option.some.inj hfind).symm
  · intro c hc
    exact aclGetCommandId_of_find (hall c hc)
  · intro c hc
    exact hvalid'.ne_reserved _ _ (hall c hc)

/-- Two names that differ in case only, behind the five of the table. -/
theorem commandIds_stable_get :
    commandManagerNew LatteC.sample = .ok startedCommandManager ∧
      (aclGetCommandIds startedCommandManager [ascii "GET", ascii "get"]).1 =
        [(ascii "GET", 5), (ascii "get", 5)] ∧
      aclGetCommandId (aclGetCommandIds startedCommandManager [ascii "GET", ascii "get"]).2
        (ascii "GET") = (5, (aclGetCommandIds startedCommandManager [ascii "GET", ascii "get"]).2) :=
  ⟨commandManagerNew_sample, rfl,
    (commandIds_stable commandManagerNew_sample [ascii "GET", ascii "get"]).2.2.1
      (ascii "GET", 5) (by decide)⟩

/-- The counter is at most one ahead of the number of names, so that it takes 2⁶⁴ - 1 names
to make it wrap around. -/
theorem nextid_le {L : LatteC} {cm : CommandManager} (h : commandManagerNew L = .ok cm)
    (names : List Bytes) :
    (aclGetCommandIds cm names).2.nextid ≤ (aclGetCommandIds cm names).2.commandId.length + 1 := by
  obtain ⟨hvalid, -⟩ := commandManagerNew_ids h
  obtain ⟨hvalid', -, -⟩ := aclGetCommandIds_answers hvalid names
  have hle := hvalid'.next_le
  unfold CommandManager.ids at hle
  dsimp only at hle
  split at hle <;> omega

/-! ## The commands of modules -/

/-- A name `command_flags_from_string` knows. -/
def KnownModuleFlag (t : Bytes) : Prop := ∃ item ∈ moduleCommandFlags, strcaseeq t item.1 = true

def moduleFlagByName (t : Bytes) : Option (BitVec 64) :=
  (moduleCommandFlags.find? fun item ↦ strcaseeq t item.1).map Prod.snd

/-- The names in a flag string, if there is one. -/
def flagTokens (strflags : Option Bytes) : List Bytes :=
  strflags.elim [] fun s ↦ sdsSplitLen (cString s) 32

/-- The flags of a flag string, all of them together. -/
def tokenFlags (strflags : Option Bytes) : BitVec 64 :=
  union ((flagTokens strflags).map fun t ↦ (moduleFlagByName t).getD 0)

theorem moduleFlagByName_ne_none_iff {t : Bytes} : moduleFlagByName t ≠ none ↔ KnownModuleFlag t := by
  unfold moduleFlagByName KnownModuleFlag
  rw [ne_eq, Option.map_eq_none_iff, List.find?_eq_none]
  push Not
  rfl

theorem commandFlagsFromString_eq_some_iff {s : Bytes} {flags : BitVec 64} :
    commandFlagsFromString s = some flags ↔
      (∀ t ∈ flagTokens (some s), KnownModuleFlag t) ∧ flags = tokenFlags (some s) := by
  have hloop : commandFlagsFromString s =
      (flagTokens (some s)).foldlM (fun flags t ↦ (moduleFlagByName t).map (flags ||| ·)) 0 := by
    unfold commandFlagsFromString flagTokens moduleFlagByName
    simp only [Option.map_map]
    rfl
  rw [hloop, foldlM_or_eq_some_iff]
  simp only [moduleFlagByName_ne_none_iff, BitVec.ofNat_eq_ofNat, BitVec.zero_or]
  rfl

/-- No set of flags looks like `-1`: the highest bit is nobody's flag. -/
theorem tokenFlags_ne_neg_one (strflags : Option Bytes) : tokenFlags strflags ≠ -1 := by
  intro h
  have hbit : (tokenFlags strflags).getLsbD 63 = true := by
    rw [h]
    rfl
  unfold tokenFlags at hbit
  rw [getLsbD_union] at hbit
  obtain ⟨x, hx, hbit⟩ := hbit
  obtain ⟨t, -, rfl⟩ := List.mem_map.mp hx
  have hrows : ∀ item ∈ moduleCommandFlags, item.2.getLsbD 63 = false := by decide
  unfold moduleFlagByName at hbit
  cases hfind : moduleCommandFlags.find? fun item ↦ strcaseeq t item.1 with
  | none =>
      rw [hfind] at hbit
      cases hbit
  | some item =>
      rw [hfind, Option.map_some, Option.getD_some,
        hrows item (List.mem_of_find?_eq_some hfind)] at hbit
      cases hbit

/-- The word that is tested against `-1`. -/
theorem elim_commandFlagsWord (strflags : Option Bytes) :
    strflags.elim 0 commandFlagsWord =
      (strflags.elim (some 0) commandFlagsFromString).getD (-1) := by
  cases strflags <;> rfl

/-- A flag string gives its flags, or nothing if a name is unknown. -/
theorem elim_commandFlagsFromString (strflags : Option Bytes) :
    ((∀ t ∈ flagTokens strflags, KnownModuleFlag t) ∧
        strflags.elim (some 0) commandFlagsFromString = some (tokenFlags strflags)) ∨
      (¬(∀ t ∈ flagTokens strflags, KnownModuleFlag t) ∧
        strflags.elim (some 0) commandFlagsFromString = none) := by
  cases strflags with
  | none => exact .inl ⟨by simp [flagTokens], rfl⟩
  | some s =>
      rw [Option.elim_some]
      cases hflags : commandFlagsFromString s with
      | some flags =>
          obtain ⟨hknown, rfl⟩ := commandFlagsFromString_eq_some_iff.mp hflags
          exact .inl ⟨hknown, rfl⟩
      | none =>
          refine .inr ⟨fun hknown ↦ ?_, rfl⟩
          rw [commandFlagsFromString_eq_some_iff.mpr ⟨hknown, rfl⟩] at hflags
          cases hflags

/-- Registering under a free name: the name gets its number and the command its place. -/
theorem registerCommand_of_free {cm : CommandManager} (cmd : RedisCommand)
    (h : cm.lookup cmd.name = none) (flags : BitVec 64) :
    ∃ id t, cm.registerCommand cmd flags =
      { cm.withIds t with commands := cm.commands ++ [{ cmd with flags := flags, id := id }] } := by
  unfold CommandManager.registerCommand
  rw [aclGetCommandId_eq]
  exact ⟨_, _, if_pos h⟩

/-- What the creation of a command should come to: `0` and a new command, or `-1` and
nothing. -/
structure CreatesOrFails (cm : CommandManager) (name : Bytes) (func : ModuleFunc)
    (strflags : Option Bytes) (result : Int × CommandManager) : Prop where
  zero_iff : result.1 = 0 ↔ (∀ t ∈ flagTokens strflags, KnownModuleFlag t) ∧
    ∀ cmd ∈ cm.commands, cmd.name.map lower ≠ (cString name).map lower
  created : result.1 = 0 → ∃ cmd : ManagedCommand, cmd.name = cString name ∧
    cmd.proc = .dispatcher func ∧ cmd.flags = Cmd.module ||| tokenFlags strflags ∧
    (∀ n : Bytes, n.map lower = (cString name).map lower → result.2.lookup n = some cmd) ∧
    ∀ n : Bytes, n.map lower ≠ (cString name).map lower → result.2.lookup n = cm.lookup n
  failed : result.1 ≠ 0 → result = (-1, cm)

theorem CommandManager.lookup_eq_none_iff {cm : CommandManager} {name : Bytes} :
    cm.lookup name = none ↔ ∀ cmd ∈ cm.commands, cmd.name.map lower ≠ name.map lower := by
  unfold CommandManager.lookup
  simp [List.find?_eq_none]

/-- The manager's commands as the server sees them. -/
def CommandManager.table (cm : CommandManager) : List RedisCommand :=
  cm.commands.map ManagedCommand.toRedisCommand

theorem table_startedCommandManager : startedCommandManager.table = redisCommandTable := rfl

theorem commandManagerLookup_table {server : Server} {cm : CommandManager}
    (h : server.commands = cm.table) (name : Bytes) :
    commandManagerLookup server name = (cm.lookup name).map ManagedCommand.toRedisCommand := by
  unfold commandManagerLookup CommandManager.lookup
  rw [h, CommandManager.table, List.find?_map]
  rfl

/-- A module that creates a command of the manager creates it in the server's table. -/
theorem redisModuleCreateCommand_eq {ctx : ModuleCtx} {cm : CommandManager}
    (hbound : ctx.bound = true) (htable : ctx.server.commands = cm.table) (name : Bytes)
    (func : ModuleFunc) (strflags : Option Bytes) :
    redisModuleCreateCommand ctx name func strflags =
      .ok ((redisModuleUseCreateCommand cm name func strflags).1,
        { ctx with server := { ctx.server with
          commands := (redisModuleUseCreateCommand cm name func strflags).2.table } }) := by
  have hunchanged : ctx = { ctx with server := { ctx.server with commands := cm.table } } := by
    rw [← htable]
  have hlookup := commandManagerLookup_table htable (cString name)
  unfold redisModuleCreateCommand redisModuleUseCreateCommand
  rw [if_neg (ne_false_of_eq_true hbound), elim_commandFlagsWord]
  dsimp only
  obtain ⟨-, hflags⟩ | ⟨-, hflags⟩ := elim_commandFlagsFromString strflags
  · rw [hflags, Option.getD_some, if_neg (tokenFlags_ne_neg_one strflags)]
    dsimp only
    by_cases hfree : cm.lookup (cString name) = none
    · rw [hfree, Option.map_none] at hlookup
      rw [if_neg (not_not.mpr hlookup), if_neg (not_not.mpr hfree)]
      obtain ⟨id, t, hreg⟩ := registerCommand_of_free ⟨cString name, .dispatcher func⟩ hfree
        (tokenFlags strflags ||| Cmd.module)
      unfold commandManagerRegisterCommand
      rw [hreg, if_pos hlookup, htable]
      simp [CommandManager.table]
    · have htaken : commandManagerLookup ctx.server (cString name) ≠ none := by
        rw [hlookup, ne_eq, Option.map_eq_none_iff]
        exact hfree
      rw [if_pos htaken, if_pos hfree]
      exact congrArg (fun c ↦ Except.ok (-1, c)) hunchanged
  · rw [hflags, Option.getD_none, if_pos rfl]
    exact congrArg (fun c ↦ Except.ok (-1, c)) hunchanged

end LatteRedis
