import LatteRedis.Command.Handlers

/-!
# What commands leave alone

A command of the server's own writes nothing but a database.  So whatever else is read off
a server (its frequency, its policy, what its clock says) is the same behind a command,
as far as code that is loaded at run time keeps it.
-/

namespace LatteRedis

open ByteString

variable {L : LatteC} {E : Extension} {server server' : Server} {rc rc' : RedisClient}

/-- `server'` differs from `server` in its databases at most. -/
def Server.Frames (server server' : Server) : Prop := ∃ dbs, server' = { server with dbs := dbs }

theorem Server.Frames.refl (server : Server) : server.Frames server := ⟨server.dbs, rfl⟩

theorem Server.Frames.setDb (server : Server) (d : Nat) (db : RedisDb) :
    server.Frames (server.setDb d db) := ⟨_, rfl⟩

theorem Server.Frames.trans {server'' : Server} (h : server.Frames server')
    (h' : server'.Frames server'') : server.Frames server'' := by
  obtain ⟨dbs, rfl⟩ := h
  obtain ⟨dbs', rfl⟩ := h'
  exact ⟨dbs', rfl⟩

theorem replyWrongArity_server (h : replyWrongArity L server rc = .ok (server', rc')) :
    server' = server := by
  obtain ⟨name, -, h⟩ := Run.bind_eq_ok.mp h
  cases h
  rfl

theorem pingCommand_server (h : pingCommand L server rc = .ok (server', rc')) :
    server' = server := by
  unfold pingCommand at h
  split at h
  · exact replyWrongArity_server h
  · split at h
    · cases h
      rfl
    · obtain ⟨o, -, h⟩ := Run.bind_eq_ok.mp h
      cases h
      rfl

theorem lookupKey_frames {key : LatteObject} {o : Option (Bytes × LatteObject)}
    (h : lookupKey server rc key = .ok (server', o)) : server.Frames server' := by
  unfold lookupKey at h
  split at h
  · cases h
    exact .refl server
  · obtain ⟨keySds, -, h⟩ := Run.bind_eq_ok.mp h
    obtain ⟨db, -, h⟩ := Run.bind_eq_ok.mp h
    obtain ⟨⟨expired, db'⟩, -, h⟩ := Run.bind_eq_ok.mp h
    dsimp only at h
    split at h <;> cases h <;> exact .setDb server _ _

theorem setCommand_frames (h : setCommand L server rc = .ok (server', rc')) :
    server.Frames server' := by
  unfold setCommand at h
  split at h
  · cases h
    exact .refl server
  · obtain ⟨key, -, h⟩ := Run.bind_eq_ok.mp h
    obtain ⟨⟨server₁, o⟩, hlookup, h⟩ := Run.bind_eq_ok.mp h
    refine (lookupKey_frames hlookup).trans ?_
    cases o with
    | none =>
        obtain ⟨v, -, h⟩ := Run.bind_eq_ok.mp h
        obtain ⟨server₂, hadd, h⟩ := Run.bind_eq_ok.mp h
        obtain ⟨db, -, hadd⟩ := Run.bind_eq_ok.mp hadd
        obtain ⟨db', -, hadd⟩ := Run.bind_eq_ok.mp hadd
        cases hadd
        cases h
        exact .setDb server₁ _ _
    | some e =>
        dsimp only at h
        split at h
        · obtain ⟨v, -, h⟩ := Run.bind_eq_ok.mp h
          obtain ⟨server₂, hset, h⟩ := Run.bind_eq_ok.mp h
          obtain ⟨db, -, hset⟩ := Run.bind_eq_ok.mp hset
          cases hset
          cases h
          exact .setDb server₁ _ _
        · cases h
          exact .refl _

theorem getCommand_frames (h : getCommand L server rc = .ok (server', rc')) :
    server.Frames server' := by
  unfold getCommand at h
  split at h
  · cases h
    exact .refl server
  · obtain ⟨key, -, h⟩ := Run.bind_eq_ok.mp h
    obtain ⟨⟨server₁, o⟩, hlookup, h⟩ := Run.bind_eq_ok.mp h
    refine (lookupKey_frames hlookup).trans ?_
    cases o with
    | none =>
        cases h
        exact .refl _
    | some e =>
        dsimp only at h
        split at h <;> cases h <;> exact .refl _

theorem expireCommand_frames (h : expireCommand L server rc = .ok (server', rc')) :
    server.Frames server' := by
  unfold expireCommand at h
  split at h
  · rw [replyWrongArity_server h]
    exact .refl server
  · obtain ⟨o, -, h⟩ := Run.bind_eq_ok.mp h
    obtain ⟨secs, -, h⟩ := Run.bind_eq_ok.mp h
    split at h
    · cases h
      exact .refl server
    · split at h
      · cases h
        exact .refl server
      · obtain ⟨o, -, h⟩ := Run.bind_eq_ok.mp h
        obtain ⟨key, -, h⟩ := Run.bind_eq_ok.mp h
        obtain ⟨db, -, h⟩ := Run.bind_eq_ok.mp h
        split at h
        · cases h
          exact .refl server
        · obtain ⟨⟨set, db'⟩, -, h⟩ := Run.bind_eq_ok.mp h
          dsimp only at h
          split at h <;> cases h <;> exact .setDb server _ _

/-- `module` is the one command of the server's own that runs loaded code. -/
theorem moduleCommand_cases (h : moduleCommand L E server rc = .ok (server', rc')) :
    server' = server ∨ ∃ path args, server' = (E.moduleLoad server path args).1 := by
  obtain ⟨o, -, h⟩ := Run.bind_eq_ok.mp h
  obtain ⟨subcmd, -, h⟩ := Run.bind_eq_ok.mp h
  split at h
  · obtain ⟨o, -, h⟩ := Run.bind_eq_ok.mp h
    obtain ⟨cmd, -, h⟩ := Run.bind_eq_ok.mp h
    obtain ⟨reply, -, h⟩ := Run.bind_eq_ok.mp h
    cases h
    exact .inl rfl
  · split at h
    · obtain ⟨o, -, h⟩ := Run.bind_eq_ok.mp h
      obtain ⟨path, -, h⟩ := Run.bind_eq_ok.mp h
      dsimp only at h
      split at h <;> cases h <;> exact .inr ⟨_, _, rfl⟩
    · split at h
      · cases h
        exact .inl rfl
      · split at h <;> cases h <;> exact .inl rfl

/-- What a command does to the server: it writes databases, loads a module, or runs a
function of one. -/
theorem CommandProc.run_cases {proc : CommandProc}
    (h : proc.run L E server rc = .ok (server', rc')) :
    server.Frames server' ∨ (∃ path args, server' = (E.moduleLoad server path args).1) ∨
      ∃ n reply, E.func n server rc = .ok (server', reply) := by
  match proc with
  | .quit =>
      cases h
      exact .inl (.refl server)
  | .module =>
      rcases moduleCommand_cases h with rfl | hload
      · exact .inl (.refl server')
      · exact .inr (.inl hload)
  | .ping =>
      rw [pingCommand_server h]
      exact .inl (.refl server)
  | .info =>
      cases h
      exact .inl (.refl server)
  | .expire => exact .inl (expireCommand_frames h)
  | .dispatcher .set => exact .inl (setCommand_frames h)
  | .dispatcher .get => exact .inl (getCommand_frames h)
  | .dispatcher (.other n) =>
      obtain ⟨⟨server₁, reply⟩, hfunc, h⟩ := Run.bind_eq_ok.mp h
      cases h
      exact .inr (.inr ⟨n, reply, hfunc⟩)

section Keeps

variable {β : Type} {f : Server → β}

/-- Loaded code does not change what `f` reads off the server. -/
structure Extension.Keeps (E : Extension) (f : Server → β) : Prop where
  load : ∀ server path args, f (E.moduleLoad server path args).1 = f server
  func : ∀ {n server rc server' reply}, E.func n server rc = .ok (server', reply) →
    f server' = f server

theorem Extension.absent_keeps (f : Server → β) : Extension.absent.Keeps f where
  load _ _ _ := rfl
  func h := by cases h; rfl

variable (hf : ∀ server dbs, f { server with dbs := dbs } = f server) (hE : E.Keeps f)
include hf hE

theorem CommandProc.run_keeps {proc : CommandProc}
    (h : proc.run L E server rc = .ok (server', rc')) : f server' = f server := by
  obtain ⟨dbs, rfl⟩ | ⟨path, args, rfl⟩ | ⟨n, reply, hfunc⟩ := CommandProc.run_cases h
  · exact hf server dbs
  · exact hE.load server path args
  · exact hE.func hfunc

end Keeps

end LatteRedis
