import LatteRedis.Keyspace.Deadlines

/-!
# Lazy expiration

A key whose deadline has passed stays in both stores until a command looks it up.
`purge` deletes all such keys at once; expiration is unobservable if commands cannot tell
a database from its purge.

`SameAt` is the relation behind this: two databases agree at time `t` on every key that is
not stale.  Deleting stale keys stays inside it, and so do the updates of `SET`, `GET` and
`EXPIRE` to keys that are not stale.  Two commands look at a stale key without asking for
its deadline: `EXPIRE`, at its own key, and `SET`, at the C string of a key with a NUL in
it.  `lazyExpiration` says that these are all.
-/

namespace LatteRedis

open ByteString

variable {L : LatteC} {E : Extension}

/-! ## Deleting what is stale -/

/-- The database without the keys whose deadline has passed at time `t`. -/
def purge (t : Int) (db : RedisDb) : Except Fault RedisDb :=
  (db.expires.keys.filter fun k ↦ db.Stale t k).foldlM dbDeleteKey db

/-- The deadline of a key at time `t`, if that is still to come. -/
def RedisDb.deadlineAt (db : RedisDb) (t : Int) (k : Bytes) : Option Int :=
  if db.Stale t k then none else db.deadline k

/-- Deleting one key after another. -/
theorem foldlM_dbDeleteKey (ks : List Bytes) (db : RedisDb) :
    ∃ db', ks.foldlM dbDeleteKey db = .ok db' ∧
      (∀ k, db'.value k = if k ∈ ks then none else db.value k) ∧
      (∀ k, db'.deadline k = if k ∈ ks then none else db.deadline k) := by
  induction ks generalizing db with
  | nil => exact ⟨db, rfl, fun k ↦ by simp, fun k ↦ by simp⟩
  | cons key ks ih =>
      obtain ⟨db₁, hdel, hvalue, hdead, -⟩ := dbDeleteKey_ok db key
      obtain ⟨db', hrest, hvalue', hdead'⟩ := ih db₁
      refine ⟨db', ?_, fun k ↦ ?_, fun k ↦ ?_⟩
      · rw [List.foldlM_cons, hdel]
        exact hrest
      · rw [hvalue' k, hvalue]
        by_cases hk : k = key
        · simp [hk]
        · simp [hk]
      · rw [hdead' k, hdead]
        by_cases hk : k = key
        · simp [hk]
        · simp [hk]

/-- `p` holds what `db` holds at time `t`. -/
structure Purged (t : Int) (db p : RedisDb) : Prop where
  value : p.value = db.valueAt t
  deadline : p.deadline = db.deadlineAt t

theorem purge_ok (t : Int) (db : RedisDb) : ∃ p, purge t db = .ok p ∧ Purged t db p := by
  obtain ⟨p, hp, hvalue, hdead⟩ :=
    foldlM_dbDeleteKey (db.expires.keys.filter fun k ↦ db.Stale t k) db
  have hmem : ∀ k, k ∈ (db.expires.keys.filter fun k ↦ db.Stale t k) ↔ db.Stale t k := by
    intro k
    rw [List.mem_filter, decide_eq_true_eq]
    refine ⟨And.right, fun h ↦ ⟨?_, h⟩⟩
    obtain ⟨w, hw, -⟩ := h
    rw [KvStore.mem_keys, show db.expires.find k = some w from hw]
    rfl
  refine ⟨p, hp, funext fun k ↦ ?_, funext fun k ↦ ?_⟩
  · rw [hvalue k, RedisDb.valueAt]
    simp only [hmem]
  · rw [hdead k, RedisDb.deadlineAt]
    simp only [hmem]

/-! ## Agreement at a time -/

/-- The databases agree at time `t`. -/
def SameAt (t : Int) (db db' : RedisDb) : Prop :=
  db.valueAt t = db'.valueAt t ∧ db.deadlineAt t = db'.deadlineAt t

theorem SameAt.symm {t : Int} {db db' : RedisDb} (h : SameAt t db db') : SameAt t db' db :=
  ⟨h.1.symm, h.2.symm⟩

theorem SameAt.trans {t : Int} {a b c : RedisDb} (h : SameAt t a b) (h' : SameAt t b c) :
    SameAt t a c := ⟨h.1.trans h'.1, h.2.trans h'.2⟩

theorem RedisDb.stale_congr {t : Int} {db db' : RedisDb} {k : Bytes}
    (h : db'.deadline k = db.deadline k) : db'.Stale t k ↔ db.Stale t k := by
  unfold RedisDb.Stale
  rw [h]

/-- What is deleted because it is stale is not missed. -/
theorem sameAt_of_deleted {t : Int} {db db' : RedisDb} {P : Bytes → Prop} [DecidablePred P]
    (hP : ∀ k, P k → db.Stale t k) (hvalue : ∀ k, db'.value k = if P k then none else db.value k)
    (hdead : ∀ k, db'.deadline k = if P k then none else db.deadline k) : SameAt t db db' := by
  have hkey : ∀ k, db.valueAt t k = db'.valueAt t k ∧ db.deadlineAt t k = db'.deadlineAt t k := by
    intro k
    unfold RedisDb.valueAt RedisDb.deadlineAt
    by_cases hk : P k
    · rw [if_pos (hP k hk), if_pos (hP k hk), hvalue k, hdead k, if_pos hk, if_pos hk]
      constructor <;> split <;> rfl
    · have hsame : db'.deadline k = db.deadline k := by rw [hdead k, if_neg hk]
      simp only [RedisDb.stale_congr hsame, hsame, hvalue k, if_neg hk, and_self]
  exact ⟨funext fun k ↦ (hkey k).1, funext fun k ↦ (hkey k).2⟩

theorem RedisDb.Reaps.sameAt {t : Int} {k : Bytes} {db db₁ : RedisDb} (h : db.Reaps t k db₁) :
    SameAt t db db₁ := by
  refine sameAt_of_deleted (P := fun k' ↦ k' = k ∧ db.Stale t k) (fun k' hk' ↦ hk'.1 ▸ hk'.2)
    (fun k' ↦ ?_) (fun k' ↦ ?_)
  · rw [h.value]
    by_cases hstale : db.Stale t k
    · by_cases hk : k' = k
      · simp [hk, hstale]
      · simp [hk, hstale]
    · simp [hstale]
  · rw [h.deadline]
    by_cases hstale : db.Stale t k
    · by_cases hk : k' = k
      · simp [hk, hstale]
      · simp [hk, hstale]
    · simp [hstale]

/-- A purged database has no stale keys. -/
theorem Purged.not_stale {t : Int} {db p : RedisDb} (h : Purged t db p) (k : Bytes) :
    ¬ p.Stale t k := by
  rintro ⟨w, hw, hle⟩
  rw [h.deadline, RedisDb.deadlineAt] at hw
  split at hw
  · cases hw
  · next hfresh => exact hfresh ⟨w, hw, hle⟩

theorem RedisDb.valueAt_of_fresh {t : Int} {db : RedisDb} {k : Bytes} (h : ¬ db.Stale t k) :
    db.valueAt t k = db.value k := if_neg h

theorem RedisDb.deadlineAt_of_fresh {t : Int} {db : RedisDb} {k : Bytes} (h : ¬ db.Stale t k) :
    db.deadlineAt t k = db.deadline k := if_neg h

theorem Purged.sameAt {t : Int} {db p : RedisDb} (h : Purged t db p) : SameAt t db p := by
  refine sameAt_of_deleted (P := fun k ↦ db.Stale t k) (fun k h ↦ h) (fun k ↦ ?_) (fun k ↦ ?_)
  · rw [h.value]
    rfl
  · rw [h.deadline]
    rfl

section Updates

variable {t : Int} {a b a' b' : RedisDb} {k : Bytes} {o : LatteObject} {w : Int}

/-- A value that is stored under a key that is not stale shows at once. -/
theorem RedisDb.at_store (ha : ¬ a.Stale t k) (hvalue : a'.value = Function.update a.value k (some o))
    (hdead : a'.deadline = a.deadline) :
    a'.valueAt t = Function.update (a.valueAt t) k (some o) ∧ a'.deadlineAt t = a.deadlineAt t := by
  have hstale : ∀ k', a'.Stale t k' ↔ a.Stale t k' := fun k' ↦
    RedisDb.stale_congr (congrFun hdead k')
  constructor
  · funext k'
    by_cases hk : k' = k
    · subst hk
      rw [Function.update_self, RedisDb.valueAt_of_fresh (by rw [hstale]; exact ha), hvalue,
        Function.update_self]
    · rw [Function.update_of_ne hk]
      simp only [RedisDb.valueAt, hstale, hvalue, Function.update_of_ne hk]
  · funext k'
    simp only [RedisDb.deadlineAt, hstale, hdead]

/-- Storing the same value under a key that is not stale. -/
theorem SameAt.store (h : SameAt t a b) (ha : ¬ a.Stale t k) (hb : ¬ b.Stale t k)
    (hva : a'.value = Function.update a.value k (some o)) (hda : a'.deadline = a.deadline)
    (hvb : b'.value = Function.update b.value k (some o)) (hdb : b'.deadline = b.deadline) :
    SameAt t a' b' := by
  obtain ⟨hva', hda'⟩ := RedisDb.at_store ha hva hda
  obtain ⟨hvb', hdb'⟩ := RedisDb.at_store hb hvb hdb
  exact ⟨by rw [hva', hvb', h.1], by rw [hda', hdb', h.2]⟩

/-- A deadline that is given to a key that is not stale makes it stale or shows at once. -/
theorem RedisDb.at_expire (ha : ¬ a.Stale t k) (hvalue : a'.value = a.value)
    (hdead : a'.deadline = Function.update a.deadline k (some w)) :
    a'.valueAt t = (if w ≤ t then Function.update (a.valueAt t) k none else a.valueAt t) ∧
      a'.deadlineAt t = Function.update (a.deadlineAt t) k (if w ≤ t then none else some w) := by
  have hself : a'.Stale t k ↔ w ≤ t := by
    unfold RedisDb.Stale
    rw [hdead, Function.update_self]
    simp
  have hother : ∀ k', k' ≠ k → (a'.Stale t k' ↔ a.Stale t k') := fun k' hk ↦
    RedisDb.stale_congr (by rw [hdead, Function.update_of_ne hk])
  constructor
  · funext k'
    by_cases hk : k' = k
    · subst hk
      rw [RedisDb.valueAt, hvalue]
      by_cases hw : w ≤ t
      · rw [if_pos (hself.mpr hw), if_pos hw, Function.update_self]
      · rw [if_neg (fun h ↦ hw (hself.mp h)), if_neg hw, RedisDb.valueAt_of_fresh ha]
    · have hval : a'.valueAt t k' = a.valueAt t k' := by
        simp only [RedisDb.valueAt, hother k' hk, hvalue]
      rw [hval]
      split
      · rw [Function.update_of_ne hk]
      · rfl
  · funext k'
    by_cases hk : k' = k
    · subst hk
      rw [Function.update_self, RedisDb.deadlineAt, hdead, Function.update_self]
      simp only [hself]
    · rw [Function.update_of_ne hk]
      simp only [RedisDb.deadlineAt, hother k' hk, hdead, Function.update_of_ne hk]

/-- Giving the same deadline to a key that is not stale. -/
theorem SameAt.expire (h : SameAt t a b) (ha : ¬ a.Stale t k) (hb : ¬ b.Stale t k)
    (hka : a'.value = a.value) (hda : a'.deadline = Function.update a.deadline k (some w))
    (hkb : b'.value = b.value) (hdb : b'.deadline = Function.update b.deadline k (some w)) :
    SameAt t a' b' := by
  obtain ⟨hva', hda'⟩ := RedisDb.at_expire ha hka hda
  obtain ⟨hvb', hdb'⟩ := RedisDb.at_expire hb hkb hdb
  exact ⟨by rw [hva', hvb', h.1], by rw [hda', hdb', h.2]⟩

/-- Both databases have been looked up. -/
theorem SameAt.reaps (h : SameAt t a b) (ha : a.Reaps t k a') (hb : b.Reaps t k b') :
    SameAt t a' b' := (ha.sameAt.symm.trans h).trans hb.sameAt

/-- A key that is looked up is not stale any more. -/
theorem RedisDb.Reaps.fresh (h : a.Reaps t k a') {k' : Bytes} (hother : k' ≠ k → ¬ a.Stale t k') :
    ¬ a'.Stale t k' := by
  by_cases hk : k' = k
  · rw [hk]
    exact h.not_stale
  · rw [RedisDb.stale_congr (h.deadline_of_ne hk)]
    exact hother hk

end Updates

/-! ## Comparing two executions -/

/-- The same reply, and databases with the same purge; or the same fault. -/
def SameOutcome (t : Int) (d : Nat) :
    Except Fault (Server × RedisClient) → Except Fault (Server × RedisClient) → Prop
  | .ok (s₁, rc₁), .ok (s₂, rc₂) => rc₁.reply = rc₂.reply ∧
      ∃ db₁ db₂ p₁ p₂, s₁.dbs[d]? = some db₁ ∧ s₂.dbs[d]? = some db₂ ∧
        purge t db₁ = .ok p₁ ∧ purge t db₂ = .ok p₂ ∧
        p₁.value = p₂.value ∧ p₁.deadline = p₂.deadline
  | .error f, .error f' => f = f'
  | _, _ => False

theorem sameOutcome_of_sameAt {t : Int} {d : Nat} {s₁ s₂ : Server} {rc₁ rc₂ : RedisClient}
    (hreply : rc₁.reply = rc₂.reply) {db₁ db₂ : RedisDb} (h₁ : s₁.dbs[d]? = some db₁)
    (h₂ : s₂.dbs[d]? = some db₂) (h : SameAt t db₁ db₂) :
    SameOutcome t d (.ok (s₁, rc₁)) (.ok (s₂, rc₂)) := by
  obtain ⟨p₁, hp₁, hpurged₁⟩ := purge_ok t db₁
  obtain ⟨p₂, hp₂, hpurged₂⟩ := purge_ok t db₂
  refine ⟨hreply, db₁, db₂, p₁, p₂, h₁, h₂, hp₁, hp₂, ?_, ?_⟩
  · rw [hpurged₁.value, hpurged₂.value, h.1]
  · rw [hpurged₁.deadline, hpurged₂.deadline, h.2]

section Commands

variable {server : Server} {rc : RedisClient} {db p : RedisDb} {name k v : Bytes}

/-- A command that leaves its database alone. -/
theorem sameOutcome_unchanged {t : Int} (hdb : server.dbs[rc.dbid]? = some db)
    (hp : Purged t db p) {rc₁ rc₂ : RedisClient} (hreply : rc₁.reply = rc₂.reply) :
    SameOutcome t rc.dbid (.ok (server, rc₁)) (.ok (server.setDb rc.dbid p, rc₂)) :=
  sameOutcome_of_sameAt hreply hdb (Server.getElem?_setDb hdb p) hp.sameAt

theorem getCommand_sameOutcome (hargs : rc.Holds [name, k])
    (hdb : server.dbs[rc.dbid]? = some db) (hp : Purged server.clock.mstime db p) :
    SameOutcome server.clock.mstime rc.dbid (getCommand L server rc)
      (getCommand L (server.setDb rc.dbid p) rc) := by
  have hdb₂ := Server.getElem?_setDb hdb p
  obtain ⟨db₁, hreaps, hget⟩ := getCommand_ok (L := L) hargs hdb
  obtain ⟨p₁, hreaps₂, hget₂⟩ := getCommand_ok (L := L) hargs hdb₂
  rw [hget, hget₂]
  refine sameOutcome_of_sameAt ?_ (Server.getElem?_setDb hdb db₁) (Server.getElem?_setDb hdb₂ p₁)
    (hp.sameAt.reaps hreaps hreaps₂)
  rw [hreaps.value_self, hreaps₂.value_self, hp.sameAt.1]
  rfl

/-- The C string of `k` is another key, which is stale, and `k` itself is not there. -/
def RedisDb.Shadowed (db : RedisDb) (t : Int) (k : Bytes) : Prop :=
  db.valueAt t k = none ∧ cString k ≠ k ∧ db.Stale t (cString k)

/-- `SET` of a key that is not there, if nothing is in its way. -/
theorem setCommand_sameOutcome_insert (hargs : rc.Holds [name, k, v])
    (hdb : server.dbs[rc.dbid]? = some db) (hp : Purged server.clock.mstime db p)
    (hval : db.valueAt server.clock.mstime k = none) (hfree : ¬ db.Blocks k) (hfree₂ : ¬ p.Blocks k)
    (hfresh : cString k ≠ k → ¬ db.Stale server.clock.mstime (cString k)) :
    SameOutcome server.clock.mstime rc.dbid (setCommand L server rc)
      (setCommand L (server.setDb rc.dbid p) rc) := by
  have hdb₂ := Server.getElem?_setDb hdb p
  have hval₂ : p.valueAt (server.setDb rc.dbid p).clock.mstime k = none := by
    rw [← hval, hp.sameAt.1]
    rfl
  obtain ⟨db₁, val, hreaps, -, hargv, -, hcase⟩ := setCommand_insert (L := L) hargs hdb hval hfree
  obtain ⟨p₁, val₂, hreaps₂, -, hargv₂, -, hcase₂⟩ :=
    setCommand_insert (L := L) hargs hdb₂ hval₂ hfree₂
  rw [hargv] at hargv₂
  cases hargv₂
  have hinit : initObjectLruOrLfu (server.setDb rc.dbid p) val = initObjectLruOrLfu server val := rfl
  rw [hinit] at hcase₂
  obtain ⟨f, hf, hset⟩ | ⟨o, db', ho, hexp, hvalue, -, hset⟩ := hcase
  · obtain ⟨f₂, hf₂, hset₂⟩ | ⟨o₂, p', ho₂, -⟩ := hcase₂
    · rw [hf] at hf₂
      cases hf₂
      rw [hset, hset₂]
      rfl
    · rw [hf] at ho₂
      cases ho₂
  · obtain ⟨f₂, hf₂, -⟩ | ⟨o₂, p', ho₂, hexp₂, hvalue₂, -, hset₂⟩ := hcase₂
    · rw [ho] at hf₂
      cases hf₂
    · rw [ho] at ho₂
      cases ho₂
      rw [hset, hset₂]
      refine sameOutcome_of_sameAt rfl (Server.getElem?_setDb hdb db')
        (Server.getElem?_setDb hdb₂ p') ?_
      exact SameAt.store (hp.sameAt.reaps hreaps hreaps₂) (hreaps.fresh hfresh)
        (hreaps₂.fresh fun _ ↦ hp.not_stale _) hvalue (by rw [RedisDb.deadline, hexp]; rfl) hvalue₂
        (by rw [RedisDb.deadline, hexp₂]; rfl)

/-- `SET` of a key that is there. -/
theorem setCommand_sameOutcome_present (hargs : rc.Holds [name, k, v])
    (hdb : server.dbs[rc.dbid]? = some db) (hp : Purged server.clock.mstime db p) {old : LatteObject}
    (hval : db.valueAt server.clock.mstime k = some old) :
    SameOutcome server.clock.mstime rc.dbid (setCommand L server rc)
      (setCommand L (server.setDb rc.dbid p) rc) := by
  have hdb₂ := Server.getElem?_setDb hdb p
  have hval₂ : p.valueAt (server.setDb rc.dbid p).clock.mstime k = some old := by
    rw [← hval, hp.sameAt.1]
    rfl
  by_cases htype : old.type = .string
  · obtain ⟨db₁, val, db', hreaps, -, hargv, hexp, hvalue, -, hset⟩ :=
      setCommand_replace (L := L) hargs hdb hval htype
    obtain ⟨p₁, val₂, p', hreaps₂, -, hargv₂, hexp₂, hvalue₂, -, hset₂⟩ :=
      setCommand_replace (L := L) hargs hdb₂ hval₂ htype
    rw [hargv] at hargv₂
    cases hargv₂
    rw [hset, hset₂]
    refine sameOutcome_of_sameAt rfl (Server.getElem?_setDb hdb db')
      (Server.getElem?_setDb hdb₂ p') ?_
    exact SameAt.store (hp.sameAt.reaps hreaps hreaps₂) hreaps.not_stale hreaps₂.not_stale hvalue
      (by rw [RedisDb.deadline, hexp]; rfl) hvalue₂ (by rw [RedisDb.deadline, hexp₂]; rfl)
  · obtain ⟨db₁, hreaps, hset⟩ := setCommand_wrongType (L := L) hargs hdb hval htype
    obtain ⟨p₁, hreaps₂, hset₂⟩ := setCommand_wrongType (L := L) hargs hdb₂ hval₂ htype
    rw [hset, hset₂]
    exact sameOutcome_of_sameAt rfl (Server.getElem?_setDb hdb db₁)
      (Server.getElem?_setDb hdb₂ p₁) (hp.sameAt.reaps hreaps hreaps₂)

theorem setCommand_sameOutcome (hargs : rc.Holds [name, k, v])
    (hdb : server.dbs[rc.dbid]? = some db) (hp : Purged server.clock.mstime db p)
    (hshadow : ¬ db.Shadowed server.clock.mstime k) :
    SameOutcome server.clock.mstime rc.dbid (setCommand L server rc)
      (setCommand L (server.setDb rc.dbid p) rc) := by
  cases hval : db.valueAt server.clock.mstime k with
  | none =>
      have hfresh : cString k ≠ k → ¬ db.Stale server.clock.mstime (cString k) := fun hne h ↦
        hshadow ⟨hval, hne, h⟩
      have hblocks : db.Blocks k ↔ p.Blocks k := by
        apply and_congr_right
        intro hne
        rw [hp.value, RedisDb.valueAt_of_fresh (hfresh hne)]
      by_cases hb : db.Blocks k
      · have hval₂ : p.valueAt (server.setDb rc.dbid p).clock.mstime k = none := by
          rw [← hval, hp.sameAt.1]
          rfl
        rw [setCommand_blocked hargs hdb hval hb,
          setCommand_blocked hargs (Server.getElem?_setDb hdb p) hval₂ (hblocks.mp hb)]
        rfl
      · exact setCommand_sameOutcome_insert hargs hdb hp hval hb (fun h ↦ hb (hblocks.mpr h)) hfresh
  | some old => exact setCommand_sameOutcome_present hargs hdb hp hval

/-- In the database the key is in the way, in its purge it is not. -/
theorem setCommand_differs (hargs : rc.Holds [name, k, v])
    (hdb : server.dbs[rc.dbid]? = some db) (hguarded : db.Guarded)
    (hp : Purged server.clock.mstime db p) (hshadow : db.Shadowed server.clock.mstime k) :
    ¬ SameOutcome server.clock.mstime rc.dbid (setCommand L server rc)
      (setCommand L (server.setDb rc.dbid p) rc) := by
  obtain ⟨hval, hne, hstale⟩ := hshadow
  have hdb₂ := Server.getElem?_setDb hdb p
  have hpresent : (db.value (cString k)).isSome := by
    obtain ⟨w, hw, -⟩ := hstale
    exact hguarded _ (by rw [hw]; rfl)
  have hfree : ¬ p.Blocks k := by
    rintro ⟨-, h⟩
    rw [hp.value, RedisDb.valueAt, if_pos hstale] at h
    cases h
  rw [setCommand_blocked hargs hdb hval ⟨hne, hpresent⟩]
  obtain ⟨p₁, val, -, -, -, -, ⟨f, hf, hset⟩ | ⟨o, p', -, -, -, -, hset⟩⟩ :=
    setCommand_insert (L := L) hargs hdb₂ (by
      rw [← hval, hp.sameAt.1]
      rfl) hfree
  · rw [hset]
    intro h
    have hfault : f = .divisionByZero := by
      unfold initObjectLruOrLfu lruClock at hf
      split at hf
      · cases hf
      · split at hf
        · cases hf
        · split at hf
          · cases hf
            rfl
          · split at hf <;> cases hf
    rw [hfault] at h
    cases h
  · rw [hset]
    exact id

theorem expireCommand_sameOutcome (hargs : rc.Holds [name, k, v])
    (hdb : server.dbs[rc.dbid]? = some db) (hp : Purged server.clock.mstime db p)
    (hfresh : (expireSeconds L v).isSome → ¬ db.Stale server.clock.mstime k) :
    SameOutcome server.clock.mstime rc.dbid (expireCommand L server rc)
      (expireCommand L (server.setDb rc.dbid p) rc) := by
  have hdb₂ := Server.getElem?_setDb hdb p
  rw [expireCommand_eq hargs hdb, expireCommand_eq hargs hdb₂]
  cases hsec : expireSeconds L v with
  | none => exact sameOutcome_unchanged hdb hp rfl
  | some seconds =>
      have hk : ¬ db.Stale server.clock.mstime k := hfresh (by rw [hsec]; rfl)
      have hvalue : p.value k = db.value k := by rw [hp.value, RedisDb.valueAt_of_fresh hk]
      have hdead : p.deadline k = db.deadline k := by
        rw [hp.deadline, RedisDb.deadlineAt_of_fresh hk]
      simp only [hvalue]
      by_cases hnone : db.value k = none
      · rw [if_pos hnone, if_pos hnone]
        exact sameOutcome_unchanged hdb hp rfl
      · rw [if_neg hnone, if_neg hnone,
          show expireDeadline (server.setDb rc.dbid p) seconds = expireDeadline server seconds from rfl]
        cases hw : db.deadline k with
        | some w =>
            have hset : (db.deadline k).isSome := by
              rw [hw]
              rfl
            have hset₂ : (p.deadline k).isSome := by
              rw [hdead]
              exact hset
            rw [dbSetExpire_existing hset, dbSetExpire_existing hset₂]
            exact sameOutcome_of_sameAt rfl (Server.getElem?_setDb hdb db)
              (Server.getElem?_setDb hdb₂ p) hp.sameAt
        | none =>
            obtain ⟨db', hset, hkeys, hdead'⟩ := dbSetExpire_new hw (expireDeadline server seconds)
            obtain ⟨p', hset₂, hkeys₂, hdead₂'⟩ :=
              dbSetExpire_new (hdead.trans hw) (expireDeadline server seconds)
            rw [hset, hset₂]
            refine sameOutcome_of_sameAt rfl (Server.getElem?_setDb hdb db')
              (Server.getElem?_setDb hdb₂ p') ?_
            exact hp.sameAt.expire hk (hp.not_stale k) (by rw [RedisDb.value, hkeys]; rfl) hdead'
              (by rw [RedisDb.value, hkeys₂]; rfl) hdead₂'

/-- A stale key still has its deadline, and `EXPIRE` does not replace a deadline. -/
theorem expireCommand_differs (hL : L.AppendsProto) (hargs : rc.Holds [name, k, v])
    (hdb : server.dbs[rc.dbid]? = some db) (hguarded : db.Guarded)
    (hp : Purged server.clock.mstime db p) (hsec : (expireSeconds L v).isSome)
    (hstale : db.Stale server.clock.mstime k) :
    ¬ SameOutcome server.clock.mstime rc.dbid (expireCommand L server rc)
      (expireCommand L (server.setDb rc.dbid p) rc) := by
  obtain ⟨seconds, hsec⟩ := Option.isSome_iff_exists.mp hsec
  have hdead : (db.deadline k).isSome := by
    obtain ⟨w, hw, -⟩ := hstale
    rw [hw]
    rfl
  have hpresent : db.value k ≠ none := Option.isSome_iff_ne_none.mp (hguarded k hdead)
  have hgone : p.value k = none := by rw [hp.value, RedisDb.valueAt, if_pos hstale]
  rw [expireCommand_eq hargs hdb, expireCommand_eq hargs (Server.getElem?_setDb hdb p), hsec]
  simp only [if_neg hpresent, if_pos hgone, dbSetExpire_existing hdead]
  rintro ⟨hreply, -⟩
  -- one reply begins with `-`, the other with `:`
  have hout := congrArg ReplyBuf.out hreply
  simp only [Bool.false_eq_true, if_false, RedisClient.replied] at hout
  rw [addReplyError, out_addReplyErrorLength hL, out_addReplyLongLongWithPrefix hL] at hout
  have hbytes := List.append_cancel_left hout
  cases hbytes

end Commands

/-! ## Every request -/

/-- An `EXPIRE` with a number of seconds, of a key that is stale. -/
def Request.ExpiresStale (L : LatteC) (r : Request) (db : RedisDb) : Prop :=
  r.Calls "expire" ∧ ∃ k s, r.operands = [k, s] ∧ (expireSeconds L s).isSome ∧
    db.Stale r.clock.mstime k

/-- A `SET` of a key that is not there, has a NUL in it, and is stale up to the NUL. -/
def Request.SetsOverStale (r : Request) (db : RedisDb) : Prop :=
  r.Calls "set" ∧ ∃ k v, r.operands = [k, v] ∧ db.Shadowed r.clock.mstime k

theorem Server.Ready.setDb {server : Server} (h : server.Ready) (d : Nat) (db : RedisDb) :
    (server.setDb d db).Ready := h

section Requests

variable {server : Server} (hready : server.Ready) {r : Request} {db p : RedisDb}
  (hdb : server.dbs[r.client.dbid]? = some db) (hp : Purged r.clock.mstime db p)
include hready hdb hp

/-- A `SET` with any operands. -/
theorem Request.set_sameOutcome_iff (hguarded : db.Guarded) (hr : r.Calls "set") :
    SameOutcome r.clock.mstime r.client.dbid (r.execute L E server)
        (r.execute L E (server.setDb r.client.dbid p)) ↔ ¬ r.SetsOverStale db := by
  rw [r.execute_set hready hr, r.execute_set (hready.setDb r.client.dbid p) hr]
  by_cases hargc : (r.called ⟨ascii "set", .dispatcher .set⟩).argc = 3
  · obtain ⟨k, v, hops⟩ := r.operands_of_argc hargc
    have hargs := Request.called_operands hops ⟨ascii "set", .dispatcher .set⟩
    constructor
    · rintro h ⟨-, k', v', hops', hshadow⟩
      rw [hops] at hops'
      cases hops'
      exact setCommand_differs hargs (r.db_called _ hdb) hguarded hp hshadow h
    · intro h
      exact setCommand_sameOutcome hargs (r.db_called _ hdb) hp fun hshadow ↦
        h ⟨hr, k, v, hops, hshadow⟩
  · refine iff_of_true ?_ ?_
    · unfold setCommand
      rw [if_pos hargc, if_pos hargc]
      exact sameOutcome_unchanged (r.db_called ⟨ascii "set", .dispatcher .set⟩ hdb) hp rfl
    · rintro ⟨-, k, v, hops, -⟩
      exact hargc ((Request.called_operands hops _).1)

/-- A `GET` with any operands. -/
theorem Request.get_sameOutcome (hr : r.Calls "get") :
    SameOutcome r.clock.mstime r.client.dbid (r.execute L E server)
      (r.execute L E (server.setDb r.client.dbid p)) := by
  rw [r.execute_get hready hr, r.execute_get (hready.setDb r.client.dbid p) hr]
  by_cases hargc : (r.called ⟨ascii "get", .dispatcher .get⟩).argc = 2
  · obtain ⟨k, hops⟩ := r.operand_of_argc hargc
    have hargs := Request.called_operands hops ⟨ascii "get", .dispatcher .get⟩
    exact getCommand_sameOutcome hargs (r.db_called _ hdb) hp
  · unfold getCommand
    rw [if_pos hargc, if_pos hargc]
    exact sameOutcome_unchanged (r.db_called ⟨ascii "get", .dispatcher .get⟩ hdb) hp rfl

/-- An `EXPIRE` with any operands. -/
theorem Request.expire_sameOutcome_iff (hL : L.AppendsProto) (hguarded : db.Guarded)
    (hr : r.Calls "expire") :
    SameOutcome r.clock.mstime r.client.dbid (r.execute L E server)
        (r.execute L E (server.setDb r.client.dbid p)) ↔ ¬ r.ExpiresStale L db := by
  rw [r.execute_expire hready hr, r.execute_expire (hready.setDb r.client.dbid p) hr]
  by_cases hargc : (r.called ⟨ascii "expire", .expire⟩).argc = 3
  · obtain ⟨k, s, hops⟩ := r.operands_of_argc hargc
    have hargs := Request.called_operands hops ⟨ascii "expire", .expire⟩
    constructor
    · rintro h ⟨-, k', s', hops', hsec, hstale⟩
      rw [hops] at hops'
      cases hops'
      exact expireCommand_differs hL hargs (r.db_called _ hdb) hguarded hp hsec hstale h
    · intro h
      exact expireCommand_sameOutcome hargs (r.db_called _ hdb) hp fun hsec hstale ↦
        h ⟨hr, k, s, hops, hsec, hstale⟩
  · refine iff_of_true ?_ ?_
    · unfold expireCommand
      rw [if_pos hargc, if_pos hargc]
      exact sameOutcome_unchanged (r.db_called ⟨ascii "expire", .expire⟩ hdb) hp rfl
    · rintro ⟨-, k, s, hops, -⟩
      exact hargc ((Request.called_operands hops _).1)

end Requests

/-- **When lazy expiration is unobservable.**  Take a database in which every key with a
deadline is there, and a `SET`, `GET` or `EXPIRE` with any operands.  Its reply on the
database and on the purge of it are the same, and the databases it leaves have the same
purge, exactly if it is neither an `EXPIRE` of a stale key nor a `SET` of a key whose C
string is a stale key. -/
theorem lazyExpiration (L : LatteC) (hL : L.AppendsProto) (E : Extension) (server : Server)
    (hready : server.Ready) (r : Request) (hr : r.OnKeys) (db : RedisDb)
    (hdb : server.dbs[r.client.dbid]? = some db) (hguarded : db.Guarded) :
    ∃ p, purge r.clock.mstime db = .ok p ∧
      (SameOutcome r.clock.mstime r.client.dbid (r.execute L E server)
          (r.execute L E (server.setDb r.client.dbid p)) ↔
        ¬ r.ExpiresStale L db ∧ ¬ r.SetsOverStale db) := by
  obtain ⟨p, hpurge, hp⟩ := purge_ok r.clock.mstime db
  refine ⟨p, hpurge, ?_⟩
  -- a request has one name only
  rcases hr with hr | hr | hr
  · have hother : ¬ r.ExpiresStale L db := fun h ↦ absurd (hr.symm.trans h.1) (by decide)
    rw [and_iff_right hother]
    exact r.set_sameOutcome_iff hready hdb hp hguarded hr
  · have hother : ¬ r.ExpiresStale L db := fun h ↦ absurd (hr.symm.trans h.1) (by decide)
    have hsets : ¬ r.SetsOverStale db := fun h ↦ absurd (hr.symm.trans h.1) (by decide)
    exact iff_of_true (r.get_sameOutcome hready hdb hp hr) ⟨hother, hsets⟩
  · have hsets : ¬ r.SetsOverStale db := fun h ↦ absurd (hr.symm.trans h.1) (by decide)
    rw [and_iff_left hsets]
    exact r.expire_sameOutcome_iff hready hdb hp hL hguarded hr

/-- A `GET` of a key one second after its deadline. -/
theorem lazyExpiration_get :
    let past := [Request.of 0 ⟨0, 0, 0⟩ (ascii "SET") [ascii "k", ascii "a"],
      Request.of 0 ⟨0, 0, 0⟩ (ascii "EXPIRE") [ascii "k", ascii "1"]]
    let r := Request.of 0 ⟨2000, 0, 0⟩ (ascii "GET") [ascii "k"]
    ∃ server db p,
      Request.serveAll .sample .absent (startRedisServer 16 10 ⟨0, 0, 0⟩) past = .ok server ∧
      server.dbs[0]? = some db ∧ purge 2000 db = .ok p ∧
      (SameOutcome 2000 0 (r.execute .sample .absent server)
          (r.execute .sample .absent (server.setDb 0 p)) ↔
        ¬ r.ExpiresStale .sample db ∧ ¬ r.SetsOverStale db) := by
  intro past r
  have hrun : ∃ server db,
      Request.serveAll .sample .absent (startRedisServer 16 10 ⟨0, 0, 0⟩) past = .ok server ∧
      server.dbs[0]? = some db := ⟨_, _, rfl, rfl⟩
  obtain ⟨server, db, hpast, hdb⟩ := hrun
  have hrunning := running_of_serveAll (fun r _ ↦ .inr Extension.absent_passive) hpast
  obtain ⟨p, hp, hiff⟩ := lazyExpiration .sample LatteC.sample_appends .absent server hrunning.ready r
    (.inr (.inl (by decide))) db hdb (hrunning.guarded db (List.mem_of_getElem? hdb))
  exact ⟨server, db, p, hpast, hdb, hp, hiff⟩

/-- An `EXPIRE` of a key one second after its deadline: the key that is still stored and the
key that is gone get different replies. -/
theorem staleExpire_observed :
    let past := [Request.of 0 ⟨0, 0, 0⟩ (ascii "SET") [ascii "k", ascii "a"],
      Request.of 0 ⟨0, 0, 0⟩ (ascii "EXPIRE") [ascii "k", ascii "1"]]
    let r := Request.of 0 ⟨2000, 0, 0⟩ (ascii "EXPIRE") [ascii "k", ascii "10"]
    ∃ server db p s₁ rc₁ s₂ rc₂,
      Request.serveAll .sample .absent (startRedisServer 16 10 ⟨0, 0, 0⟩) past = .ok server ∧
      server.dbs[0]? = some db ∧ db.Guarded ∧ purge 2000 db = .ok p ∧
      r.execute .sample .absent server = .ok (s₁, rc₁) ∧
      rc₁.reply.out = ascii "-ERR ERR could not set expire\r\n" ∧
      r.execute .sample .absent (server.setDb 0 p) = .ok (s₂, rc₂) ∧
      rc₂.reply.out = ascii ":0\r\n" := by
  intro past r
  have hrun : ∃ server db p s₁ rc₁ s₂ rc₂,
      Request.serveAll .sample .absent (startRedisServer 16 10 ⟨0, 0, 0⟩) past = .ok server ∧
      server.dbs[0]? = some db ∧ purge 2000 db = .ok p ∧
      r.execute .sample .absent server = .ok (s₁, rc₁) ∧
      rc₁.reply.out = ascii "-ERR ERR could not set expire\r\n" ∧
      r.execute .sample .absent (server.setDb 0 p) = .ok (s₂, rc₂) ∧
      rc₂.reply.out = ascii ":0\r\n" := ⟨_, _, _, _, _, _, _, rfl, rfl, rfl, rfl, rfl, rfl, rfl⟩
  obtain ⟨server, db, p, s₁, rc₁, s₂, rc₂, hpast, hdb, hrest⟩ := hrun
  have hrunning := running_of_serveAll (fun r _ ↦ .inr Extension.absent_passive) hpast
  exact ⟨server, db, p, s₁, rc₁, s₂, rc₂, hpast, hdb,
    hrunning.guarded db (List.mem_of_getElem? hdb), hrest⟩

end LatteRedis
