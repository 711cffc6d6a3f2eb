import LatteRedis.Client.Vector
import LatteRedis.Command.Counted

/-!
# The handlers with reference counts refine those without

`Refines frame s server` says that `s` is `server` with its objects on a heap: the same
keys and deadlines, the same objects up to the stamps nothing reads, and counts that are
right.  The references to an object are the entries of the databases, and a `frame` of
everything that holds one elsewhere: the argument vectors, and a reference that was taken
and not stored yet.

Each handler is then compared with its namesake in `Handlers`.  Both return, with related
results, or both stop in the same way.  So the counts never stop a run: no object that is
gone is read, incremented or decremented.
-/

namespace LatteRedis

open ByteString RefCount

/-! ## What commands see of an object -/

/-- Everything but the `lru` stamp. -/
def LatteObject.text (o : LatteObject) : ObjType × Encoding × Bool := (o.type, o.encoding, o.shared)

section Text

variable {o o' : LatteObject} (h : o.text = o'.text)

include h

theorem LatteObject.type_eq : o.type = o'.type := congrArg Prod.fst h

theorem LatteObject.encoding_eq : o.encoding = o'.encoding := congrArg (fun t ↦ t.2.1) h

theorem LatteObject.ptr_eq : o.ptr = o'.ptr := by
  rw [ptr, ptr, LatteObject.encoding_eq h]

theorem addReplyBulk_text (L : LatteC) (r : ReplyBuf) :
    addReplyBulk L r o = addReplyBulk L r o' := by
  have henc := LatteObject.encoding_eq h
  unfold addReplyBulk addReplyBulkLen addReply LatteObject.content
  rw [henc]

/-- Whether and how an object is stamped depends on nothing that is stamped. -/
theorem initObjectLruOrLfu_text (server : Server) :
    Run.Related (fun a b : LatteObject ↦ a.text = o.text ∧ b.text = o.text)
      (initObjectLruOrLfu server o) (initObjectLruOrLfu server o') := by
  have hshared : o'.shared = o.shared := congrArg (fun t ↦ t.2.2) h.symm
  unfold initObjectLruOrLfu
  by_cases hs : o.shared = true
  · rw [if_pos hs, if_pos (hshared.trans hs)]
    exact .ok ⟨rfl, h.symm⟩
  · rw [if_neg hs, if_neg (show ¬o'.shared = true by rwa [hshared])]
    split
    · exact .ok ⟨rfl, h.symm⟩
    · exact .bind_same _ fun clock ↦ .ok ⟨rfl, h.symm⟩

end Text

namespace Counted

/-! ## Databases -/

theorem deref_eq_ok {α : Type} {o : Option α} {a : α} : deref o = .ok a ↔ o = some a := by
  cases o with
  | none => simp [deref]
  | some b => simp [deref]

/-- The object at `id` is `o`, up to its stamp. -/
def StandsFor (heap : Heap LatteObject) (id : ObjId) (o : LatteObject) : Prop :=
  heap.shown LatteObject.text id = some o.text

/-- The heap has the objects it had before, up to their stamps. -/
abbrev KeepsText (heap heap' : Heap LatteObject) : Prop := heap.Keeps LatteObject.text heap'

/-- `plain` is `db` with the objects in place of their addresses. -/
structure Agrees (heap : Heap LatteObject) (db : Db) (plain : RedisDb) : Prop where
  expires : plain.expires = db.expires
  keys : ∀ key, Option.Rel (StandsFor heap) (db.keys.find key) (plain.keys.find key)

variable {heap heap' : Heap LatteObject} {frame : Multiset ObjId} {db db' : Db} {plain : RedisDb}

theorem StandsFor.mono {id : ObjId} {o : LatteObject} (h : StandsFor heap id o)
    (hk : KeepsText heap heap') : StandsFor heap' id o := hk _ _ h

theorem rel_mono {o : Option ObjId} {p : Option LatteObject} (h : Option.Rel (StandsFor heap) o p)
    (hk : KeepsText heap heap') : Option.Rel (StandsFor heap') o p := by
  cases h with
  | none => exact .none
  | some h => exact .some (h.mono hk)

theorem Agrees.mono (h : Agrees heap db plain) (hk : KeepsText heap heap') :
    Agrees heap' db plain := ⟨h.expires, fun key ↦ rel_mono (h.keys key) hk⟩

theorem rel_some {id : ObjId} {p : Option LatteObject} (h : Option.Rel (StandsFor heap) (some id) p) :
    ∃ o, p = some o ∧ StandsFor heap id o := by
  cases h with
  | some h => exact ⟨_, rfl, h⟩

theorem rel_none {p : Option LatteObject} (h : Option.Rel (StandsFor heap) none p) : p = none := by
  cases h
  rfl

/-- An object that is held can be read. -/
theorem object_of_held {held : Multiset ObjId} (hb : heap.Balanced held) {id : ObjId}
    {o : LatteObject} (hid : id ∈ held) (h : StandsFor heap id o) :
    ∃ o', object heap id = .ok o' ∧ o'.text = o.text := by
  obtain ⟨o', hread, htext⟩ := hb.read_shown hid h
  exact ⟨o', deref_eq_ok.mpr hread, htext⟩

/-- One entry is changed on both sides. -/
theorem rel_update {find : Bytes → Option ObjId} {find' : Bytes → Option LatteObject}
    (h : ∀ key, Option.Rel (StandsFor heap) (find key) (find' key)) (key : Bytes)
    {o : Option ObjId} {o' : Option LatteObject} (ho : Option.Rel (StandsFor heap) o o') (k : Bytes) :
    Option.Rel (StandsFor heap) (Function.update find key o k)
      (Function.update find' key o' k) := by
  by_cases hk : k = key
  · subst hk
    rw [Function.update_self, Function.update_self]
    exact ho
  · rw [Function.update_of_ne hk, Function.update_of_ne hk]
    exact h k

/-- A database and its heap after something was done to them. -/
structure DbAfter (heap : Heap LatteObject) (frame : Multiset ObjId) (r : Heap LatteObject × Db)
    (plain : RedisDb) : Prop where
  balanced : r.1.Balanced (frame + r.2.keys.values)
  keeps : KeepsText heap r.1
  agrees : Agrees r.1 r.2 plain

/-- The value of a deleted key gives up the reference of its entry. -/
theorem dbDeleteKey_refines (hb : heap.Balanced (frame + db.keys.values)) (ha : Agrees heap db plain)
    (key : Bytes) :
    Run.Related (DbAfter heap frame) (dbDeleteKey heap db key) (LatteRedis.dbDeleteKey plain key) := by
  obtain ⟨expires, hexpires, -, -⟩ := db.expires.dictDeleteKey_find key
  obtain ⟨keys, hkeys, hfind, -⟩ := db.keys.dictDeleteKey_find key
  obtain ⟨keys', hkeys', hfind', -⟩ := plain.keys.dictDeleteKey_find key
  have hvalues := KvStore.values_update hfind
  have hagrees : ∀ k, Option.Rel (StandsFor heap) (keys.find k) (keys'.find k) := by
    rw [hfind, hfind']
    exact rel_update ha.keys key .none
  unfold dbDeleteKey LatteRedis.dbDeleteKey getKvStoreIndexForKey
  simp only [ha.expires, hexpires, hkeys, hkeys', Run.ok_bind]
  cases hold : db.keys.find key with
  | none =>
      rw [hold] at hvalues
      refine .ok ⟨?_, .refl heap, rfl, hagrees⟩
      rw [show keys.values = db.keys.values by simpa using hvalues]
      exact hb
  | some val =>
      rw [hold] at hvalues
      have hheld : frame + db.keys.values = val ::ₘ (frame + keys.values) := by
        rw [← Multiset.add_cons]
        exact congrArg (frame + ·) (by simpa using hvalues.symm)
      rw [hheld] at hb
      obtain ⟨heap₁, hdecr, hb₁⟩ := hb.decr
      dsimp only
      rw [dictObjectDestructor, latteObjectDecrRefCount, deref_eq_ok.mpr hdecr]
      have hk : KeepsText heap heap₁ := Heap.keeps_decr hdecr
      exact .ok ⟨hb₁, hk, rfl, fun k ↦ rel_mono (hagrees k) hk⟩

theorem expireIfNeeded_refines {s : Server} {server : LatteRedis.Server}
    (hclock : s.clock = server.clock) (hb : s.heap.Balanced (frame + db.keys.values))
    (ha : Agrees s.heap db plain) (key : Bytes) :
    Run.Related (fun r p ↦ r.1 = p.1 ∧ DbAfter s.heap frame r.2 p.2) (expireIfNeeded s db key)
      (LatteRedis.expireIfNeeded server plain key) := by
  unfold expireIfNeeded LatteRedis.expireIfNeeded
  rw [ha.expires, hclock]
  cases db.expires.find key with
  | none => exact .ok ⟨rfl, hb, .refl _, ha⟩
  | some whenMs =>
      dsimp only
      split
      · exact .ok ⟨rfl, hb, .refl _, ha⟩
      · exact (dbDeleteKey_refines hb ha key).bind fun h ↦ .ok ⟨rfl, h⟩

theorem dbSetExpire_refines (hb : heap.Balanced (frame + db.keys.values))
    (ha : Agrees heap db plain) (key : Bytes) (whenMs : Int) :
    Run.Related (fun r p ↦ r.1 = p.1 ∧ DbAfter heap frame (heap, r.2) p.2) (dbSetExpire db key whenMs)
      (LatteRedis.dbSetExpire plain key whenMs) := by
  unfold dbSetExpire LatteRedis.dbSetExpire
  rw [ha.expires]
  refine .bind_same _ ?_
  intro r
  dsimp only
  split <;> exact .ok ⟨rfl, hb, .refl _, rfl, ha.keys⟩

/-- An object that a reference was taken to is stamped on both sides. -/
theorem initObjectLruOrLfu_refines {s : Server} {server : LatteRedis.Server}
    (hset : s.settings = { server with dbs := [] }) {held : Multiset ObjId}
    (hb : s.heap.Balanced held) {val : ObjId} {v : LatteObject} (hval : val ∈ held)
    (hv : StandsFor s.heap val v) :
    Run.Related (fun heap' v' ↦ heap'.Balanced held ∧ KeepsText s.heap heap' ∧
      StandsFor heap' val v') (initObjectLruOrLfu s val) (LatteRedis.initObjectLruOrLfu server v) := by
  obtain ⟨o, ho, htext⟩ := object_of_held hb hval hv
  have hread : s.heap.read val = some o := deref_eq_ok.mp ho
  have hstamp := initObjectLruOrLfu_text htext { server with dbs := [] }
  unfold initObjectLruOrLfu
  rw [ho, Run.ok_bind, hset]
  change Run.Related _ _ (LatteRedis.initObjectLruOrLfu { server with dbs := [] } v)
  generalize LatteRedis.initObjectLruOrLfu { server with dbs := [] } o = x at hstamp ⊢
  generalize LatteRedis.initObjectLruOrLfu { server with dbs := [] } v = y at hstamp ⊢
  cases hstamp with
  | error f => exact .error f
  | @ok a b hab =>
      obtain ⟨heap', hmodify, hb'⟩ := hb.modify hval fun _ ↦ a
      have hkeeps : KeepsText s.heap heap' := by
        apply Heap.keeps_modify hmodify
        intro a' ha'
        rw [hread] at ha'
        cases ha'
        exact hab.1
      rw [Run.ok_bind, deref_eq_ok.mpr hmodify]
      refine .ok ⟨hb', hkeeps, ?_⟩
      rw [StandsFor, hab.2, htext]
      exact hv.mono hkeeps

/-- Two objects that are held, on the way to the assertion that overwriting is not
supported. -/
theorem dbSetValue_asserts {held : Multiset ObjId} (hb : heap.Balanced held) {key val old : ObjId}
    {keyObj o : LatteObject} {keyPtr entry : Bytes} (hobj : object heap key = .ok keyObj)
    (htype : keyObj.type = .string) (hptr : keyObj.ptr = .ok keyPtr) (hval : val ∈ held)
    (hold : old ∈ held) (ho : StandsFor heap old o) (hfind : db.keys.find entry = some old) :
    dbSetValue heap db key val true (some entry) =
      .error (.assertion "overwrite is not supported") := by
  obtain ⟨oldObj, holdObj, -⟩ := object_of_held hb hold ho
  obtain ⟨heap', hmodify, -⟩ := hb.modify hval fun o ↦ { o with lru := oldObj.lru }
  unfold dbSetValue
  rw [hobj, Run.ok_bind, if_neg (not_not.mpr htype), hptr, Run.ok_bind]
  simp only [Option.getD_some, hfind, holdObj, deref_eq_ok.mpr hmodify, Run.ok_bind, if_true]
  rfl

/-- The reference the caller has taken becomes that of the new entry. -/
theorem dbAddKeyValue_refines {s : Server} {server : LatteRedis.Server}
    (hset : s.settings = { server with dbs := [] }) {key val : ObjId} {k v : LatteObject}
    (hb : s.heap.Balanced (val ::ₘ (frame + db.keys.values))) (ha : Agrees s.heap db plain)
    (hkey : key ∈ frame) (hk : StandsFor s.heap key k) (hv : StandsFor s.heap val v) :
    Run.Related (DbAfter s.heap frame) (dbAddKeyValue s db key val)
      (LatteRedis.dbAddKeyValue server plain k v) := by
  have hheld : ∀ id, id ∈ frame ∨ id ∈ db.keys.values → id ∈ val ::ₘ (frame + db.keys.values) :=
    fun id hid ↦ Multiset.mem_cons_of_mem (Multiset.mem_add.mpr hid)
  have hval : val ∈ val ::ₘ (frame + db.keys.values) := Multiset.mem_cons_self _ _
  obtain ⟨keyObj, hobj, htext⟩ := object_of_held hb (hheld key (.inl hkey)) hk
  have htype := LatteObject.type_eq htext
  have hptr := LatteObject.ptr_eq htext
  unfold dbAddKeyValue dbAddKeyValueInternal LatteRedis.dbAddKeyValue LatteRedis.dbAddKeyValueInternal
  rw [hobj, Run.ok_bind, htype, hptr]
  split
  · exact .error _
  · next hstring =>
      cases hp : k.ptr with
      | error f => exact .error f
      | ok keyPtr =>
          simp only [getKvStoreIndexForKey, Run.ok_bind]
          have hrel := ha.keys (cString keyPtr)
          cases hfind : db.keys.find (cString keyPtr) with
          | some old =>
              rw [hfind] at hrel
              obtain ⟨o, hfind', ho⟩ := rel_some hrel
              rw [KvStore.dictAddRaw_existing (by rw [hfind]; rfl),
                KvStore.dictAddRaw_existing (by rw [hfind']; rfl), Run.ok_bind, Run.ok_bind]
              simp only [Bool.false_eq_true, if_false]
              rw [dbSetValue_asserts hb hobj (htype.trans (not_not.mp hstring)) (hptr.trans hp) hval
                (hheld old (.inr (KvStore.mem_values.mpr ⟨_, hfind⟩))) ho hfind]
              simp only [LatteRedis.dbSetValue, hstring, hp, hfind', Option.getD_some, Run.ok_bind,
                if_false, if_true]
              exact .error _
          | none =>
              rw [hfind] at hrel
              obtain ⟨keys, hadd, hset₁⟩ := db.keys.dictAddRaw_dictSetVal hfind
              obtain ⟨keys', hadd', hset₂⟩ := plain.keys.dictAddRaw_dictSetVal (rel_none hrel)
              rw [hadd, hadd', Run.ok_bind, Run.ok_bind]
              refine (initObjectLruOrLfu_refines hset hb hval hv).bind ?_
              rintro heap' v' ⟨hb', hkeeps, hv'⟩
              have hvalues := KvStore.values_update (hset₁ val)
              rw [hfind] at hvalues
              refine .ok ⟨?_, hkeeps, ha.expires, fun k' ↦ ?_⟩
              · rw [show (keys.dictSetVal 0 (cString keyPtr) val).values = val ::ₘ db.keys.values by
                  simpa using hvalues, Multiset.add_cons]
                exact hb'
              · show Option.Rel _ ((keys.dictSetVal 0 (cString keyPtr) val).find k')
                  ((keys'.dictSetVal 0 (cString keyPtr) v').find k')
                rw [hset₁, hset₂]
                exact rel_update (fun key ↦ rel_mono (ha.keys key) hkeeps) _ (.some hv') k'

/-! ## Servers -/

/-- The references the databases hold. -/
def Server.held (s : Server) : Multiset ObjId := (s.dbs.map fun db ↦ db.keys.values).sum

/-- `s` is `server` with its objects on a heap, where `frame` is what is held elsewhere. -/
structure Refines (frame : Multiset ObjId) (s : Server) (server : LatteRedis.Server) : Prop where
  settings : s.settings = { server with dbs := [] }
  balanced : s.heap.Balanced (frame + s.held)
  dbs : List.Forall₂ (Agrees s.heap) s.dbs server.dbs

variable {s : Server} {server : LatteRedis.Server}

theorem Refines.clock (h : Refines frame s server) : s.clock = server.clock :=
  congrArg LatteRedis.Server.clock h.settings

/-- Taking one element out of a list, and putting another one there. -/
theorem sum_map_split {β : Type} {l : List β} {f : β → Multiset ObjId} {i : Nat} {a : β}
    (h : l[i]? = some a) :
    ∃ rest, (l.map f).sum = rest + f a ∧ ∀ b, ((l.set i b).map f).sum = rest + f b := by
  induction l generalizing i with
  | nil => simp at h
  | cons x l ih =>
      cases i with
      | zero =>
          cases h
          exact ⟨(l.map f).sum, by simp [add_comm], fun b ↦ by simp [add_comm]⟩
      | succ i =>
          obtain ⟨rest, hsum, hset⟩ := ih (i := i) (by simpa using h)
          refine ⟨f x + rest, ?_, fun b ↦ ?_⟩
          · rw [List.map_cons, List.sum_cons, hsum, add_assoc]
          · rw [List.set_cons_succ, List.map_cons, List.sum_cons, hset, add_assoc]

theorem forall₂_set {α β : Type} {R : α → β → Prop} {l : List α} {l' : List β}
    (h : List.Forall₂ R l l') (i : Nat) {a : α} {b : β} (hab : R a b) :
    List.Forall₂ R (l.set i a) (l'.set i b) := by
  induction h generalizing i with
  | nil => exact .nil
  | cons hxy h ih =>
      cases i with
      | zero => exact .cons hab h
      | succ i => exact .cons hxy (ih i)

theorem forall₂_getElem? {α β : Type} {R : α → β → Prop} {l : List α} {l' : List β}
    (h : List.Forall₂ R l l') (i : Nat) : Option.Rel R l[i]? l'[i]? := by
  induction h generalizing i with
  | nil => exact .none
  | cons hxy h ih =>
      cases i with
      | zero => exact .some hxy
      | succ i => exact ih i

/-- The database of a client, and what becomes of the server when it is changed. -/
theorem Refines.dbAt (h : Refines frame s server) (dbid : Nat) :
    Run.Related (fun db plain ↦ Agrees s.heap db plain ∧ s.dbAt dbid = .ok db ∧
      ∃ rest, s.held = rest + db.keys.values ∧
        ∀ {frame' r plain'}, DbAfter s.heap (frame' + rest) r plain' →
          Refines frame' (s.setDb dbid r.1 r.2) (server.setDb dbid plain'))
      (s.dbAt dbid) (server.dbAt dbid) := by
  have hrel := forall₂_getElem? h.dbs dbid
  unfold Server.dbAt LatteRedis.Server.dbAt
  cases hdb : s.dbs[dbid]? with
  | none =>
      rw [hdb] at hrel
      cases hp : server.dbs[dbid]? with
      | some plain => rw [hp] at hrel; cases hrel
      | none => exact .error _
  | some db =>
      rw [hdb] at hrel
      cases hp : server.dbs[dbid]? with
      | none => rw [hp] at hrel; cases hrel
      | some plain =>
          rw [hp] at hrel
          cases hrel with
          | some ha =>
            obtain ⟨rest, hsum, hset⟩ := sum_map_split (f := fun db : Db ↦ db.keys.values) hdb
            refine .ok ⟨ha, rfl, rest, hsum, fun {frame' r plain'} hr ↦ ⟨h.settings, ?_, ?_⟩⟩
            · show r.1.Balanced (frame' + (s.setDb dbid r.1 r.2).held)
              rw [show (s.setDb dbid r.1 r.2).held = rest + r.2.keys.values from hset r.2,
                ← add_assoc]
              exact hr.balanced
            · exact forall₂_set (h.dbs.imp fun _ _ ha ↦ ha.mono hr.keeps) dbid hr.agrees

/-- The references in a frame, where a database is looked at. -/
theorem Refines.balanced_db (h : Refines frame s server) {rest : Multiset ObjId}
    (hrest : s.held = rest + db.keys.values) :
    s.heap.Balanced ((frame + rest) + db.keys.values) := by
  rw [add_assoc, ← hrest]
  exact h.balanced

/-! ## Clients -/

/-- The slots of the vector of `c` are those of the plain client in it. -/
structure Client.Faithful (heap : Heap LatteObject) (c : Client) : Prop where
  whole : c.rc.Whole
  argv : List.Forall₂ (StandsFor heap) c.argv c.rc.args

variable {c : Client}

theorem Client.Faithful.mono (h : c.Faithful heap) (hk : KeepsText heap heap') :
    c.Faithful heap' := ⟨h.whole, h.argv.imp fun _ _ hid ↦ hid.mono hk⟩

/-- Every slot that was filled is below `argc`. -/
theorem Client.Faithful.slots_eq (h : c.Faithful heap) :
    c.slots = c.argv := by
  refine List.take_of_length_le ?_
  have := h.whole.length_args
  rw [h.argv.length_eq]
  omega

theorem Client.Faithful.argvAt (h : c.Faithful heap) (hargc : c.rc.argc ≠ 0) (i : Nat) :
    Run.Related (fun id o ↦ id ∈ c.argv ∧ StandsFor heap id o) (c.argvAt i) (c.rc.argvAt i) := by
  obtain hzero | ⟨a, hargv, hlen⟩ := h.whole
  · exact absurd hzero hargc
  · have hrel := forall₂_getElem? h.argv i
    rw [RedisClient.args_of_full hargv hlen] at hrel
    unfold Client.argvAt RedisClient.argvAt
    rw [hargv]
    dsimp only
    cases hid : c.argv[i]? with
    | none =>
        rw [hid] at hrel
        rw [rel_none hrel]
        exact .error _
    | some id =>
        rw [hid] at hrel
        obtain ⟨o, ho, hstands⟩ := rel_some hrel
        rw [ho]
        exact .ok ⟨List.mem_of_getElem? hid, hstands⟩

/-- What a handler leaves behind: the client differs in its output at most, as its
namesake's does, and the servers are still related. -/
structure After (frame : Multiset ObjId) (s : Server) (c : Client) (r : Server × Client)
    (p : LatteRedis.Server × RedisClient) : Prop where
  refines : Refines frame r.1 p.1
  keeps : KeepsText s.heap r.1.heap
  client : r.2 = { c with rc := p.2 }

variable {L : LatteC}

/-- An argument is read through its slot. -/
theorem object_argv (h : Refines frame s server) (hargs : ∀ id ∈ c.argv, id ∈ frame)
    (hc : c.Faithful s.heap) (hargc : c.rc.argc ≠ 0) (i : Nat) :
    Run.Related (fun o o' ↦ o.text = o'.text) (c.argvAt i >>= object s.heap) (c.rc.argvAt i) := by
  have hrel := hc.argvAt hargc i
  generalize c.argvAt i = x at hrel ⊢
  generalize c.rc.argvAt i = y at hrel ⊢
  cases hrel with
  | error f => exact .error f
  | ok hid =>
      obtain ⟨o, ho, htext⟩ :=
        object_of_held h.balanced (Multiset.mem_add.mpr (.inl (hargs _ hid.1))) hid.2
      rw [Run.ok_bind, ho]
      exact .ok htext

theorem replyWrongArity_refines (h : Refines frame s server) :
    Run.Related (After frame s c) (replyWrongArity L s c)
      (LatteRedis.replyWrongArity L server c.rc) := by
  unfold replyWrongArity LatteRedis.replyWrongArity
  exact .bind_same _ fun name ↦ .ok ⟨h, .refl _, rfl⟩

theorem pingCommand_refines (h : Refines frame s server) (hargs : ∀ id ∈ c.argv, id ∈ frame)
    (hc : c.Faithful s.heap) (hargc : c.rc.argc ≠ 0) :
    Run.Related (After frame s c) (pingCommand L s c) (LatteRedis.pingCommand L server c.rc) := by
  unfold pingCommand LatteRedis.pingCommand
  split
  · exact replyWrongArity_refines h
  · split
    · exact .ok ⟨h, .refl _, rfl⟩
    · rw [← bind_assoc]
      refine (object_argv h hargs hc hargc 1).bind fun htext ↦ ?_
      rw [addReplyBulk_text htext]
      exact .ok ⟨h, .refl _, rfl⟩

theorem expireCommand_refines (h : Refines frame s server) (hargs : ∀ id ∈ c.argv, id ∈ frame)
    (hc : c.Faithful s.heap) (hargc : c.rc.argc ≠ 0) :
    Run.Related (After frame s c) (expireCommand L s c) (LatteRedis.expireCommand L server c.rc) := by
  unfold expireCommand LatteRedis.expireCommand
  split
  · exact replyWrongArity_refines h
  · dsimp only
    rw [← bind_assoc]
    refine (object_argv h hargs hc hargc 2).bind fun htext ↦ ?_
    rw [LatteObject.ptr_eq htext]
    refine .bind_same _ ?_
    intro seconds
    cases L.string2ll seconds with
    | none => exact .ok ⟨h, .refl _, rfl⟩
    | some n =>
        dsimp only
        split
        · exact .ok ⟨h, .refl _, rfl⟩
        · rw [← bind_assoc]
          refine (object_argv h hargs hc hargc 1).bind fun htext ↦ ?_
          rw [LatteObject.ptr_eq htext]
          refine .bind_same _ fun key ↦ (h.dbAt c.rc.dbid).bind ?_
          rintro db plain ⟨ha, -, rest, hrest, hafter⟩
          have hnone : db.keys.find key = none ↔ plain.keys.find key = none := by
            have hrel := ha.keys key
            generalize db.keys.find key = x at hrel ⊢
            generalize plain.keys.find key = y at hrel ⊢
            cases hrel <;> simp
          simp only [hnone]
          split
          · exact .ok ⟨h, .refl _, rfl⟩
          · rw [h.clock]
            refine (dbSetExpire_refines (h.balanced_db hrest) ha key _).bind ?_
            rintro ⟨set, db'⟩ ⟨set', plain'⟩ ⟨rfl, hdb⟩
            dsimp only
            split <;> exact .ok ⟨hafter hdb, .refl _, rfl⟩

/-! ## `SET` and `GET` -/

/-- An entry of the database of `c`, on both sides. -/
structure SameEntry (s : Server) (dbid : Nat) (e : Bytes × ObjId) (e' : Bytes × LatteObject) :
    Prop where
  key : e.1 = e'.1
  stands : StandsFor s.heap e.2 e'.2
  mem : e.2 ∈ s.held
  entry : ∃ db, s.dbAt dbid = .ok db ∧ db.keys.find e.1 = some e.2

theorem dbAt_setDb {dbid : Nat} (h : s.dbAt dbid = .ok db) (heap : Heap LatteObject) (db' : Db) :
    (s.setDb dbid heap db').dbAt dbid = .ok db' := by
  have hlt : dbid < s.dbs.length := (List.getElem?_eq_some_iff.mp (deref_eq_ok.mp h)).1
  rw [Server.dbAt, deref_eq_ok]
  exact List.getElem?_set_self hlt

/-- What a database holds, the server holds. -/
theorem mem_held {dbid : Nat} (h : s.dbAt dbid = .ok db) {key : Bytes} {id : ObjId}
    (hfind : db.keys.find key = some id) : id ∈ s.held := by
  obtain ⟨rest, hsum, -⟩ :=
    sum_map_split (f := fun db : Db ↦ db.keys.values) (deref_eq_ok.mp h)
  rw [Server.held, hsum]
  exact Multiset.mem_add.mpr (.inr (KvStore.mem_values.mpr ⟨key, hfind⟩))

theorem lookupKey_refines (h : Refines frame s server) {key : ObjId} {k : LatteObject}
    (hkey : key ∈ frame) (hk : StandsFor s.heap key k) :
    Run.Related (fun r p ↦ Refines frame r.1 p.1 ∧ KeepsText s.heap r.1.heap ∧
      Option.Rel (SameEntry r.1 c.rc.dbid) r.2 p.2) (lookupKey s c key)
      (LatteRedis.lookupKey server c.rc k) := by
  obtain ⟨keyObj, hobj, htext⟩ :=
    object_of_held h.balanced (Multiset.mem_add.mpr (.inl hkey)) hk
  unfold lookupKey LatteRedis.lookupKey
  rw [hobj, Run.ok_bind, LatteObject.type_eq htext, LatteObject.ptr_eq htext]
  split
  · exact .ok ⟨h, .refl _, .none⟩
  · refine .bind_same _ fun keySds ↦ (h.dbAt c.rc.dbid).bind ?_
    rintro db plain ⟨ha, hdb, rest, hrest, hafter⟩
    refine (expireIfNeeded_refines h.clock (h.balanced_db hrest) ha keySds).bind ?_
    rintro ⟨expired, heap', db'⟩ ⟨expired', plain'⟩ ⟨rfl, hr⟩
    dsimp only
    split
    · exact .ok ⟨hafter hr, hr.keeps, .none⟩
    · refine .ok ⟨hafter hr, hr.keeps, ?_⟩
      have hdb' := dbAt_setDb hdb heap' db'
      have hrel := hr.agrees.keys keySds
      dsimp only at hrel ⊢
      cases hfind : db'.keys.find keySds with
      | none =>
          rw [hfind] at hrel
          rw [rel_none hrel]
          exact .none
      | some id =>
          rw [hfind] at hrel
          obtain ⟨v, hv, hstands⟩ := rel_some hrel
          rw [hv]
          exact .some ⟨rfl, hstands, mem_held hdb' hfind, db', hdb', hfind⟩

/-- Taking a reference to an object that is held elsewhere. -/
theorem moduleObjectIncrCount_refines (h : Refines frame s server) {o : ObjId} (ho : o ∈ frame) :
    ∃ s', moduleObjectIncrCount s o = .ok s' ∧ Refines (o ::ₘ frame) s' server ∧
      KeepsText s.heap s'.heap ∧ s'.dbs = s.dbs := by
  obtain ⟨heap', hincr, hb⟩ := h.balanced.incr (Multiset.mem_add.mpr (.inl ho))
  have hkeeps : KeepsText s.heap heap' := Heap.keeps_incr hincr
  refine ⟨{ s with heap := heap' }, ?_, ⟨h.settings, ?_, ?_⟩, hkeeps, rfl⟩
  · rw [moduleObjectIncrCount, latteObjectIncrRefCount, deref_eq_ok.mpr hincr]
    rfl
  · rw [Multiset.cons_add]
    exact hb
  · exact h.dbs.imp fun _ _ ha ↦ ha.mono hkeeps

theorem moduleDbAdd_refines {key val : ObjId} {k v : LatteObject}
    (h : Refines (val ::ₘ frame) s server) (hkey : key ∈ frame) (hk : StandsFor s.heap key k)
    (hv : StandsFor s.heap val v) :
    Run.Related (fun s' server' ↦ Refines frame s' server' ∧ KeepsText s.heap s'.heap)
      (moduleDbAdd s c key val) (LatteRedis.moduleDbAdd server c.rc k v) := by
  unfold moduleDbAdd LatteRedis.moduleDbAdd
  refine (h.dbAt c.rc.dbid).bind ?_
  rintro db plain ⟨ha, -, rest, hrest, hafter⟩
  have hb : s.heap.Balanced (val ::ₘ ((frame + rest) + db.keys.values)) := by
    rw [← Multiset.cons_add, ← Multiset.cons_add]
    exact h.balanced_db hrest
  refine (dbAddKeyValue_refines h.settings hb ha (Multiset.mem_add.mpr (.inl hkey)) hk hv).bind ?_
  intro r plain' hr
  exact .ok ⟨hafter hr, hr.keeps⟩

/-- The old value gives up the reference of the entry, and the new one gets it. -/
theorem moduleDbEntrySetValue_refines {entry : Bytes} {old val : ObjId} {v : LatteObject}
    (h : Refines (val ::ₘ frame) s server) (hdb : s.dbAt c.rc.dbid = .ok db)
    (hfind : db.keys.find entry = some old) (hv : StandsFor s.heap val v) :
    Run.Related (fun s' server' ↦ Refines frame s' server' ∧ KeepsText s.heap s'.heap)
      (moduleDbEntrySetValue s c entry val)
      (LatteRedis.moduleDbEntrySetValue server c.rc entry v) := by
  unfold moduleDbEntrySetValue LatteRedis.moduleDbEntrySetValue
  refine (h.dbAt c.rc.dbid).bind ?_
  rintro db₁ plain ⟨ha, hdb₁, rest, hrest, hafter⟩
  rw [hdb] at hdb₁
  cases hdb₁
  have hset := (db.keys.dictSetVal_find (by rw [hfind]; rfl) val).1
  have hrel := ha.keys entry
  rw [hfind] at hrel
  obtain ⟨o, ho, -⟩ := rel_some hrel
  have hset' := (plain.keys.dictSetVal_find (by rw [ho]; rfl) v).1
  have hvalues := KvStore.values_update hset
  rw [hfind] at hvalues
  -- one reference more than there are holders, and it is that of the old value
  have hheld : (val ::ₘ frame + rest) + db.keys.values =
      old ::ₘ ((frame + rest) + (db.keys.dictSetVal 0 entry val).values) := by
    rw [Multiset.cons_add, Multiset.cons_add, ← Multiset.add_cons, ← Multiset.add_cons]
    exact congrArg ((frame + rest) + ·) (by simpa using hvalues.symm)
  have hb := h.balanced_db hrest
  rw [hheld] at hb
  obtain ⟨heap', hdecr, hb'⟩ := hb.decr
  have hkeeps : KeepsText s.heap heap' := Heap.keeps_decr hdecr
  simp only [hfind, latteObjectDecrRefCount, hdecr, deref, Run.ok_bind]
  have hr : DbAfter s.heap (frame + rest)
      (heap', { db with keys := db.keys.dictSetVal (getKvStoreIndexForKey entry) entry val })
      { plain with keys := plain.keys.dictSetVal (getKvStoreIndexForKey entry) entry v } := by
    refine ⟨hb', hkeeps, ha.expires, ?_⟩
    intro k
    show Option.Rel _ ((db.keys.dictSetVal 0 entry val).find k)
      ((plain.keys.dictSetVal 0 entry v).find k)
    rw [hset, hset']
    exact rel_update (fun key ↦ rel_mono (ha.keys key) hkeeps) entry (.some (hv.mono hkeeps)) k
  exact .ok ⟨hafter hr, hkeeps⟩

theorem setCommand_refines (h : Refines frame s server) (hargs : ∀ id ∈ c.argv, id ∈ frame)
    (hc : c.Faithful s.heap) (hargc : c.rc.argc ≠ 0) :
    Run.Related (After frame s c) (setCommand L s c) (LatteRedis.setCommand L server c.rc) := by
  unfold setCommand LatteRedis.setCommand
  split
  · exact .ok ⟨h, .refl _, rfl⟩
  · refine (hc.argvAt hargc 1).bind ?_
    rintro key k ⟨hkey, hk⟩
    refine (lookupKey_refines h (hargs key hkey) hk).bind ?_
    rintro ⟨s₁, o⟩ ⟨server₁, o'⟩ ⟨h₁, hkeeps₁, hentry⟩
    dsimp only at h₁ hkeeps₁ hentry ⊢
    cases hentry with
    | none =>
        refine ((hc.mono hkeeps₁).argvAt hargc 2).bind ?_
        rintro value v ⟨hvalue, hv⟩
        obtain ⟨s₂, hincr, h₂, hkeeps₂, -⟩ := moduleObjectIncrCount_refines h₁ (hargs value hvalue)
        rw [hincr, Run.ok_bind]
        refine (moduleDbAdd_refines h₂ (hargs key hkey) ((hk.mono hkeeps₁).mono hkeeps₂)
          (hv.mono hkeeps₂)).bind ?_
        rintro s₃ server₃ ⟨h₃, hkeeps₃⟩
        exact .ok ⟨h₃, hkeeps₁.trans (hkeeps₂.trans hkeeps₃), rfl⟩
    | @some e e' hsame =>
        obtain ⟨hkey', hstands, hmem, db, hdb, hfind⟩ := hsame
        obtain ⟨oldObj, hobj, htext⟩ :=
          object_of_held h₁.balanced (Multiset.mem_add.mpr (.inr hmem)) hstands
        dsimp only
        rw [hobj, Run.ok_bind, LatteObject.type_eq htext, ← hkey']
        split
        · refine ((hc.mono hkeeps₁).argvAt hargc 2).bind ?_
          rintro value v ⟨hvalue, hv⟩
          obtain ⟨s₂, hincr, h₂, hkeeps₂, hdbs⟩ :=
            moduleObjectIncrCount_refines h₁ (hargs value hvalue)
          rw [hincr, Run.ok_bind]
          have hdb₂ : s₂.dbAt c.rc.dbid = .ok db := by
            rw [Server.dbAt, hdbs]
            exact hdb
          refine (moduleDbEntrySetValue_refines h₂ hdb₂ hfind (hv.mono hkeeps₂)).bind ?_
          rintro s₃ server₃ ⟨h₃, hkeeps₃⟩
          exact .ok ⟨h₃, hkeeps₁.trans (hkeeps₂.trans hkeeps₃), rfl⟩
        · exact .ok ⟨h₁, hkeeps₁, rfl⟩

theorem getCommand_refines (h : Refines frame s server) (hargs : ∀ id ∈ c.argv, id ∈ frame)
    (hc : c.Faithful s.heap) (hargc : c.rc.argc ≠ 0) :
    Run.Related (After frame s c) (getCommand L s c) (LatteRedis.getCommand L server c.rc) := by
  unfold getCommand LatteRedis.getCommand
  split
  · exact .ok ⟨h, .refl _, rfl⟩
  · refine (hc.argvAt hargc 1).bind ?_
    rintro key k ⟨hkey, hk⟩
    refine (lookupKey_refines h (hargs key hkey) hk).bind ?_
    rintro ⟨s₁, o⟩ ⟨server₁, o'⟩ ⟨h₁, hkeeps₁, hentry⟩
    dsimp only at h₁ hkeeps₁ hentry ⊢
    cases hentry with
    | none => exact .ok ⟨h₁, hkeeps₁, rfl⟩
    | @some e e' hsame =>
        obtain ⟨o, hobj, htext⟩ :=
          object_of_held h₁.balanced (Multiset.mem_add.mpr (.inr hsame.mem)) hsame.stands
        dsimp only
        rw [hobj, Run.ok_bind, LatteObject.type_eq htext, addReplyBulk_text htext]
        split <;> exact .ok ⟨h₁, hkeeps₁, rfl⟩

/-- **Handlers refine handlers.**  Every handler with reference counts does what its
namesake does. -/
theorem proc?_refines {E : Extension} {proc : CommandProc}
    {f : Server → Client → Except Fault (Server × Client)} (hproc : proc? L proc = some f)
    (h : Refines frame s server) (hargs : ∀ id ∈ c.argv, id ∈ frame) (hc : c.Faithful s.heap)
    (hargc : c.rc.argc ≠ 0) :
    Run.Related (After frame s c) (f s c) (proc.run L E server c.rc) := by
  cases proc with
  | quit =>
      cases hproc
      exact .ok ⟨h, .refl _, rfl⟩
  | module => cases hproc
  | ping =>
      cases hproc
      exact pingCommand_refines h hargs hc hargc
  | info =>
      cases hproc
      exact .ok ⟨h, .refl _, rfl⟩
  | expire =>
      cases hproc
      exact expireCommand_refines h hargs hc hargc
  | dispatcher func =>
      cases func with
      | set =>
          cases hproc
          exact setCommand_refines h hargs hc hargc
      | get =>
          cases hproc
          exact getCommand_refines h hargs hc hargc
      | other n => cases hproc

end Counted

end LatteRedis
