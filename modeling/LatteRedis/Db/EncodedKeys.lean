import LatteRedis.Command.Counted

/-!
# Objects as keys (`dict_encode_object_hash`, `dict_encode_object_key_compare` of `db.c`)

Two dictionaries of a database have string objects as keys.  A string may be kept as bytes
or as a number, so both functions go over to the bytes: the hash prints a number, the
comparison decodes both objects, which takes a reference, and gives the references back.
An object with the static reference count must not be counted, and is left alone.

Whether an object is static is asked twice, before the reference is taken and again before
it is given back.  In between the count has gone up.  If that makes it the static count,
the reference stays: `comparesRight_iff` says that this is the one thing that goes wrong.

`get_decode_object`, `ll2string`, `dict_sds_key_compare` and the hash function belong to
`latte_c`, so they are parameters.
-/

namespace LatteRedis.Counted

open ByteString RefCount

/-- What the two functions use of the library. -/
structure ObjectLib where
  /-- `OBJ_STATIC_REFCOUNT`. -/
  objStaticRefcount : Nat
  getDecodeObject : Heap LatteObject → ObjId → Except Fault (Heap LatteObject × ObjId)
  ll2string : Int → Bytes
  dictSdsKeyCompare : Bytes → Bytes → Int
  dictGenHashFunction : Bytes → UInt64

/-- What is relied on. -/
structure ObjectLib.Lawful (D : ObjectLib) : Prop where
  /-- Decoding bytes takes one more reference to the object. -/
  decode_raw {heap : Heap LatteObject} {o : ObjId} {c : Cell LatteObject} {s : Bytes} :
    heap.live? o = some c → c.val.encoding = .raw s →
      D.getDecodeObject heap o = .ok (heap.set o { c with refcount := c.refcount + 1 }, o)
  /-- Decoding a number makes a new object with one reference. -/
  decode_int {heap : Heap LatteObject} {o : ObjId} {c : Cell LatteObject} {n : Int} :
    heap.live? o = some c → c.val.encoding = .int n →
      ∃ obj : LatteObject, obj.encoding = .raw (decimal n) ∧
        D.getDecodeObject heap o = .ok (heap.new obj)
  ll2string_eq (n : Int) : D.ll2string n = decimal n
  compare_ne_zero (a b : Bytes) : D.dictSdsKeyCompare a b ≠ 0 ↔ a = b

variable (L : LatteC) (D : ObjectLib)

/-! ## The functions -/

/-- The `sds_len(ptr)` bytes at `o->ptr`, which is no pointer if the object is a number. -/
def ptrSds (o : LatteObject) : Except Fault Bytes :=
  match o.encoding with
  | .raw s => .ok s
  | .embstr s => .ok (L.embstrSds s)
  | .int _ => .error .badPointer

/-- There is no other encoding, so the panic at the end is not reached. -/
def dictEncodeObjectHash (heap : Heap LatteObject) (key : ObjId) : Except Fault UInt64 := do
  let o ← object heap key
  match o.encoding with
  | .raw s => return D.dictGenHashFunction s
  | .embstr s => return D.dictGenHashFunction (L.embstrSds s)
  | .int n => return D.dictGenHashFunction (D.ll2string n)

/-- `o->refcount`. -/
def refcount (heap : Heap LatteObject) (o : ObjId) : Except Fault Nat := do
  let c ← deref (heap.live? o)
  return c.refcount

/-- `if (o->refcount != OBJ_STATIC_REFCOUNT) o = get_decode_object(o);` -/
def decodeUnlessStatic (heap : Heap LatteObject) (o : ObjId) :
    Except Fault (Heap LatteObject × ObjId) := do
  if (← refcount heap o) ≠ D.objStaticRefcount then D.getDecodeObject heap o else return (heap, o)

/-- `if (o->refcount != OBJ_STATIC_REFCOUNT) latte_object_decr_ref_count(o);` -/
def decrUnlessStatic (heap : Heap LatteObject) (o : ObjId) : Except Fault (Heap LatteObject) := do
  if (← refcount heap o) ≠ D.objStaticRefcount then latteObjectDecrRefCount heap o else return heap

/-- The part of the comparison behind the shortcut for two numbers. -/
def compareDecoded (heap : Heap LatteObject) (key1 key2 : ObjId) :
    Except Fault (Int × Heap LatteObject) := do
  let (heap, o1) ← decodeUnlessStatic D heap key1
  let (heap, o2) ← decodeUnlessStatic D heap key2
  let s1 ← ptrSds L (← object heap o1)
  let s2 ← ptrSds L (← object heap o2)
  let cmp := D.dictSdsKeyCompare s1 s2
  let heap ← decrUnlessStatic D heap o1
  let heap ← decrUnlessStatic D heap o2
  return (cmp, heap)

def dictEncodeObjectKeyCompare (heap : Heap LatteObject) (key1 key2 : ObjId) :
    Except Fault (Int × Heap LatteObject) := do
  let o1 ← object heap key1
  let o2 ← object heap key2
  match o1.encoding, o2.encoding with
  | .int n, .int m => return (if n = m then 1 else 0, heap)
  | _, _ => compareDecoded L D heap key1 key2

/-! ## Keys -/

/-- The object `key` is a string that is kept as bytes or as a number, as bytes if its
reference count is the static one. -/
structure IsKey (heap : Heap LatteObject) (key : ObjId) (c : Cell LatteObject) : Prop where
  live : heap.live? key = some c
  string : c.val.type = .string
  encoded : (∃ s, c.val.encoding = .raw s) ∨
    (∃ n, c.val.encoding = .int n) ∧ c.refcount ≠ D.objStaticRefcount

/-- The comparison returns and says whether the contents are the same; if they are, so are
the hashes; and no reference count has changed. -/
def ComparesRight (heap : Heap LatteObject) (key1 key2 : ObjId) : Prop :=
  ∃ o1 o2 cmp heap', object heap key1 = .ok o1 ∧ object heap key2 = .ok o2 ∧
    dictEncodeObjectKeyCompare L D heap key1 key2 = .ok (cmp, heap') ∧
    (cmp ≠ 0 ↔ o1.content = o2.content) ∧
    (o1.content = o2.content → ∃ hash, dictEncodeObjectHash L D heap key1 = .ok hash ∧
      dictEncodeObjectHash L D heap key2 = .ok hash) ∧
    heap'.count key1 = heap.count key1 ∧ heap'.count key2 = heap.count key2

variable {L D} {heap heap' : Heap LatteObject} {o : ObjId} {c c' : Cell LatteObject}

/-! ## Single accesses -/

theorem deref_some {α : Type} {x : Option α} {a : α} (h : x = some a) : deref x = .ok a := by
  rw [h]
  rfl

theorem object_of_live? (h : heap.live? o = some c) : object heap o = .ok c.val :=
  deref_some (by rw [Heap.read, h]; rfl)

theorem refcount_of_live? (h : heap.live? o = some c) : refcount heap o = .ok c.refcount := by
  rw [refcount, deref_some h]
  rfl

/-- `heap'` is `heap` with the cell `c` at `o`. -/
structure Updated (heap heap' : Heap LatteObject) (o : ObjId) (c : Cell LatteObject) : Prop where
  here : heap'.live? o = some c
  others : ∀ j, j ≠ o → heap'.live? j = heap.live? j

theorem Updated.count_others (h : Updated heap heap' o c) {j : ObjId} (hj : j ≠ o) :
    heap'.count j = heap.count j := by
  have hlive := h.others j hj
  cases hc : heap.live? j with
  | some c' => rw [Heap.count_of_live? hc, Heap.count_of_live? (hlive.trans hc)]
  | none =>
      -- a cell that is not there is counted zero
      have hnone : ∀ {h : Heap LatteObject}, h.live? j = none → h.count j = 0 := by
        intro h hn
        by_contra hne
        obtain ⟨c', hc'⟩ := Heap.exists_live?_iff.mpr hne
        rw [hn] at hc'
        cases hc'
      rw [hnone hc, hnone (hlive.trans hc)]

/-- A count after a reference was taken, unless it is the static one. -/
def taken (S r : Nat) : Nat := if r ≠ S then r + 1 else r

/-- A count after a reference was given back, unless it is the static one. -/
def givenBack (S r : Nat) : Nat := if r ≠ S then r - 1 else r

section Counts

variable {S r : Nat}

@[simp] theorem taken_static (S : Nat) : taken S S = S := if_neg (not_not.mpr rfl)

@[simp] theorem givenBack_static (S : Nat) : givenBack S S = S := if_neg (not_not.mpr rfl)

theorem taken_of_ne (h : r ≠ S) : taken S r = r + 1 := if_pos h

theorem givenBack_succ_of_ne (h : r + 1 ≠ S) : givenBack S (r + 1) = r := if_pos h

/-- A reference that is taken and given back is gone, unless it made the count static. -/
theorem givenBack_taken (S r : Nat) : givenBack S (taken S r) = if r + 1 = S then S else r := by
  by_cases hstatic : r = S
  · subst hstatic
    rw [taken_static, givenBack_static, if_neg (Nat.succ_ne_self r)]
  · rw [taken_of_ne hstatic]
    split
    · next hnext => rw [hnext, givenBack_static]
    · next hnext => exact givenBack_succ_of_ne hnext

/-- The same for two references to one object. -/
theorem givenBack_taken_twice (S r : Nat) : givenBack S (givenBack S (taken S (taken S r))) =
    if r + 1 = S ∨ r + 2 = S then S else r := by
  rw [givenBack_taken]
  by_cases hstatic : r = S
  · subst hstatic
    rw [taken_static, if_neg (Nat.succ_ne_self r), givenBack_static, if_neg (by omega)]
  · rw [taken_of_ne hstatic]
    by_cases hsecond : r + 1 + 1 = S
    · rw [if_pos hsecond, givenBack_static, if_pos (.inr hsecond)]
    · rw [if_neg hsecond]
      by_cases hfirst : r + 1 = S
      · rw [if_pos (.inl hfirst), hfirst, givenBack_static]
      · rw [if_neg (by omega), givenBack_succ_of_ne hfirst]

theorem givenBack_taken_ne_zero (h : r ≠ 0) : givenBack S (taken S r) ≠ 0 := by
  rw [givenBack_taken]
  split
  · omega
  · exact h

end Counts

/-! ## Taking a reference and giving it back -/

theorem decodeUnlessStatic_raw (hD : D.Lawful) (hc : heap.live? o = some c) {s : Bytes}
    (hs : c.val.encoding = .raw s) :
    ∃ heap', decodeUnlessStatic D heap o = .ok (heap', o) ∧
      Updated heap heap' o { c with refcount := taken D.objStaticRefcount c.refcount } := by
  unfold decodeUnlessStatic
  rw [refcount_of_live? hc, Run.ok_bind]
  by_cases hstatic : c.refcount = D.objStaticRefcount
  · rw [if_neg (not_not.mpr hstatic)]
    refine ⟨heap, rfl, ?_, fun j _ ↦ rfl⟩
    rw [hc, hstatic, taken_static, ← hstatic]
  · rw [if_pos hstatic, hD.decode_raw hc hs, taken_of_ne hstatic]
    refine ⟨_, rfl, ?_, fun j hj ↦ ?_⟩
    · exact Heap.live?_set_self hc (Nat.succ_ne_zero _)
    · exact Heap.live?_set_of_ne heap hj _

theorem decodeUnlessStatic_int (hD : D.Lawful) (hc : heap.live? o = some c) {n : Int}
    (hn : c.val.encoding = .int n) (hstatic : c.refcount ≠ D.objStaticRefcount) :
    ∃ heap' o' obj, decodeUnlessStatic D heap o = .ok (heap', o') ∧ heap.live? o' = none ∧
      Updated heap heap' o' ⟨obj, 1⟩ ∧ obj.encoding = .raw (decimal n) := by
  obtain ⟨obj, hobj, hdecode⟩ := hD.decode_int hc hn
  refine ⟨(heap.new obj).1, (heap.new obj).2, obj, ?_, Heap.live?_fresh heap obj,
    ⟨?_, fun j hj ↦ ?_⟩, hobj⟩
  · unfold decodeUnlessStatic
    rw [refcount_of_live? hc, Run.ok_bind, if_pos hstatic, hdecode]
  · rw [Heap.live?_new, if_pos rfl]
  · rw [Heap.live?_new, if_neg hj]

/-- Giving back a reference changes one count. -/
theorem decrUnlessStatic_eq (hc : heap.live? o = some c) :
    ∃ heap', decrUnlessStatic D heap o = .ok heap' ∧
      (∀ j, heap'.count j =
        if j = o then givenBack D.objStaticRefcount c.refcount else heap.count j) ∧
      (∀ j, j ≠ o → heap'.live? j = heap.live? j) ∧
      (givenBack D.objStaticRefcount c.refcount ≠ 0 →
        heap'.live? o = some { c with refcount := givenBack D.objStaticRefcount c.refcount }) := by
  unfold decrUnlessStatic
  rw [refcount_of_live? hc, Run.ok_bind]
  by_cases hstatic : c.refcount = D.objStaticRefcount
  · rw [if_neg (not_not.mpr hstatic), hstatic, givenBack_static]
    refine ⟨heap, rfl, fun j ↦ ?_, fun j _ ↦ rfl, fun _ ↦ by rw [hc, ← hstatic]⟩
    split
    · next hj => rw [hj, Heap.count_of_live? hc, hstatic]
    · rfl
  · rw [if_pos hstatic]
    have hgiven : givenBack D.objStaticRefcount c.refcount = c.refcount - 1 := if_pos hstatic
    rw [hgiven]
    refine ⟨heap.set o { c with refcount := c.refcount - 1 }, ?_, Heap.count_set hc,
      fun j hj ↦ Heap.live?_set_of_ne heap hj _, fun hpos ↦ Heap.live?_set_self hc hpos⟩
    exact deref_some (by rw [Heap.decr, hc]; rfl)

/-! ## The comparison -/

/-- Two objects are decoded at different addresses: their bytes are compared, and each of
the two counts goes up and down once. -/
theorem compareDecoded_of_ne {key1 key2 o1 o2 : ObjId} {heap₁ heap₂ : Heap LatteObject}
    {c1 c2 : Cell LatteObject} {s1 s2 : Bytes} (hne : o1 ≠ o2)
    (hd1 : decodeUnlessStatic D heap key1 = .ok (heap₁, o1)) (hu1 : Updated heap heap₁ o1 c1)
    (hd2 : decodeUnlessStatic D heap₁ key2 = .ok (heap₂, o2)) (hu2 : Updated heap₁ heap₂ o2 c2)
    (hs1 : c1.val.encoding = .raw s1) (hs2 : c2.val.encoding = .raw s2) :
    ∃ heap', compareDecoded L D heap key1 key2 = .ok (D.dictSdsKeyCompare s1 s2, heap') ∧
      heap'.count o1 = givenBack D.objStaticRefcount c1.refcount ∧
      heap'.count o2 = givenBack D.objStaticRefcount c2.refcount ∧
      ∀ j, j ≠ o1 → j ≠ o2 → heap'.count j = heap.count j := by
  have hlive1 : heap₂.live? o1 = some c1 := (hu2.others o1 hne).trans hu1.here
  obtain ⟨heap₃, hr1, hcount3, hothers3, -⟩ := decrUnlessStatic_eq (D := D) hlive1
  have hlive2 : heap₃.live? o2 = some c2 := (hothers3 o2 hne.symm).trans hu2.here
  obtain ⟨heap₄, hr2, hcount4, -, -⟩ := decrUnlessStatic_eq (D := D) hlive2
  refine ⟨heap₄, ?_, ?_, ?_, ?_⟩
  · unfold compareDecoded
    rw [hd1, Run.ok_bind]
    dsimp only
    rw [hd2, Run.ok_bind]
    dsimp only
    rw [object_of_live? hlive1, object_of_live? hu2.here]
    simp only [Run.ok_bind, ptrSds, hs1, hs2, hr1, hr2]
    rfl
  · rw [hcount4, if_neg hne, hcount3, if_pos rfl]
  · rw [hcount4, if_pos rfl]
  · intro j hj1 hj2
    rw [hcount4, if_neg hj2, hcount3, if_neg hj1, hu2.count_others hj2, hu1.count_others hj1]

/-- One object is decoded twice, and its count goes up and down twice. -/
theorem compareDecoded_self (hD : D.Lawful) (hc : heap.live? o = some c) {s : Bytes}
    (hs : c.val.encoding = .raw s) :
    ∃ heap', compareDecoded L D heap o o = .ok (D.dictSdsKeyCompare s s, heap') ∧
      heap'.count o = givenBack D.objStaticRefcount (givenBack D.objStaticRefcount
        (taken D.objStaticRefcount (taken D.objStaticRefcount c.refcount))) := by
  have hpos : c.refcount ≠ 0 := (Heap.live?_eq_some.mp hc).2
  obtain ⟨heap₁, hd1, hu1⟩ := decodeUnlessStatic_raw hD hc hs
  obtain ⟨heap₂, hd2, hu2⟩ := decodeUnlessStatic_raw hD hu1.here hs
  obtain ⟨heap₃, hr1, -, -, hhere3⟩ := decrUnlessStatic_eq (D := D) hu2.here
  have hpos₁ : taken D.objStaticRefcount c.refcount ≠ 0 := by
    unfold taken
    split <;> omega
  have hlive3 := hhere3 (givenBack_taken_ne_zero hpos₁)
  obtain ⟨heap₄, hr2, hcount4, -, -⟩ := decrUnlessStatic_eq (D := D) hlive3
  refine ⟨heap₄, ?_, by rw [hcount4, if_pos rfl]⟩
  unfold compareDecoded
  rw [hd1, Run.ok_bind]
  dsimp only
  rw [hd2, Run.ok_bind]
  dsimp only
  rw [object_of_live? hu2.here]
  simp only [Run.ok_bind, ptrSds, hs, hr1, hr2]
  rfl

/-- The references the comparison takes do not make a count static: of no object that is
kept as bytes is it one short of that, and not two short if it is compared with itself. -/
def StaysOffStatic (S : Nat) (key1 key2 : ObjId) (c1 c2 : Cell LatteObject) : Prop :=
  (∀ s, c1.val.encoding = .raw s → c1.refcount + 1 ≠ S) ∧
    (∀ s, c2.val.encoding = .raw s → c2.refcount + 1 ≠ S) ∧
    (key1 = key2 → ∀ s, c1.val.encoding = .raw s → c1.refcount + 2 ≠ S)

section Keys

variable {key key1 key2 : ObjId} {c1 c2 : Cell LatteObject}

theorem IsKey.hash (hD : D.Lawful) (h : IsKey D heap key c) :
    dictEncodeObjectHash L D heap key = .ok (D.dictGenHashFunction c.val.content) := by
  unfold dictEncodeObjectHash
  rw [object_of_live? h.live, Run.ok_bind]
  unfold LatteObject.content
  obtain ⟨s, hs⟩ | ⟨⟨n, hn⟩, -⟩ := h.encoded
  · rw [hs]
    rfl
  · rw [hn]
    dsimp only
    rw [hD.ll2string_eq]
    rfl

/-- Two objects that are not both numbers are compared as bytes. -/
theorem dictEncodeObjectKeyCompare_of_raw (h1 : IsKey D heap key1 c1) (h2 : IsKey D heap key2 c2)
    (hraw : (∃ s, c1.val.encoding = .raw s) ∨ ∃ s, c2.val.encoding = .raw s) :
    dictEncodeObjectKeyCompare L D heap key1 key2 = compareDecoded L D heap key1 key2 := by
  unfold dictEncodeObjectKeyCompare
  rw [object_of_live? h1.live, object_of_live? h2.live, Run.ok_bind, Run.ok_bind]
  split
  · next n m hn hm =>
      obtain ⟨s, hs⟩ | ⟨s, hs⟩ := hraw
      · cases hn.symm.trans hs
      · cases hm.symm.trans hs
  · rfl

/-- How a key is decoded: where it is, with one more reference, or at a new address. -/
theorem IsKey.decode (hD : D.Lawful) (h : IsKey D heap key c) :
    ∃ heap' o c', decodeUnlessStatic D heap key = .ok (heap', o) ∧ Updated heap heap' o c' ∧
      c'.val.encoding = .raw c.val.content ∧
      ((∃ s, c.val.encoding = .raw s) ∧ o = key ∧
          c'.refcount = taken D.objStaticRefcount c.refcount ∨
        (∃ n, c.val.encoding = .int n) ∧ heap.live? o = none) := by
  unfold LatteObject.content
  obtain ⟨s, hs⟩ | ⟨⟨n, hn⟩, hstatic⟩ := h.encoded
  · obtain ⟨heap', hd, hu⟩ := decodeUnlessStatic_raw hD h.live hs
    exact ⟨heap', key, _, hd, hu, by rw [hs]; rfl, .inl ⟨⟨s, hs⟩, rfl, rfl⟩⟩
  · obtain ⟨heap', o, obj, hd, hfresh, hu, hobj⟩ := decodeUnlessStatic_int hD h.live hn hstatic
    exact ⟨heap', o, _, hd, hu, by rw [hn]; exact hobj, .inr ⟨⟨n, hn⟩, hfresh⟩⟩

/-- A cell of another object is not touched by decoding. -/
theorem IsKey.updated (h : IsKey D heap key c) (hu : Updated heap heap' o c') (hne : key ≠ o) :
    IsKey D heap' key c := ⟨(hu.others key hne).trans h.live, h.string, h.encoded⟩

theorem IsKey.ne_of_fresh (h : IsKey D heap key c) (hfresh : heap.live? o = none) : key ≠ o := by
  rintro rfl
  cases h.live.symm.trans hfresh

/-- What a comparison with another object makes of a reference count. -/
def settled (S : Nat) (c : Cell LatteObject) : Nat :=
  match c.val.encoding with
  | .raw _ => givenBack S (taken S c.refcount)
  | _ => c.refcount

theorem settled_eq_iff {S : Nat} (h : (∃ s, c.val.encoding = .raw s) ∨ ∃ n, c.val.encoding = .int n) :
    settled S c = c.refcount ↔ ∀ s, c.val.encoding = .raw s → c.refcount + 1 ≠ S := by
  unfold settled
  obtain ⟨s, hs⟩ | ⟨n, hn⟩ := h
  · rw [hs]
    dsimp only
    rw [givenBack_taken]
    constructor
    · intro hcount s' _ hstatic
      rw [if_pos hstatic] at hcount
      omega
    · intro hoff
      rw [if_neg (hoff s rfl)]
  · rw [hn]
    exact ⟨fun _ s hs ↦ (by cases hs), fun _ ↦ rfl⟩

/-- Different objects: the bytes are compared, and each count is settled for itself. -/
theorem compareDecoded_keys (hD : D.Lawful) (h1 : IsKey D heap key1 c1) (h2 : IsKey D heap key2 c2)
    (hne : key1 ≠ key2) :
    ∃ cmp heap', compareDecoded L D heap key1 key2 = .ok (cmp, heap') ∧
      (cmp ≠ 0 ↔ c1.val.content = c2.val.content) ∧
      heap'.count key1 = settled D.objStaticRefcount c1 ∧
      heap'.count key2 = settled D.objStaticRefcount c2 := by
  obtain ⟨heap₁, o1, c1', hd1, hu1, hs1, hkind1⟩ := h1.decode hD
  -- the second key is not where the first one was decoded, and is still there
  have hkey2 : key2 ≠ o1 := by
    obtain ⟨-, rfl, -⟩ | ⟨-, hfresh⟩ := hkind1
    · exact hne.symm
    · exact h2.ne_of_fresh hfresh
  have h2' := h2.updated hu1 hkey2
  obtain ⟨heap₂, o2, c2', hd2, hu2, hs2, hkind2⟩ := h2'.decode hD
  have ho : o1 ≠ o2 := by
    obtain ⟨-, rfl, -⟩ | ⟨-, hfresh⟩ := hkind2
    · exact hkey2.symm
    · rintro rfl
      cases hu1.here.symm.trans hfresh
  obtain ⟨heap', hcmp, hcount1, hcount2, hothers⟩ :=
    compareDecoded_of_ne (L := L) ho hd1 hu1 hd2 hu2 hs1 hs2
  refine ⟨_, heap', hcmp, hD.compare_ne_zero _ _, ?_, ?_⟩
  · unfold settled
    obtain ⟨⟨s, hs⟩, rfl, hrc⟩ | ⟨⟨n, hn⟩, hfresh⟩ := hkind1
    · rw [hcount1, hrc, hs]
    · have hkey1 : key1 ≠ o1 := h1.ne_of_fresh hfresh
      have hkey1' : key1 ≠ o2 := by
        obtain ⟨-, rfl, -⟩ | ⟨-, hfresh2⟩ := hkind2
        · exact hne
        · exact (h1.updated hu1 hkey1).ne_of_fresh hfresh2
      rw [hothers key1 hkey1 hkey1', Heap.count_of_live? h1.live, hn]
  · unfold settled
    obtain ⟨⟨s, hs⟩, rfl, hrc⟩ | ⟨⟨n, hn⟩, hfresh⟩ := hkind2
    · rw [hcount2, hrc, hs]
    · rw [hothers key2 hkey2 (h2'.ne_of_fresh hfresh), Heap.count_of_live? h2.live, hn]

/-- Two numbers are compared as they are. -/
theorem dictEncodeObjectKeyCompare_int (h1 : IsKey D heap key1 c1) (h2 : IsKey D heap key2 c2)
    {n m : Int} (hn : c1.val.encoding = .int n) (hm : c2.val.encoding = .int m) :
    dictEncodeObjectKeyCompare L D heap key1 key2 = .ok (if n = m then 1 else 0, heap) := by
  unfold dictEncodeObjectKeyCompare
  rw [object_of_live? h1.live, object_of_live? h2.live, Run.ok_bind, Run.ok_bind, hn, hm]
  rfl

/-- **The comparison.**  It says whether the contents are the same, and it keeps the counts
exactly if it does not make one static. -/
theorem dictEncodeObjectKeyCompare_spec (hD : D.Lawful) (h1 : IsKey D heap key1 c1)
    (h2 : IsKey D heap key2 c2) :
    ∃ cmp heap', dictEncodeObjectKeyCompare L D heap key1 key2 = .ok (cmp, heap') ∧
      (cmp ≠ 0 ↔ c1.val.content = c2.val.content) ∧
      (heap'.count key1 = c1.refcount ∧ heap'.count key2 = c2.refcount ↔
        StaysOffStatic D.objStaticRefcount key1 key2 c1 c2) := by
  have hkind1 := h1.encoded.imp_right And.left
  have hkind2 := h2.encoded.imp_right And.left
  by_cases hraw : (∃ s, c1.val.encoding = .raw s) ∨ ∃ s, c2.val.encoding = .raw s
  · rw [dictEncodeObjectKeyCompare_of_raw h1 h2 hraw]
    by_cases hkey : key1 = key2
    · -- one object, which is kept as bytes
      subst hkey
      cases h1.live.symm.trans h2.live
      obtain ⟨s, hs⟩ := hraw.elim id id
      obtain ⟨heap', hcmp, hcount⟩ := compareDecoded_self (L := L) hD h1.live hs
      refine ⟨_, heap', hcmp, ?_, ?_⟩
      · rw [hD.compare_ne_zero]
        exact ⟨fun _ ↦ rfl, fun _ ↦ rfl⟩
      · rw [hcount, givenBack_taken_twice, and_self, ite_eq_right_iff]
        constructor
        · intro hkept
          refine ⟨fun s _ h ↦ ?_, fun s _ h ↦ ?_, fun _ s _ h ↦ ?_⟩
          · exact absurd (hkept (.inl h)) (by omega)
          · exact absurd (hkept (.inl h)) (by omega)
          · exact absurd (hkept (.inr h)) (by omega)
        · rintro ⟨hoff, -, hoff2⟩ (h | h)
          · exact absurd h (hoff s hs)
          · exact absurd h (hoff2 rfl s hs)
    · obtain ⟨cmp, heap', hcmp, hsame, hcount1, hcount2⟩ := compareDecoded_keys (L := L) hD h1 h2 hkey
      refine ⟨cmp, heap', hcmp, hsame, ?_⟩
      rw [hcount1, hcount2, settled_eq_iff hkind1, settled_eq_iff hkind2]
      exact ⟨fun h ↦ ⟨h.1, h.2, fun heq ↦ absurd heq hkey⟩, fun h ↦ ⟨h.1, h.2.1⟩⟩
  · obtain ⟨n, hn⟩ := hkind1.resolve_left fun h ↦ hraw (.inl h)
    obtain ⟨m, hm⟩ := hkind2.resolve_left fun h ↦ hraw (.inr h)
    refine ⟨_, heap, dictEncodeObjectKeyCompare_int h1 h2 hn hm, ?_, ?_⟩
    · rw [LatteObject.content, LatteObject.content, hn, hm]
      show _ ↔ decimal n = decimal m
      rw [decimal_injective.eq_iff]
      split <;> simp [*]
    · refine ⟨fun _ ↦ ⟨?_, ?_, ?_⟩, fun _ ↦
        ⟨Heap.count_of_live? h1.live, Heap.count_of_live? h2.live⟩⟩
      · exact fun s hs ↦ absurd (.inl ⟨s, hs⟩) hraw
      · exact fun s hs ↦ absurd (.inr ⟨s, hs⟩) hraw
      · exact fun _ s hs ↦ absurd (.inl ⟨s, hs⟩) hraw

/-- **Hash and equality of keys.**  The comparison says whether the contents are the same,
objects with the same content have the same hash, and both reference counts are kept, if
and only if no reference that is taken for the comparison makes a count the static one. -/
theorem comparesRight_iff (hD : D.Lawful) (h1 : IsKey D heap key1 c1) (h2 : IsKey D heap key2 c2) :
    ComparesRight L D heap key1 key2 ↔ StaysOffStatic D.objStaticRefcount key1 key2 c1 c2 := by
  obtain ⟨cmp, heap', hcmp, hsame, hcounts⟩ := dictEncodeObjectKeyCompare_spec (L := L) hD h1 h2
  rw [← hcounts, ← Heap.count_of_live? h1.live, ← Heap.count_of_live? h2.live]
  constructor
  · rintro ⟨_, _, cmp', heap'', -, -, hcmp', -, -, hkept⟩
    cases hcmp.symm.trans hcmp'
    exact hkept
  · intro hkept
    refine ⟨c1.val, c2.val, cmp, heap', object_of_live? h1.live, object_of_live? h2.live, hcmp,
      hsame, fun hcontent ↦ ?_, hkept⟩
    exact ⟨_, h1.hash hD, by rw [h2.hash hD, hcontent]⟩

end Keys

/-- A library with the static count of the original, `INT_MAX - 1`. -/
def sampleObjectLib : ObjectLib where
  objStaticRefcount := 2147483646
  getDecodeObject heap o := do
    let c ← deref (heap.live? o)
    match c.val.encoding with
    | .raw _ => return (heap.set o { c with refcount := c.refcount + 1 }, o)
    | .embstr s => return heap.new (latteObjectNew s)
    | .int n => return heap.new (latteObjectNew (decimal n))
  ll2string := decimal
  dictSdsKeyCompare a b := if a = b then 1 else 0
  dictGenHashFunction s := s.foldl (fun h b ↦ h * 33 + b.toUInt64) 5381

theorem sampleObjectLib_lawful : sampleObjectLib.Lawful where
  decode_raw hc hs := by
    show (deref _ >>= _) = _
    rw [deref_some hc, Run.ok_bind]
    simp only [hs]
    rfl
  decode_int hc hn := by
    refine ⟨latteObjectNew (decimal _), rfl, ?_⟩
    show (deref _ >>= _) = _
    rw [deref_some hc, Run.ok_bind]
    simp only [hn]
    rfl
  ll2string_eq _ := rfl
  compare_ne_zero a b := by
    show (if a = b then (1 : Int) else 0) ≠ 0 ↔ a = b
    split <;> simp [*]

/-- The number 12 and its two digits. -/
theorem comparesRight_iff_twelve :
    ComparesRight LatteC.sample sampleObjectLib
      ⟨[⟨latteObjectNew (ascii "12"), 1⟩, ⟨{ encoding := .int 12 }, 3⟩]⟩ 0 1 := by
  refine (comparesRight_iff sampleObjectLib_lawful ⟨rfl, rfl, .inl ⟨_, rfl⟩⟩
    ⟨rfl, rfl, .inr ⟨⟨_, rfl⟩, by decide⟩⟩).mpr ⟨?_, ?_, ?_⟩
  · exact fun _ _ ↦ by decide
  · exact fun _ hs ↦ by cases hs
  · exact fun h ↦ absurd h (by decide)

/-- An object whose count is one short of the static one is compared with another: the
reference that was taken stays, and the object is static from then on. -/
theorem not_comparesRight_static :
    let heap : Heap LatteObject :=
      ⟨[⟨latteObjectNew (ascii "a"), 2147483645⟩, ⟨latteObjectNew (ascii "b"), 1⟩]⟩
    IsKey sampleObjectLib heap 0 ⟨latteObjectNew (ascii "a"), 2147483645⟩ ∧
      IsKey sampleObjectLib heap 1 ⟨latteObjectNew (ascii "b"), 1⟩ ∧
      (∃ heap', dictEncodeObjectKeyCompare LatteC.sample sampleObjectLib heap 0 1 = .ok (0, heap') ∧
        heap'.count 0 = 2147483646) ∧
      ¬ ComparesRight LatteC.sample sampleObjectLib heap 0 1 := by
  refine ⟨⟨rfl, rfl, .inl ⟨_, rfl⟩⟩, ⟨rfl, rfl, .inl ⟨_, rfl⟩⟩, ⟨_, rfl, rfl⟩, ?_⟩
  rintro ⟨_, _, cmp, heap', -, -, hcmp, -, -, hkept, -⟩
  cases hcmp
  revert hkept
  decide

end LatteRedis.Counted
