import Mathlib
import Pintos.Lib.Buckets
import Pintos.Lib.EquivSet
import Pintos.Lib.Run

/-!
# Hash tables: `lib/kernel/hash.c`

A `struct hash` is an array of `bucket_cnt` lists; an element lives in the list
`hash (e) & (bucket_cnt - 1)` (`find_bucket`), and two elements are equal when neither is `less`
than the other (`find_elem`).  `hash_insert`, `hash_replace` and `hash_delete` end with `rehash`,
which picks about one bucket for every two elements (at least four, a power of two found by
clearing low bits) and, if its `malloc` succeeds, moves every element to the front of its new
bucket.  Elements are values of `α` (the `struct hash_elem`s the lists link); a `malloc` that
fails is `mallocOk = false`.  `hash_next` walks the lists one after the other.

## Results

* `hashFind_eq` — on a table that holds an `EquivSet`, `hash_find` is that set's `lookup`, when
  the comparison's equivalence is the setoid's and equivalent elements hash alike (`Respects`).
* `onTable_holds` — every operation returns what the same operation on the set returns, and
  keeps the table holding the set: every element in its bucket, each once, `elem_cnt` counting
  them, and a power of two, at least four, buckets (`Wf`), also when `rehash` cannot allocate.
* `hashNext_iterate` — call `k` of `hash_next` after `hash_first` returns element `k` of the
  buckets in order, and `NULL` once they are all returned.
-/

set_option autoImplicit false

namespace Pintos

/-- `struct hash`: `elem_cnt`, `bucket_cnt`, the buckets, and the functions (with `aux`). -/
structure Hash (α : Type) where
  elemCnt : Nat
  bucketCnt : Nat
  buckets : List (List α)
  hash : α → Nat
  less : α → α → Bool

namespace Hash

variable {α : Type}

/-- `BEST_ELEMS_PER_BUCKET`. -/
def BEST_ELEMS_PER_BUCKET : Nat := 2

/-- Neither is less than the other: `find_elem`'s test. -/
def hashEquiv (less : α → α → Bool) (a b : α) : Bool := !less a b && !less b a

/-- The list of bucket `i`. -/
def bucket (h : Hash α) (i : Nat) : List α := Buckets.bucket h.buckets i

/-- `hash_clear`: every bucket emptied (what a destructor does with the elements is not
modelled). -/
def hashClear (h : Hash α) : Hash α :=
  { h with buckets := List.replicate h.bucketCnt [], elemCnt := 0 }

/-- `hash_init`: four buckets, cleared; `none` when their `malloc` fails. -/
def hashInit (hash : α → Nat) (less : α → α → Bool) (mallocOk : Bool) : Option (Hash α) :=
  if mallocOk then some (hashClear ⟨0, 4, List.replicate 4 [], hash, less⟩) else none

/-- `find_bucket`: the index `hash (e) & (bucket_cnt - 1)`. -/
def findBucket (h : Hash α) (e : α) : Nat := h.hash e &&& (h.bucketCnt - 1)

/-- `find_elem`: the first element of `bucket` equal to `e`. -/
def findElem (h : Hash α) (bucket : List α) (e : α) : Option α :=
  bucket.find? fun hi => hashEquiv h.less hi e

/-- `insert_elem`: onto the front of bucket `i`. -/
def insertElem (h : Hash α) (i : Nat) (e : α) : Hash α :=
  { h with elemCnt := h.elemCnt + 1, buckets := h.buckets.modify i (e :: ·) }

/-- `remove_elem`: `e` out of its list, bucket `i` (where it was found). -/
def removeElem [DecidableEq α] (h : Hash α) (i : Nat) (e : α) : Hash α :=
  { h with elemCnt := h.elemCnt - 1, buckets := h.buckets.modify i (·.erase e) }

/-- `turn_off_least_1bit`. -/
def turnOffLeast1bit (x : Nat) : Nat := x &&& (x - 1)

/-- `is_power_of_2`. -/
def isPowerOf2 (x : Nat) : Bool := x != 0 && turnOffLeast1bit x == 0

theorem turnOffLeast1bit_lt {x : Nat} (hx : x ≠ 0) : turnOffLeast1bit x < x := by
  have hle : turnOffLeast1bit x ≤ x := Nat.and_le_left
  have hne : turnOffLeast1bit x ≠ x := by
    intro heq
    have : turnOffLeast1bit x ≤ x - 1 := Nat.and_le_right
    omega
  omega

theorem turnOffLeast1bit_ne_zero {x : Nat} (hx : x ≠ 0) (hp : ¬ isPowerOf2 x = true) :
    turnOffLeast1bit x ≠ 0 := by
  simpa [isPowerOf2, hx] using hp

/-- The loop of `rehash` that clears low bits until a power of two is left, from a count that is
not zero (at least four there). -/
def clearLowBits (x : Nat) (hx : x ≠ 0) : Nat :=
  if hp : isPowerOf2 x then x
  else clearLowBits (turnOffLeast1bit x) (turnOffLeast1bit_ne_zero hx hp)
termination_by x
decreasing_by exact turnOffLeast1bit_lt hx

/-- `rehash`'s `new_bucket_cnt`: one bucket for every `BEST_ELEMS_PER_BUCKET` elements, at
least four, cut down to a power of two. -/
def newBucketCnt (elemCnt : Nat) : Nat :=
  clearLowBits
    (if elemCnt / BEST_ELEMS_PER_BUCKET < 4 then 4 else elemCnt / BEST_ELEMS_PER_BUCKET)
    (by split <;> omega)

/-- `rehash`: if the count is new and the `malloc` of its buckets succeeds, every element,
bucket by bucket and front to back, moves to the front of its bucket under the new count. -/
def rehash (h : Hash α) (mallocOk : Bool) : Hash α :=
  if newBucketCnt h.elemCnt = h.bucketCnt then h
  else if !mallocOk then h
  else
    let n := newBucketCnt h.elemCnt
    let fresh : Hash α := { h with bucketCnt := n, buckets := List.replicate n [] }
    let move := fun acc oldBucket => List.foldl (Buckets.push (findBucket fresh)) acc oldBucket
    { fresh with buckets := h.buckets.foldl move fresh.buckets }

/-- `hash_insert`: the element equal to `new` if there is one, else `none` with `new` added. -/
def hashInsert (h : Hash α) (new : α) (mallocOk : Bool) : Option α × Hash α :=
  let bucket := findBucket h new
  let old := findElem h (h.bucket bucket) new
  let h₁ := match old with
    | none => insertElem h bucket new
    | some _ => h
  (old, rehash h₁ mallocOk)

/-- `hash_replace`: `new` in place of the element equal to it, which is returned. -/
def hashReplace [DecidableEq α] (h : Hash α) (new : α) (mallocOk : Bool) : Option α × Hash α :=
  let bucket := findBucket h new
  let old := findElem h (h.bucket bucket) new
  let h₁ := match old with
    | some o => removeElem h bucket o
    | none => h
  (old, rehash (insertElem h₁ bucket new) mallocOk)

/-- `hash_find`. -/
def hashFind (h : Hash α) (e : α) : Option α := findElem h (h.bucket (findBucket h e)) e

/-- `hash_delete`: the element equal to `e`, removed. -/
def hashDelete [DecidableEq α] (h : Hash α) (e : α) (mallocOk : Bool) : Option α × Hash α :=
  match findElem h (h.bucket (findBucket h e)) e with
  | some found => (some found, rehash (removeElem h (findBucket h e) found) mallocOk)
  | none => (none, h)

/-- `hash_size`. -/
def hashSize (h : Hash α) : Nat := h.elemCnt

/-- A call on a table, with whether the `malloc` of the `rehash` it may run succeeds. -/
inductive HashOp (α : Type)
  | insert (e : α) (mallocOk : Bool)
  | replace (e : α) (mallocOk : Bool)
  | find (e : α)
  | delete (e : α) (mallocOk : Bool)
  | clear

/-- One call on the table: what it returns (nothing for `hash_clear`), and the table after. -/
def HashOp.onTable [DecidableEq α] : HashOp α → Hash α → Option α × Hash α
  | .insert e mallocOk, h => hashInsert h e mallocOk
  | .replace e mallocOk, h => hashReplace h e mallocOk
  | .find e, h => (hashFind h e, h)
  | .delete e mallocOk, h => hashDelete h e mallocOk
  | .clear, h => (none, hashClear h)

/-! ## Iteration -/

/-- `struct hash_iterator`: the bucket, and the list element in it counted from the list's head
(0) through its elements (1 to the length) to its tail; `none` once the iteration is over. -/
structure HashIterator where
  bucket : Nat
  elem : Option Nat
  deriving DecidableEq

/-- `hash_first`: the head of the first bucket. -/
def hashFirst (_h : Hash α) : HashIterator := ⟨0, some 0⟩

/-- `hash_cur`: the element the iterator is at (none at a head, which C leaves undefined). -/
def hashCur (h : Hash α) (i : HashIterator) : Option α :=
  match i.elem with
  | some (k + 1) => (h.bucket i.bucket)[k]?
  | _ => none

/-- The loop of `hash_next`: at the tail of a bucket, go to the start of the next one, until
past the last. -/
def nextLoop (h : Hash α) (bucket elem : Nat) : HashIterator :=
  if elem = (h.bucket bucket).length + 1 then
    if bucket + 1 ≥ h.bucketCnt then ⟨bucket + 1, none⟩
    else nextLoop h (bucket + 1) 1
  else ⟨bucket, some elem⟩
termination_by h.bucketCnt - bucket

/-- `hash_next`: the next list element, and the element it is at (`NULL` at the end; a call
after that dereferences `NULL` in C and returns `NULL` here). -/
def hashNext (h : Hash α) (i : HashIterator) : HashIterator × Option α :=
  match i.elem with
  | some k =>
    let i' := nextLoop h i.bucket (k + 1)
    (i', hashCur h i')
  | none => (i, none)

/-! ## The bucket count -/

theorem isPowerOf2_iff (x : Nat) : isPowerOf2 x = true ↔ x.isPowerOfTwo := by
  rw [← Nat.ne_zero_and_sub_one_eq_zero_iff_isPowerOfTwo]
  simp [isPowerOf2, turnOffLeast1bit]

/-- Clearing the lowest set bit of a number that is not a power of two keeps its highest one. -/
theorem log2_turnOffLeast1bit {x : Nat} (hx : x ≠ 0) (hp : ¬ isPowerOf2 x = true) :
    (turnOffLeast1bit x).log2 = x.log2 := by
  have hpow : ¬ x.isPowerOfTwo := fun h => hp ((isPowerOf2_iff x).mpr h)
  have hge : 2 ^ x.log2 ≤ turnOffLeast1bit x :=
    Nat.ge_two_pow_of_testBit (Nat.and_sub_one_testBit_log2 hx hpow)
  have hlt : turnOffLeast1bit x < 2 ^ (x.log2 + 1) :=
    Nat.lt_of_le_of_lt Nat.and_le_left Nat.lt_log2_self
  exact (Nat.log2_eq_iff (turnOffLeast1bit_ne_zero hx hp)).mpr ⟨hge, hlt⟩

/-- The loop ends at the highest power of two not above its start. -/
theorem clearLowBits_eq (x : Nat) (hx : x ≠ 0) : clearLowBits x hx = 2 ^ x.log2 := by
  fun_induction clearLowBits x hx with
  | case1 x hx hp =>
    obtain ⟨k, rfl⟩ := (isPowerOf2_iff _).mp hp
    rw [Nat.log2_two_pow]
  | case2 x hx hp ih =>
    rw [ih, log2_turnOffLeast1bit hx hp]

theorem newBucketCnt_spec (elemCnt : Nat) :
    (newBucketCnt elemCnt).isPowerOfTwo ∧ 4 ≤ newBucketCnt elemCnt := by
  rw [newBucketCnt, clearLowBits_eq]
  have hlog : 2 ≤ (if elemCnt / BEST_ELEMS_PER_BUCKET < 4 then 4
      else elemCnt / BEST_ELEMS_PER_BUCKET).log2 :=
    (Nat.le_log2 (by split <;> omega)).mpr (by split <;> omega)
  have h4 : 2 ^ 2 ≤ 2 ^ (if elemCnt / BEST_ELEMS_PER_BUCKET < 4 then 4
      else elemCnt / BEST_ELEMS_PER_BUCKET).log2 := Nat.pow_le_pow_right (by decide) hlog
  exact ⟨⟨_, rfl⟩, h4⟩

/-- What `rehash` does: nothing, or a new count of buckets, a power of two and at least four,
filled by pushing the elements one by one onto their buckets under that count. -/
theorem rehash_eq (h : Hash α) (mallocOk : Bool) :
    rehash h mallocOk = h ∨ ∃ n, n.isPowerOfTwo ∧ 4 ≤ n ∧
      rehash h mallocOk = { h with bucketCnt := n, buckets := (h.buckets.flatten.foldl
        (Buckets.push fun e => h.hash e &&& (n - 1)) (List.replicate n [])) } := by
  unfold rehash
  split
  · exact .inl rfl
  · split
    · exact .inl rfl
    · refine .inr ⟨_, (newBucketCnt_spec h.elemCnt).1, (newBucketCnt_spec h.elemCnt).2, ?_⟩
      rw [List.foldl_flatten]
      rfl

@[simp] theorem rehash_hash (h : Hash α) (mallocOk : Bool) : (rehash h mallocOk).hash = h.hash := by
  rcases rehash_eq h mallocOk with heq | ⟨n, -, -, heq⟩ <;> rw [heq]

@[simp] theorem rehash_less (h : Hash α) (mallocOk : Bool) : (rehash h mallocOk).less = h.less := by
  rcases rehash_eq h mallocOk with heq | ⟨n, -, -, heq⟩ <;> rw [heq]

@[simp] theorem rehash_elemCnt (h : Hash α) (mallocOk : Bool) :
    (rehash h mallocOk).elemCnt = h.elemCnt := by
  rcases rehash_eq h mallocOk with heq | ⟨n, -, -, heq⟩ <;> rw [heq]

/-! ## The invariant -/

/-- What the table keeps: a power of two, at least four, buckets, each element in the bucket
`find_bucket` names, and `elem_cnt` counting them. -/
structure Wf (h : Hash α) : Prop where
  length_buckets : h.buckets.length = h.bucketCnt
  pow2 : h.bucketCnt.isPowerOfTwo
  four_le : 4 ≤ h.bucketCnt
  elemCnt_eq : h.elemCnt = h.buckets.flatten.length
  placed : Buckets.Placed (findBucket h) h.buckets

theorem findBucket_lt (h : Hash α) (hpos : 0 < h.bucketCnt) (e : α) :
    findBucket h e < h.bucketCnt :=
  Nat.lt_of_le_of_lt Nat.and_le_right (by omega)

theorem Wf.findBucket_lt {h : Hash α} (hw : h.Wf) (e : α) : findBucket h e < h.buckets.length := by
  rw [hw.length_buckets]
  exact Hash.findBucket_lt h (by have := hw.four_le; omega) e

section Holds

variable [DecidableEq α] [Setoid α]

/-- The comparison's equivalence is the setoid's, and equivalent elements hash alike. -/
structure Respects (hash : α → Nat) (less : α → α → Bool) : Prop where
  less_iff : ∀ a b, hashEquiv less a b = true ↔ a ≈ b
  hash_eq : ∀ a b, a ≈ b → hash a = hash b

/-- The table holds the set `S`: its elements, each once. -/
structure Holds (h : Hash α) (S : EquivSet α) : Prop where
  respects : Respects h.hash h.less
  wf : h.Wf
  nodup : h.buckets.flatten.Nodup
  elems : h.buckets.flatten.toFinset = S.elems

variable {h : Hash α} {S : EquivSet α}

theorem Holds.mem_iff (hh : Holds h S) (e : α) : e ∈ S.elems ↔ e ∈ h.buckets.flatten := by
  rw [← hh.elems, List.mem_toFinset]

/-- An element equivalent to `e` is in `e`'s bucket: they hash alike. -/
theorem Holds.mem_bucket (hh : Holds h S) {s e : α} (hs : s ∈ S.elems) (hse : s ≈ e) :
    s ∈ h.bucket (findBucket h e) := by
  obtain ⟨i, hi⟩ := Buckets.mem_flatten_iff.mp ((hh.mem_iff s).mp hs)
  have hkey : findBucket h s = findBucket h e := by
    unfold findBucket
    rw [hh.respects.hash_eq s e hse]
  rw [← hkey, hh.wf.placed i s hi]
  exact hi

/-- **`hash_find` is the set's lookup.** -/
theorem hashFind_eq (hh : Holds h S) (e : α) : hashFind h e = S.lookup e := by
  unfold hashFind findElem
  cases hf : (h.bucket (findBucket h e)).find? (fun hi => hashEquiv h.less hi e) with
  | some s =>
    -- the element found is in the table and equivalent to `e`
    have hmem := List.mem_of_find?_eq_some hf
    have hp := List.find?_some hf
    symm
    rw [EquivSet.lookup_eq_some_iff]
    exact ⟨(hh.mem_iff s).mpr (Buckets.mem_flatten_iff.mpr ⟨_, hmem⟩),
      (hh.respects.less_iff s e).mp hp⟩
  | none =>
    -- every element equivalent to `e` would be in its bucket
    symm
    rw [EquivSet.lookup_eq_none_iff]
    intro s hs hse
    exact List.find?_eq_none.mp hf s (hh.mem_bucket hs hse) ((hh.respects.less_iff s e).mpr hse)

omit [DecidableEq α] [Setoid α] in
theorem mem_of_findElem {e s : α}
    (hf : findElem h (h.bucket (findBucket h e)) e = some s) : s ∈ h.bucket (findBucket h e) :=
  List.mem_of_find?_eq_some hf

/-! ## Each operation keeps the table holding the set -/

/-- `rehash` leaves the elements where `find_bucket` looks for them, whatever its count. -/
theorem rehash_holds (hh : Holds h S) (mallocOk : Bool) : Holds (rehash h mallocOk) S := by
  rcases rehash_eq h mallocOk with heq | ⟨n, hpow, h4, heq⟩
  · rw [heq]
    exact hh
  · rw [heq]
    -- the elements pushed onto the new buckets are the old ones, each under the new count
    have hkey : ∀ e, h.hash e &&& (n - 1) < n :=
      fun e => Nat.lt_of_le_of_lt Nat.and_le_right (by omega)
    obtain ⟨hlen, hplaced, hperm⟩ := Buckets.foldl_push hkey h.buckets.flatten
      (List.replicate n []) List.length_replicate (Buckets.placed_replicate n)
    rw [List.flatten_replicate_nil, List.append_nil] at hperm
    exact {
      respects := hh.respects
      wf := { length_buckets := hlen, pow2 := hpow, four_le := h4,
              elemCnt_eq := hh.wf.elemCnt_eq.trans hperm.length_eq.symm, placed := hplaced }
      nodup := hperm.nodup_iff.mpr hh.nodup
      elems := (List.toFinset_eq_of_perm _ _ hperm).trans hh.elems }

theorem holds_insertElem (hh : Holds h S) {e : α} (he : e ∉ S.elems) (S' : EquivSet α)
    (hS' : S'.elems = insert e S.elems) : Holds (insertElem h (findBucket h e) e) S' := by
  have hi := hh.wf.findBucket_lt e
  have hperm := Buckets.flatten_modify_cons h.buckets hi e
  have he' : e ∉ h.buckets.flatten := fun hm => he ((hh.mem_iff e).mpr hm)
  exact {
    respects := hh.respects
    wf := { length_buckets := (List.length_modify _ _ _).trans hh.wf.length_buckets,
            pow2 := hh.wf.pow2, four_le := hh.wf.four_le,
            elemCnt_eq := by
              simp only [insertElem]
              rw [hperm.length_eq, List.length_cons, hh.wf.elemCnt_eq]
            placed := hh.wf.placed.modify_cons hi rfl }
    nodup := hperm.nodup_iff.mpr (List.nodup_cons.mpr ⟨he', hh.nodup⟩)
    elems := by
      simp only [insertElem]
      rw [List.toFinset_eq_of_perm _ _ hperm, List.toFinset_cons, hh.elems, hS'] }

theorem holds_removeElem (hh : Holds h S) {i : Nat} {s : α} (hs : s ∈ h.bucket i)
    (S' : EquivSet α) (hS' : S'.elems = S.elems.erase s) : Holds (removeElem h i s) S' := by
  have hi : i < h.buckets.length := Buckets.lt_length_of_mem hs
  have hperm := Buckets.flatten_modify_erase h.buckets hi
    (by rwa [← Buckets.bucket_eq_getElem _ hi])
  have hsL : s ∈ h.buckets.flatten := Buckets.mem_flatten_iff.mpr ⟨i, hs⟩
  exact {
    respects := hh.respects
    wf := { length_buckets := (List.length_modify _ _ _).trans hh.wf.length_buckets,
            pow2 := hh.wf.pow2, four_le := hh.wf.four_le,
            elemCnt_eq := by
              simp only [removeElem]
              rw [hperm.length_eq, List.length_erase_of_mem hsL, hh.wf.elemCnt_eq]
            placed := hh.wf.placed.modify_erase i s }
    nodup := hperm.nodup_iff.mpr (hh.nodup.erase s)
    elems := by
      simp only [removeElem]
      rw [List.toFinset_eq_of_perm _ _ hperm, hS', ← hh.elems]
      ext x
      simp only [List.mem_toFinset, Finset.mem_erase, hh.nodup.mem_erase_iff] }

theorem holds_hashClear (hh : Holds h S) : Holds (hashClear h) EquivSet.empty := by
  have hflat : (hashClear h).buckets.flatten = [] := List.flatten_replicate_nil
  exact {
    respects := hh.respects
    wf := { length_buckets := List.length_replicate, pow2 := hh.wf.pow2,
            four_le := hh.wf.four_le, elemCnt_eq := by rw [hflat]; rfl,
            placed := Buckets.placed_replicate _ }
    nodup := by
      rw [hflat]
      exact List.nodup_nil
    elems := by
      rw [hflat]
      rfl }

theorem hashInit_holds {hash : α → Nat} {less : α → α → Bool} {h₀ : Hash α}
    (hless : ∀ a b, hashEquiv less a b = true ↔ a ≈ b) (hhash : ∀ a b, a ≈ b → hash a = hash b)
    (hinit : hashInit hash less true = some h₀) : Holds h₀ EquivSet.empty := by
  simp only [hashInit, if_true, Option.some.injEq] at hinit
  subst hinit
  exact {
    respects := ⟨hless, hhash⟩
    wf := { length_buckets := List.length_replicate, pow2 := ⟨2, rfl⟩, four_le := le_refl 4,
            elemCnt_eq := by simp [hashClear], placed := Buckets.placed_replicate _ }
    nodup := by simp [hashClear]
    elems := by simp [hashClear, EquivSet.empty] }

/-- The same call on the set. -/
noncomputable def HashOp.onSet : HashOp α → EquivSet α → Option α × EquivSet α
  | .insert e _, S => S.insert e
  | .replace e _, S => S.replace e
  | .find e, S => (S.lookup e, S)
  | .delete e _, S => S.delete e
  | .clear, _ => (none, EquivSet.empty)

/-- **One call.**  The table answers as the set does, and then holds the set after the call. -/
theorem onTable_holds (hh : Holds h S) (op : HashOp α) :
    (op.onTable h).1 = (op.onSet S).1 ∧ Holds (op.onTable h).2 (op.onSet S).2 := by
  cases op with
  | insert e mallocOk =>
    have hfe := hashFind_eq hh e
    unfold hashFind at hfe
    cases hl : S.lookup e with
    | none =>
      obtain ⟨h1, h2⟩ := EquivSet.insert_of_lookup_none hl
      simp only [HashOp.onTable, HashOp.onSet, hashInsert, hfe, hl]
      exact ⟨h1.symm, rehash_holds
        (holds_insertElem hh (EquivSet.not_mem_of_lookup_none hl) _ h2) mallocOk⟩
    | some s =>
      simp only [HashOp.onTable, HashOp.onSet, hashInsert, hfe, hl,
        EquivSet.insert_of_lookup_some hl]
      exact ⟨trivial, rehash_holds hh mallocOk⟩
  | replace e mallocOk =>
    have hfe := hashFind_eq hh e
    unfold hashFind at hfe
    cases hl : S.lookup e with
    | none =>
      obtain ⟨h1, h2⟩ := EquivSet.replace_of_lookup_none hl
      simp only [HashOp.onTable, HashOp.onSet, hashReplace, hfe, hl]
      exact ⟨h1.symm, rehash_holds
        (holds_insertElem hh (EquivSet.not_mem_of_lookup_none hl) _ h2) mallocOk⟩
    | some s =>
      obtain ⟨h1, h2⟩ := EquivSet.replace_of_lookup_some hl
      -- `s` comes out of `e`'s bucket, then `e` goes in
      have hrem := holds_removeElem hh (mem_of_findElem (hfe.trans hl))
        ⟨S.elems.erase s, S.no_two_erase s⟩ rfl
      simp only [HashOp.onTable, HashOp.onSet, hashReplace, hfe, hl]
      exact ⟨h1.symm, rehash_holds
        (holds_insertElem hrem (EquivSet.not_mem_erase_of_lookup_some hl) _ h2) mallocOk⟩
  | find e => exact ⟨hashFind_eq hh e, hh⟩
  | delete e mallocOk =>
    have hfe := hashFind_eq hh e
    unfold hashFind at hfe
    cases hl : S.lookup e with
    | none =>
      simp only [HashOp.onTable, HashOp.onSet, hashDelete, hfe, hl,
        EquivSet.delete_of_lookup_none hl]
      exact ⟨trivial, hh⟩
    | some s =>
      obtain ⟨h1, h2⟩ := EquivSet.delete_of_lookup_some hl
      simp only [HashOp.onTable, HashOp.onSet, hashDelete, hfe, hl]
      exact ⟨h1.symm, rehash_holds
        (holds_removeElem hh (mem_of_findElem (hfe.trans hl)) _ h2) mallocOk⟩
  | clear => exact ⟨rfl, holds_hashClear hh⟩

end Holds

/-! ## Iteration visits every element once -/

section Iterate

variable {h : Hash α}

/-- The iterator has returned `t` elements: it is at element `t` of the buckets in order, or,
past the last one, it has stopped. -/
def At (h : Hash α) (t : Nat) (i : HashIterator) : Prop :=
  (t ≤ h.buckets.flatten.length ∧ ∃ k, i.elem = some (k + 1) ∧ i.bucket < h.buckets.length ∧
    k < (h.bucket i.bucket).length ∧ Buckets.before h.buckets i.bucket + k + 1 = t) ∨
  (h.buckets.flatten.length < t ∧ i.elem = none)

/-- The loop of `hash_next` from list element `elem` of bucket `b` (its tail being
`length + 1`) stops at the next element, across any empty buckets, or past the last bucket. -/
theorem nextLoop_at (hw : h.Wf) (b elem : Nat) (hb : b < h.buckets.length) (h1 : 1 ≤ elem)
    (hle : elem ≤ (h.bucket b).length + 1) :
    At h (Buckets.before h.buckets b + elem) (nextLoop h b elem) := by
  have hlen := hw.length_buckets
  have hsucc := Buckets.before_succ h.buckets hb
  rw [nextLoop]
  split
  · rename_i htail
    unfold bucket at htail
    split
    · -- the tail of the last bucket: every element has been returned
      have hend : b + 1 = h.buckets.length := by omega
      rw [hend, Buckets.before_length] at hsucc
      exact .inr ⟨by omega, rfl⟩
    · -- the tail of a bucket: on to the start of the next
      have hat := nextLoop_at hw (b + 1) 1 (by omega) le_rfl (by omega)
      rwa [show Buckets.before h.buckets b + elem = Buckets.before h.buckets (b + 1) + 1 by omega]
  · -- an element of the bucket
    rename_i hnot
    have hall := Buckets.before_le h.buckets (b + 1)
    unfold bucket at hle hnot
    refine .inl ⟨by omega, elem - 1, ?_, hb, ?_, ?_⟩
    · show some elem = some (elem - 1 + 1)
      congr 1
      omega
    · show elem - 1 < (Buckets.bucket h.buckets b).length
      omega
    · show Buckets.before h.buckets b + (elem - 1) + 1 = Buckets.before h.buckets b + elem
      omega
termination_by h.bucketCnt - b

theorem hashNext_at (hw : h.Wf) {t : Nat} {i : HashIterator} (hi : At h t i) :
    At h (t + 1) (hashNext h i).1 := by
  rcases hi with ⟨-, k, hk, hb, hklt, hbt⟩ | ⟨ht, hnone⟩
  · -- from list element `k + 1` the loop starts at `k + 2`
    simp only [hashNext, hk]
    have hat := nextLoop_at hw i.bucket (k + 2) hb (by omega) (by omega)
    rwa [show Buckets.before h.buckets i.bucket + (k + 2) = t + 1 by omega] at hat
  · simp only [hashNext, hnone]
    exact .inr ⟨by omega, hnone⟩

theorem hashCur_at {t : Nat} {i : HashIterator} (hi : At h t i) :
    hashCur h i = h.buckets.flatten[t - 1]? := by
  rcases hi with ⟨-, k, hk, hb, hklt, hbt⟩ | ⟨ht, hnone⟩
  · simp only [hashCur, hk]
    rw [← hbt, show Buckets.before h.buckets i.bucket + k + 1 - 1 =
      Buckets.before h.buckets i.bucket + k by omega,
      Buckets.getElem?_flatten_before _ hb k hklt]
    rfl
  · simp only [hashCur, hnone]
    rw [List.getElem?_eq_none (by omega)]

theorem hashNext_snd (h : Hash α) (i : HashIterator) :
    (hashNext h i).2 = hashCur h (hashNext h i).1 := by
  unfold hashNext
  split
  · rfl
  · rename_i hnone
    simp only [hashCur, hnone]

/-- **Iteration.**  Call `k` of `hash_next` after `hash_first` returns element `k` of the
buckets in order, and `NULL` once all are returned. -/
theorem hashNext_iterate (hw : h.Wf) (k : Nat) :
    (hashNext h ((fun i => (hashNext h i).1)^[k] (hashFirst h))).2 = h.buckets.flatten[k]? := by
  -- after call `k` the iterator has returned `k + 1` elements
  have hat : ∀ k, At h (k + 1) (hashNext h ((fun i => (hashNext h i).1)^[k] (hashFirst h))).1 := by
    intro k
    induction k with
    | zero =>
      have h0 : 0 < h.buckets.length := by
        rw [hw.length_buckets]
        have := hw.four_le
        omega
      have hfirst := nextLoop_at hw 0 1 h0 le_rfl (by omega)
      rw [Buckets.before_zero] at hfirst
      exact hfirst
    | succ k ih =>
      rw [Function.iterate_succ_apply']
      exact hashNext_at hw ih
  rw [hashNext_snd, hashCur_at (hat k), Nat.add_sub_cancel]

end Iterate

/-! ## The table refines a set modulo the equivalence -/

/-- **A hash table is a set modulo `less`.**  From `hash_init`, with a comparison whose
equivalence is the setoid's and a hash that gives equivalent elements one value, any run of
`hash_insert`, `hash_replace`, `hash_find`, `hash_delete` and `hash_clear`, whatever the
`malloc`s of `rehash` do, returns what the same run on an `EquivSet` returns.  The table then
holds that set (each element once, in its bucket, with a power of two, at least four, buckets),
`hash_size` is the set's size, and an iteration returns the elements one by one, then `NULL`. -/
theorem hash_refines_equivSet [DecidableEq α] [Setoid α] {hash : α → Nat}
    {less : α → α → Bool} {h₀ : Hash α} (hless : ∀ a b, hashEquiv less a b = true ↔ a ≈ b)
    (hhash : ∀ a b, a ≈ b → hash a = hash b) (hinit : hashInit hash less true = some h₀)
    (ops : List (HashOp α)) :
    let table := Lts.runCalls HashOp.onTable ops h₀
    let set := Lts.runCalls HashOp.onSet ops EquivSet.empty
    table.1 = set.1 ∧ Holds table.2 set.2 ∧ hashSize table.2 = set.2.elems.card ∧
      ∀ k, (hashNext table.2 ((fun i => (hashNext table.2 i).1)^[k] (hashFirst table.2))).2 =
        table.2.buckets.flatten[k]? := by
  intro table set
  obtain ⟨hout, hh⟩ := @Lts.runCalls_sim _ _ _ _ Holds (fun _ => True) HashOp.onTable
    HashOp.onSet (fun op _ _ _ hh => onTable_holds hh op) ops h₀ EquivSet.empty
    (fun _ _ => trivial) (hashInit_holds hless hhash hinit)
  refine ⟨hout, hh, ?_, hashNext_iterate hh.wf⟩
  -- `elem_cnt` counts the elements, each there once
  rw [hashSize, hh.wf.elemCnt_eq, ← hh.elems, List.toFinset_card_of_nodup hh.nodup]

/-- An entry of a table keyed by `key`. -/
structure Entry where
  key : Nat
  value : Nat
  deriving DecidableEq

/-- Entries are equivalent when their keys are equal. -/
instance : Setoid Entry := ⟨fun a b => a.key = b.key, ⟨fun _ => rfl, Eq.symm, Eq.trans⟩⟩

/-- Entries compared by key. -/
def entryLess (a b : Entry) : Bool := decide (a.key < b.key)

/-- Three writes to key 1, a lookup and a removal, with one `rehash` allocation failing. -/
def entryCalls : List (HashOp Entry) :=
  [.insert ⟨1, 10⟩ true, .insert ⟨1, 11⟩ false, .replace ⟨1, 12⟩ true, .find ⟨1, 0⟩,
    .delete ⟨1, 0⟩ true]

/-- The table `hash_init` makes for entries. -/
def entryTable : Hash Entry := hashClear ⟨0, 4, List.replicate 4 [], Entry.key, entryLess⟩

theorem hash_refines_equivSet_entries :
    (∀ a b : Entry, hashEquiv entryLess a b = true ↔ a ≈ b) ∧
      (∀ a b : Entry, a ≈ b → a.key = b.key) ∧
      hashInit Entry.key entryLess true = some entryTable ∧
      (Lts.runCalls HashOp.onTable entryCalls entryTable).1 =
        (Lts.runCalls HashOp.onSet entryCalls EquivSet.empty).1 ∧
      Holds (Lts.runCalls HashOp.onTable entryCalls entryTable).2
        (Lts.runCalls HashOp.onSet entryCalls EquivSet.empty).2 ∧
      hashSize (Lts.runCalls HashOp.onTable entryCalls entryTable).2 =
        (Lts.runCalls HashOp.onSet entryCalls EquivSet.empty).2.elems.card ∧
      ∀ k, (hashNext (Lts.runCalls HashOp.onTable entryCalls entryTable).2
          ((fun i => (hashNext (Lts.runCalls HashOp.onTable entryCalls entryTable).2 i).1)^[k]
            (hashFirst (Lts.runCalls HashOp.onTable entryCalls entryTable).2))).2 =
        (Lts.runCalls HashOp.onTable entryCalls entryTable).2.buckets.flatten[k]? := by
  have hless : ∀ a b : Entry, hashEquiv entryLess a b = true ↔ a ≈ b := by
    intro a b
    show _ ↔ a.key = b.key
    simp only [hashEquiv, entryLess, Bool.and_eq_true, Bool.not_eq_eq_eq_not, Bool.not_true,
      decide_eq_false_iff_not]
    omega
  have hhash : ∀ a b : Entry, a ≈ b → a.key = b.key := fun _ _ hab => hab
  exact ⟨hless, hhash, rfl, hash_refines_equivSet hless hhash rfl entryCalls⟩

end Hash

end Pintos
