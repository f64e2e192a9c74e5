import Mathlib.Data.List.Perm.Basic

/-!
# Arrays of buckets

An array of buckets, each a list, is a `List (List α)`; its elements, bucket by bucket, are its
`flatten`.  `push key` puts an element at the front of the bucket `key` names.  Nothing here is
specific to one program.

* `flatten_modify_cons`, `flatten_modify_erase` — putting an element at the front of a bucket, or
  taking one out of it, changes the elements by that one element (as a multiset).
* `Placed` — every element sits in the bucket its key names; kept by `push` and by a fold of it
  over any list (`foldl_push`), which also collects that list's elements.
* `getElem?_flatten_before` — element `k` of bucket `b` is element `before b + k` of the
  elements, `before b` counting those of the buckets ahead of `b`.
-/

set_option autoImplicit false

namespace Buckets

variable {α : Type}

/-- Bucket `i`, empty past the end. -/
def bucket (L : List (List α)) (i : Nat) : List α := L.getD i []

/-- The elements of the buckets ahead of bucket `b`. -/
def before (L : List (List α)) (b : Nat) : Nat := (L.take b).flatten.length

section
-- the equation lemmas, generated once here rather than by each proof below that unfolds
-- these definitions
attribute [local simp] bucket before
end

theorem bucket_eq_getElem (L : List (List α)) {i : Nat} (hi : i < L.length) :
    bucket L i = L[i] := by
  simp [bucket, List.getD_eq_getElem?_getD, List.getElem?_eq_getElem hi]

theorem bucket_modify (L : List (List α)) {i : Nat} (f : List α → List α) (hi : i < L.length)
    (j : Nat) : bucket (L.modify i f) j = if i = j then f (bucket L j) else bucket L j := by
  rw [bucket, bucket, List.getD_eq_getElem?_getD, List.getD_eq_getElem?_getD, List.getElem?_modify]
  by_cases hij : i = j
  · subst hij
    simp [List.getElem?_eq_getElem hi]
  · cases L[j]? <;> simp [hij]

theorem lt_length_of_mem {L : List (List α)} {i : Nat} {e : α} (he : e ∈ bucket L i) :
    i < L.length := by
  by_contra hge
  simp [bucket, List.getD_eq_getElem?_getD, List.getElem?_eq_none (Nat.le_of_not_lt hge)] at he

theorem mem_flatten_iff {L : List (List α)} {e : α} : e ∈ L.flatten ↔ ∃ i, e ∈ bucket L i := by
  rw [List.mem_flatten]
  constructor
  · rintro ⟨l, hl, he⟩
    obtain ⟨i, hi, rfl⟩ := List.getElem_of_mem hl
    exact ⟨i, by rwa [bucket_eq_getElem L hi]⟩
  · rintro ⟨i, he⟩
    by_cases hi : i < L.length
    · exact ⟨L[i], List.getElem_mem hi, by rwa [← bucket_eq_getElem L hi]⟩
    · simp [bucket, List.getD_eq_getElem?_getD, List.getElem?_eq_none (Nat.le_of_not_lt hi)] at he

/-! ## Changing one bucket -/

section Modify

variable [DecidableEq α]

/-- Changing bucket `i` trades its old elements for its new ones. -/
theorem flatten_modify (L : List (List α)) (f : List α → List α) :
    ∀ {i : Nat} (hi : i < L.length),
      List.Perm ((L.modify i f).flatten ++ L[i]) (L.flatten ++ f L[i]) := by
  induction L with
  | nil => intro i hi; exact absurd hi (Nat.not_lt_zero _)
  | cons l L ih =>
    intro i hi
    cases i with
    | zero =>
      simp only [List.modify_zero_cons, List.flatten_cons, List.getElem_cons_zero]
      rw [List.perm_iff_count]
      intro a
      simp only [List.count_append]
      omega
    | succ i =>
      simp only [List.modify_succ_cons, List.flatten_cons, List.getElem_cons_succ,
        List.append_assoc]
      exact (ih (by simpa using hi)).append_left l

theorem flatten_modify_cons (L : List (List α)) {i : Nat} (hi : i < L.length) (e : α) :
    List.Perm (L.modify i (e :: ·)).flatten (e :: L.flatten) := by
  have h := flatten_modify L (e :: ·) hi
  rw [List.perm_iff_count] at h ⊢
  intro a
  have ha := h a
  simp only [List.count_append, List.count_cons] at ha ⊢
  omega

theorem flatten_modify_erase (L : List (List α)) {i : Nat} (hi : i < L.length) {x : α}
    (hx : x ∈ L[i]) : List.Perm (L.modify i (·.erase x)).flatten (L.flatten.erase x) := by
  have h := flatten_modify L (·.erase x) hi
  -- `x` occurs in bucket `i`, hence among the elements
  have hxi : 0 < L[i].count x := List.count_pos_iff.mpr hx
  have hxL : L[i].count x ≤ L.flatten.count x :=
    (List.Sublist.count_le _ (List.sublist_flatten_of_mem (List.getElem_mem hi)))
  rw [List.perm_iff_count] at h ⊢
  intro a
  have ha := h a
  simp only [List.count_append, List.count_erase] at ha ⊢
  by_cases hax : x = a
  · subst hax
    simp only [beq_self_eq_true, if_true] at ha ⊢
    omega
  · simp only [beq_iff_eq, hax, if_false] at ha ⊢
    omega

theorem bucket_modify_erase_subset (L : List (List α)) (i : Nat) (x : α) (j : Nat) :
    bucket (L.modify i (·.erase x)) j ⊆ bucket L j := by
  by_cases hi : i < L.length
  · rw [bucket_modify L _ hi]
    split
    · exact List.erase_subset
    · exact List.Subset.refl _
  · rw [List.modify_eq_self (Nat.le_of_not_lt hi)]
    exact List.Subset.refl _

end Modify

/-! ## Elements placed by a key -/

section Placed

variable (key : α → Nat)

/-- Every element sits in the bucket `key` names. -/
def Placed (L : List (List α)) : Prop := ∀ i, ∀ e ∈ bucket L i, key e = i

/-- `list_push_front` of `e` onto bucket `key e`. -/
def push (L : List (List α)) (e : α) : List (List α) := L.modify (key e) (e :: ·)

variable {key}

theorem placed_replicate (n : Nat) : Placed key (List.replicate n []) := by
  intro i e he
  have hnil : bucket (List.replicate n ([] : List α)) i = [] := by
    by_cases hi : i < n <;> simp [bucket, List.getD_eq_getElem?_getD, hi]
  rw [hnil] at he
  exact absurd he List.not_mem_nil

theorem Placed.modify_cons {L : List (List α)} (h : Placed key L) {i : Nat} (hi : i < L.length)
    {e : α} (he : key e = i) : Placed key (L.modify i (e :: ·)) := by
  intro j x hx
  rw [bucket_modify L _ hi] at hx
  split at hx
  · rename_i hij
    rcases List.mem_cons.mp hx with rfl | hx
    · rw [he, hij]
    · exact h j x hx
  · exact h j x hx

theorem Placed.modify_erase [DecidableEq α] {L : List (List α)} (h : Placed key L) (i : Nat)
    (x : α) : Placed key (L.modify i (·.erase x)) :=
  fun j e he => h j e (bucket_modify_erase_subset L i x j he)

theorem length_push (L : List (List α)) (e : α) : (push key L e).length = L.length :=
  List.length_modify _ _ _

/-- Pushing each element of `xs` in turn onto bucket arrays of length `n` whose keys stay below
`n`: the buckets stay placed, and they gain exactly the elements of `xs`. -/
theorem foldl_push [DecidableEq α] {n : Nat} (hkey : ∀ e, key e < n) :
    ∀ (xs : List α) (L : List (List α)), L.length = n → Placed key L →
      (xs.foldl (push key) L).length = n ∧ Placed key (xs.foldl (push key) L) ∧
        List.Perm (xs.foldl (push key) L).flatten (xs ++ L.flatten)
  | [], L, hn, hL => ⟨hn, hL, List.Perm.refl _⟩
  | x :: xs, L, hn, hL => by
    have hx : key x < L.length := hn ▸ hkey x
    obtain ⟨h1, h2, h3⟩ := foldl_push hkey xs (push key L x) ((length_push L x).trans hn)
      (hL.modify_cons hx rfl)
    refine ⟨h1, h2, h3.trans ?_⟩
    -- `x` went to the front of its bucket, ahead of the rest of `xs`
    exact ((flatten_modify_cons L hx x).append_left xs).trans List.perm_middle

end Placed

/-! ## Positions in the elements -/

theorem before_zero (L : List (List α)) : before L 0 = 0 := by
  simp [before]

theorem before_succ (L : List (List α)) {b : Nat} (hb : b < L.length) :
    before L (b + 1) = before L b + (bucket L b).length := by
  rw [before, before, List.take_add_one, List.flatten_append, List.length_append,
    List.getElem?_eq_getElem hb, bucket_eq_getElem L hb]
  simp

theorem before_le (L : List (List α)) (b : Nat) : before L b ≤ L.flatten.length := by
  conv_rhs => rw [← List.take_append_drop b L]
  rw [before, List.flatten_append, List.length_append]
  exact Nat.le_add_right _ _

theorem before_length (L : List (List α)) : before L L.length = L.flatten.length := by
  rw [before, List.take_length]

/-- Element `k` of bucket `b` is element `before b + k` of the elements. -/
theorem getElem?_flatten_before (L : List (List α)) {b : Nat} (hb : b < L.length) (k : Nat)
    (hk : k < (bucket L b).length) : L.flatten[before L b + k]? = (bucket L b)[k]? := by
  have hsplit : L.flatten = (L.take b).flatten ++ (bucket L b ++ (L.drop (b + 1)).flatten) := by
    conv_lhs => rw [← List.take_append_drop b L, List.drop_eq_getElem_cons hb]
    rw [List.flatten_append, List.flatten_cons, bucket_eq_getElem L hb]
  rw [hsplit, before, List.getElem?_append_right (Nat.le_add_right _ _), Nat.add_sub_cancel_left,
    List.getElem?_append_left hk]

end Buckets
