import Mathlib.Data.List.Pairwise

/-!
# Slot tables

A table of slots kept in a list and overwritten in place, each slot in use or free, and each
slot in use named by a key: the shape of an on-disk directory.  `lookup` finds the first slot in
use with a key.  The table is `Distinct` when no two slots in use share a key.

* `lookup_set_of_not` — writing a slot that neither held nor now holds a key in use leaves what
  `lookup` finds for that key.
* `lookup_set_fresh` — filling a slot with a key that no slot in use has makes `lookup` find it.
* `lookup_set_unused` — in a `Distinct` table, freeing the slot in use with a key makes `lookup`
  find nothing for it: the key is gone, not shadowed by a second slot; `lookup_set_other`, the
  same for a slot written over with another key.
* `lookup_set_add`, `lookup_set_remove` — the two updates read as a map from keys: filling a
  free slot binds one key, freeing the slot of a key unbinds it, and every other key keeps what
  `lookup` found.
* `Distinct.set_fresh`, `Distinct.set_unused` — both updates keep the table `Distinct`.
-/

set_option autoImplicit false

namespace Slots

variable {α κ : Type} [BEq κ] [LawfulBEq κ] (used : α → Bool) (key : α → κ)

/-- The first slot in use with key `k`. -/
def lookup (k : κ) (l : List α) : Option α := l.find? fun a => used a && key a == k

/-- No two slots in use share a key. -/
def Distinct (l : List α) : Prop :=
  l.Pairwise fun a b => used a = true → used b = true → key a ≠ key b

variable {used key}

theorem lookup_eq_none_iff {k : κ} {l : List α} :
    lookup used key k l = none ↔ ∀ a ∈ l, used a = true → key a ≠ k := by
  simp [lookup, List.find?_eq_none]

omit [LawfulBEq κ] in
theorem lookup_set_of_not {k : κ} {e : α} (he : (used e && key e == k) = false) :
    ∀ (l : List α) (i : Nat), (∀ h : i < l.length, (used l[i] && key l[i] == k) = false) →
      lookup used key k (l.set i e) = lookup used key k l
  | [], _, _ => rfl
  | a :: l, 0, hold => by
    have ha := hold (by simp)
    simp only [List.getElem_cons_zero] at ha
    simp [lookup, he, ha]
  | a :: l, i + 1, hold => by
    have ih := lookup_set_of_not he l i fun h => by
      have := hold (Nat.succ_lt_succ h)
      rwa [List.getElem_cons_succ] at this
    simp only [lookup] at ih ⊢
    rw [List.set_cons_succ, List.find?_cons, List.find?_cons, ih]

theorem lookup_set_fresh {e : α} (hu : used e = true) {l : List α}
    (hnone : lookup used key (key e) l = none) :
    ∀ (i : Nat), i < l.length → lookup used key (key e) (l.set i e) = some e := by
  induction l with
  | nil => intro i hi; simp at hi
  | cons a l ih =>
    have ha : (used a && key a == key e) = false := by
      simpa [lookup, List.find?_cons] using fun h => (lookup_eq_none_iff.mp hnone) a (by simp) h
    have hrest : lookup used key (key e) l = none := by
      simpa [lookup, List.find?_cons, ha] using hnone
    intro i hi
    cases i with
    | zero => simp [lookup, hu]
    | succ i =>
      have := ih hrest i (by simpa using hi)
      simp only [lookup] at this ⊢
      rw [List.set_cons_succ, List.find?_cons, ha, this]

/-- The slots of `l.set i e` are `e` and the slots of `l` at the other indices. -/
theorem mem_set_iff {l : List α} {i : Nat} {e a : α} (h : a ∈ l.set i e) :
    a = e ∨ ∃ (j : Nat) (hj : j < l.length), j ≠ i ∧ l[j] = a := by
  obtain ⟨j, hj, rfl⟩ := List.mem_iff_getElem.mp h
  rw [List.length_set] at hj
  by_cases hji : i = j
  · exact .inl (by simp [hji])
  · exact .inr ⟨j, hj, Ne.symm hji, by simp [hji]⟩

/-- In a `Distinct` table, writing over the slot in use at `i` with a slot that does not hold its
key in use makes `lookup` find nothing for that key. -/
theorem lookup_set_other {l : List α} (hd : Distinct used key l) {i : Nat} (hi : i < l.length)
    (hu : used l[i] = true) {e : α} (he : used e = true → key e ≠ key l[i]) :
    lookup used key (key l[i]) (l.set i e) = none := by
  rw [lookup_eq_none_iff]
  intro a ha hua
  rcases mem_set_iff ha with rfl | ⟨j, hj, hji, rfl⟩
  · exact he hua
  · -- another slot in use: `Distinct` keeps its key apart from slot `i`'s
    have hpair := List.pairwise_iff_getElem.mp hd
    rcases Nat.lt_or_gt_of_ne hji with hlt | hlt
    · exact hpair j i hj hi hlt hua hu
    · exact fun hk => hpair i j hi hj hlt hu hua hk.symm

theorem lookup_set_unused {l : List α} (hd : Distinct used key l) {i : Nat} (hi : i < l.length)
    (hu : used l[i] = true) {e : α} (he : used e = false) :
    lookup used key (key l[i]) (l.set i e) = none :=
  lookup_set_other hd hi hu fun h => by simp [he] at h

/-- Filling a free slot with a key that no slot in use has binds that key and leaves the others. -/
theorem lookup_set_add {l : List α} {i : Nat} (hi : i < l.length) (hfree : used l[i] = false)
    {e : α} (hu : used e = true) (hnone : lookup used key (key e) l = none) (k : κ) :
    lookup used key k (l.set i e) = if key e == k then some e else lookup used key k l := by
  split
  · rename_i hk
    obtain rfl := beq_iff_eq.mp hk
    exact lookup_set_fresh hu hnone i hi
  · rename_i hk
    apply lookup_set_of_not (by simp [hk])
    intro _
    simp [hfree]

/-- In a `Distinct` table, freeing the slot in use at `i` unbinds its key and leaves the others. -/
theorem lookup_set_remove {l : List α} (hd : Distinct used key l) {i : Nat} (hi : i < l.length)
    (hu : used l[i] = true) {e : α} (he : used e = false) (k : κ) :
    lookup used key k (l.set i e) = if key l[i] == k then none else lookup used key k l := by
  split
  · rename_i hk
    obtain rfl := beq_iff_eq.mp hk
    exact lookup_set_unused hd hi hu he
  · rename_i hk
    apply lookup_set_of_not (by simp [he])
    intro _
    simp [hk]

omit [BEq κ] [LawfulBEq κ] in
/-- `Distinct` read at two indices, in either order. -/
theorem Distinct.ne {l : List α} (hd : Distinct used key l) {i j : Nat} (hi : i < l.length)
    (hj : j < l.length) (hij : i ≠ j) (hui : used l[i] = true) (huj : used l[j] = true) :
    key l[i] ≠ key l[j] := by
  have hpair := List.pairwise_iff_getElem.mp hd
  rcases Nat.lt_or_gt_of_ne hij with hlt | hlt
  · exact hpair i j hi hj hlt hui huj
  · exact fun hk => hpair j i hj hi hlt huj hui hk.symm

omit [BEq κ] [LawfulBEq κ] in
/-- A table whose slots in use at distinct indices have distinct keys is `Distinct`. -/
theorem distinct_of_getElem {l : List α}
    (h : ∀ i j (hi : i < l.length) (hj : j < l.length), i ≠ j → used l[i] = true →
      used l[j] = true → key l[i] ≠ key l[j]) : Distinct used key l :=
  List.pairwise_iff_getElem.mpr fun i j hi hj hlt => h i j hi hj (Nat.ne_of_lt hlt)

omit [BEq κ] [LawfulBEq κ] in
theorem Distinct.set_unused {l : List α} (hd : Distinct used key l) (i : Nat) {e : α}
    (he : used e = false) : Distinct used key (l.set i e) := by
  apply distinct_of_getElem
  intro a b ha hb hab hua hub
  rw [List.length_set] at ha hb
  simp only [List.getElem_set] at hua hub ⊢
  by_cases hia : i = a
  · rw [if_pos hia] at hua
    simp [he] at hua
  · by_cases hib : i = b
    · rw [if_pos hib] at hub
      simp [he] at hub
    · rw [if_neg hia] at hua ⊢
      rw [if_neg hib] at hub ⊢
      exact hd.ne ha hb hab hua hub

theorem Distinct.set_fresh {l : List α} (hd : Distinct used key l) (i : Nat) {e : α}
    (hnone : lookup used key (key e) l = none) : Distinct used key (l.set i e) := by
  have hfresh := lookup_eq_none_iff.mp hnone
  apply distinct_of_getElem
  intro a b ha hb hab hua hub
  rw [List.length_set] at ha hb
  simp only [List.getElem_set] at hua hub ⊢
  by_cases hia : i = a <;> by_cases hib : i = b
  · exact absurd (hia.symm.trans hib) hab
  · -- the new slot against an old one
    rw [if_pos hia] at ⊢
    rw [if_neg hib] at hub ⊢
    exact fun hk => hfresh _ (List.getElem_mem hb) hub hk.symm
  · rw [if_neg hia] at hua ⊢
    rw [if_pos hib] at ⊢
    exact hfresh _ (List.getElem_mem ha) hua
  · rw [if_neg hia] at hua ⊢
    rw [if_neg hib] at hub ⊢
    exact hd.ne ha hb hab hua hub

end Slots
