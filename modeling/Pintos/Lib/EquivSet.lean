import Mathlib.Data.Finset.Card

/-!
# Finite sets modulo an equivalence

An `EquivSet` is a finite set of elements of a setoid, no two of which are equivalent: what a
table keyed by an equivalence stores.  `lookup` finds the element equivalent to a given one;
`insert` adds an element unless an equivalent one is present, which it returns; `replace` puts
the element in place of the equivalent one; `delete` removes that one.  Nothing here is specific
to one program.

* `lookup_eq_some_iff`, `lookup_eq_none_iff` — what `lookup` returns; with no two elements
  equivalent, the element it finds is the only one.
* `insert_of_lookup_none`, `replace_of_lookup_some`, … — the elements after each operation.
-/

set_option autoImplicit false

/-- A finite set no two of whose elements are equivalent. -/
structure EquivSet (α : Type) [Setoid α] [DecidableEq α] where
  elems : Finset α
  no_two : ∀ a ∈ elems, ∀ b ∈ elems, a ≈ b → a = b

namespace EquivSet

variable {α : Type} [Setoid α] [DecidableEq α]

/-- No element. -/
def empty : EquivSet α := ⟨∅, by simp⟩

open Classical in
/-- The element equivalent to `e`, if there is one. -/
noncomputable def lookup (S : EquivSet α) (e : α) : Option α :=
  if h : ∃ s ∈ S.elems, s ≈ e then some (Classical.choose h) else none

theorem lookup_eq_some_iff {S : EquivSet α} {e s : α} :
    S.lookup e = some s ↔ s ∈ S.elems ∧ s ≈ e := by
  unfold lookup
  split
  · rename_i h
    obtain ⟨hmem, hequiv⟩ := Classical.choose_spec h
    constructor
    · rintro ⟨⟩
      exact ⟨hmem, hequiv⟩
    · rintro ⟨hs, hse⟩
      -- two elements equivalent to `e` are equivalent to each other, hence equal
      rw [S.no_two _ hmem _ hs (Setoid.trans hequiv (Setoid.symm hse))]
  · rename_i h
    constructor
    · intro h'
      cases h'
    · rintro ⟨hs, hse⟩
      exact absurd ⟨s, hs, hse⟩ h

theorem lookup_eq_none_iff {S : EquivSet α} {e : α} :
    S.lookup e = none ↔ ∀ s ∈ S.elems, ¬ s ≈ e := by
  unfold lookup
  split
  · rename_i h
    obtain ⟨s, hs, hse⟩ := h
    constructor
    · intro h'
      cases h'
    · intro hn
      exact absurd hse (hn s hs)
  · rename_i h
    exact ⟨fun _ s hs hse => h ⟨s, hs, hse⟩, fun _ => rfl⟩

/-- With nothing equivalent to `e` in it, `e` can join a set. -/
theorem no_two_insert {E : Finset α} (hE : ∀ a ∈ E, ∀ b ∈ E, a ≈ b → a = b) {e : α}
    (he : ∀ s ∈ E, ¬ s ≈ e) : ∀ a ∈ insert e E, ∀ b ∈ insert e E, a ≈ b → a = b := by
  intro a ha b hb hab
  rcases Finset.mem_insert.mp ha with rfl | ha' <;> rcases Finset.mem_insert.mp hb with rfl | hb'
  · rfl
  · exact absurd (Setoid.symm hab) (he b hb')
  · exact absurd hab (he a ha')
  · exact hE a ha' b hb' hab

theorem no_two_erase (S : EquivSet α) (s : α) :
    ∀ a ∈ S.elems.erase s, ∀ b ∈ S.elems.erase s, a ≈ b → a = b :=
  fun a ha b hb => S.no_two a (Finset.mem_of_mem_erase ha) b (Finset.mem_of_mem_erase hb)

/-- The only element equivalent to `e` gone, nothing left is. -/
theorem not_equiv_of_erase {S : EquivSet α} {e s : α} (h : S.lookup e = some s) :
    ∀ t ∈ S.elems.erase s, ¬ t ≈ e := by
  intro t ht hte
  obtain ⟨hs, hse⟩ := lookup_eq_some_iff.mp h
  exact Finset.ne_of_mem_erase ht
    (S.no_two t (Finset.mem_of_mem_erase ht) s hs (Setoid.trans hte (Setoid.symm hse)))

/-- Add `e` unless an element equivalent to it is present, which is then returned. -/
noncomputable def insert (S : EquivSet α) (e : α) : Option α × EquivSet α :=
  match h : S.lookup e with
  | some s => (some s, S)
  | none => (none, ⟨Insert.insert e S.elems, no_two_insert S.no_two (lookup_eq_none_iff.mp h)⟩)

/-- Put `e` in place of the element equivalent to it, which is returned, or add it. -/
noncomputable def replace (S : EquivSet α) (e : α) : Option α × EquivSet α :=
  match h : S.lookup e with
  | some s =>
    (some s, ⟨Insert.insert e (S.elems.erase s),
      no_two_insert (S.no_two_erase s) (not_equiv_of_erase h)⟩)
  | none => (none, ⟨Insert.insert e S.elems, no_two_insert S.no_two (lookup_eq_none_iff.mp h)⟩)

/-- Remove the element equivalent to `e`, which is returned. -/
noncomputable def delete (S : EquivSet α) (e : α) : Option α × EquivSet α :=
  match S.lookup e with
  | some s => (some s, ⟨S.elems.erase s, S.no_two_erase s⟩)
  | none => (none, S)

section Ops

variable {S : EquivSet α} {e s : α}

theorem insert_of_lookup_some (h : S.lookup e = some s) : S.insert e = (some s, S) := by
  unfold insert
  split <;> simp_all

theorem insert_of_lookup_none (h : S.lookup e = none) :
    (S.insert e).1 = none ∧ (S.insert e).2.elems = Insert.insert e S.elems := by
  unfold insert
  split <;> simp_all

theorem replace_of_lookup_some (h : S.lookup e = some s) :
    (S.replace e).1 = some s ∧ (S.replace e).2.elems = Insert.insert e (S.elems.erase s) := by
  unfold replace
  split <;> simp_all

theorem replace_of_lookup_none (h : S.lookup e = none) :
    (S.replace e).1 = none ∧ (S.replace e).2.elems = Insert.insert e S.elems := by
  unfold replace
  split <;> simp_all

theorem delete_of_lookup_some (h : S.lookup e = some s) :
    (S.delete e).1 = some s ∧ (S.delete e).2.elems = S.elems.erase s := by
  unfold delete
  rw [h]
  exact ⟨rfl, rfl⟩

theorem delete_of_lookup_none (h : S.lookup e = none) : S.delete e = (none, S) := by
  unfold delete
  rw [h]

/-- Nothing in the set is equivalent to an element that is not in it, when its equivalent is
absent. -/
theorem not_mem_of_lookup_none (h : S.lookup e = none) : e ∉ S.elems :=
  fun he => lookup_eq_none_iff.mp h e he (Setoid.refl e)

/-- An element equivalent to `e` is present only as `e`'s own equivalent. -/
theorem not_mem_erase_of_lookup_some (h : S.lookup e = some s) : e ∉ S.elems.erase s := by
  intro he
  exact not_equiv_of_erase h e he (Setoid.refl e)

end Ops

end EquivSet
