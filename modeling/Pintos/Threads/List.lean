import Mathlib

/-!
# `lib/kernel/list.c` on element sequences

The kernel's intrusive doubly-linked lists are modelled by the sequence of their elements,
front first.  Only the operations the thread and synchronisation code use are here:

* `list_push_back` is `l ++ [x]`, `list_pop_front` the head and tail, `list_pop_back` the last
  element and `dropLast`, and `list_remove (e)` of an element found by a search is `List.erase`
  (the search below always finds the earliest element with a given key, so erasing the first
  occurrence of that value removes exactly the element the search returned);
* `listMax` — `list_max`: scan from the front, replacing the candidate whenever
  `less (max, e)`; of several maxima the earliest is returned;
* `listInsertOrdered` — `list_insert_ordered`: insert before the first `e` with `less (elem, e)`;
* `listSort` — `list_sort`, a sort by `less` that keeps equivalent elements in order.

`listMax_eq_argmax` identifies `listMax` under a strict key order with Mathlib's
`List.argmax`, whose lemmas the kernel proofs then use.
-/

set_option autoImplicit false

namespace Pintos

variable {α : Type}

/-- `list_max`. -/
def listMax (less : α → α → Bool) : List α → Option α
  | [] => none
  | a :: l => some (l.foldl (fun m e => if less m e then e else m) a)

/-- `list_insert_ordered`. -/
def listInsertOrdered (less : α → α → Bool) (x : α) : List α → List α
  | [] => [x]
  | e :: l => if less x e then x :: e :: l else e :: listInsertOrdered less x l

/-- `list_sort`: stable sort into nondecreasing order by `less`. -/
def listSort (less : α → α → Bool) (l : List α) : List α :=
  l.mergeSort (fun a b => !less b a)

@[simp] theorem listMax_nil (less : α → α → Bool) : listMax less [] = none := rfl

theorem listMax_eq_none {less : α → α → Bool} {l : List α} : listMax less l = none ↔ l = [] := by
  cases l <;> simp [listMax]

theorem foldl_argAux_some (key : α → Int) :
    ∀ (l : List α) (a : α), l.foldl (List.argAux fun b c => key c < key b) (some a) =
      some (l.foldl (fun m e => if decide (key m < key e) then e else m) a)
  | [], _ => rfl
  | e :: l, a => by
    simp only [List.foldl_cons, List.argAux]
    by_cases h : key a < key e
    · simp only [h, if_true, decide_true]; exact foldl_argAux_some key l e
    · simp only [h, if_false, decide_false, Bool.false_eq_true]; exact foldl_argAux_some key l a

/-- Under a strict key order, `list_max` is Mathlib's `List.argmax`. -/
theorem listMax_eq_argmax (key : α → Int) (l : List α) :
    listMax (fun a b => decide (key a < key b)) l = l.argmax key := by
  cases l with
  | nil => rfl
  | cons a l =>
    simp only [listMax, List.argmax, List.foldl_cons, List.argAux]
    exact (foldl_argAux_some key l a).symm

section Key

variable {key : α → Int} {l : List α} {m : α}

theorem listMax_mem (h : listMax (fun a b => decide (key a < key b)) l = some m) : m ∈ l := by
  rw [listMax_eq_argmax] at h
  exact List.argmax_mem h

theorem le_listMax (h : listMax (fun a b => decide (key a < key b)) l = some m) {a : α}
    (ha : a ∈ l) : key a ≤ key m := by
  rw [listMax_eq_argmax] at h
  exact List.le_of_mem_argmax ha h

/-- Of several maxima `list_max` returns the earliest. -/
theorem idxOf_listMax_le [DecidableEq α] (h : listMax (fun a b => decide (key a < key b)) l = some m)
    {a : α} (ha : a ∈ l) (hle : key m ≤ key a) : l.idxOf m ≤ l.idxOf a := by
  rw [listMax_eq_argmax] at h
  exact List.index_of_argmax h ha hle

theorem listMax_isSome (hl : l ≠ []) :
    ∃ m, listMax (fun a b => decide (key a < key b)) l = some m := by
  cases hm : listMax (fun a b => decide (key a < key b)) l with
  | none => exact absurd (listMax_eq_none.mp hm) hl
  | some m => exact ⟨m, rfl⟩

end Key

theorem mem_listInsertOrdered {less : α → α → Bool} {x : α} :
    ∀ {l : List α} {y : α}, y ∈ listInsertOrdered less x l ↔ y = x ∨ y ∈ l
  | [], y => by simp [listInsertOrdered]
  | e :: l, y => by
    unfold listInsertOrdered
    split
    · simp
    · simp only [List.mem_cons, mem_listInsertOrdered]; tauto

theorem listInsertOrdered_perm (less : α → α → Bool) (x : α) :
    ∀ l : List α, (listInsertOrdered less x l).Perm (x :: l)
  | [] => List.Perm.refl _
  | e :: l => by
    unfold listInsertOrdered
    split
    · exact List.Perm.refl _
    · exact ((listInsertOrdered_perm less x l).cons e).trans (List.Perm.swap x e l)

end Pintos
