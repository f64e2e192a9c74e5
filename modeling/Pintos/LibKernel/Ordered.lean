import Mathlib.Data.List.SplitBy
import Pintos.Threads.List

/-!
# The ordered operations of `lib/kernel/list.c` on sequences

`list.h` asks of a `list_less_func` that it return true when `a` is less than `b` and false when
`a` is greater than or equal to `b`: `less` is the strict part of a total preorder, that is a
strict weak order.  Under that hypothesis, on element sequences:

* `listInsertOrdered_split` — `list_insert_ordered` into a sorted list puts the element after
  every element not greater than it and before the greater ones; `sortedBy_listInsertOrdered` —
  the list stays sorted;
* `listMax_split` — `list_max` returns an element that no later one exceeds and that exceeds
  every earlier one: the first maximum;
* `listUnique_eq_splitBy` — `list_unique` keeps the first element of each run of adjacent
  equivalent elements (`List.splitBy`) and hands the others on, in order;
* `sortPasses_spec` — the passes of `list_sort`, each merging adjacent runs pairwise, leave a
  sorted permutation of the input in which equal elements keep their order, and
  `sortPasses_isSome` — they finish after at most one pass more than the input has descents
  (`descents_lt_of_pass`: a pass that leaves two runs or more removes descents);
  `sortPasses_eq_listSort` — what they leave is the stable merge sort `listSort` with which the
  thread code models `list_sort`, a stable sort's result being determined
  (`eq_of_sortedBy_of_filter`).
-/

set_option autoImplicit false

namespace Pintos

variable {α : Type}

/-- Neither of `a` and `b` is `less` than the other: "equal according to LESS". -/
def lessEquiv (less : α → α → Bool) (a b : α) : Bool := !less a b && !less b a

/-- No element is `less` than one before it. -/
def SortedBy (less : α → α → Bool) (xs : List α) : Prop := xs.Pairwise fun a b => less b a = false

/-- The loop of `list_unique` on sequences: `elem` is the element kept last, each following one is
compared with it, and goes to the duplicates when equal to it. -/
def uniqueFrom (less : α → α → Bool) (elem : α) : List α → List α × List α
  | [] => ([], [])
  | next :: xs =>
    if !less elem next && !less next elem then
      let r := uniqueFrom less elem xs
      (r.1, next :: r.2)
    else
      let r := uniqueFrom less next xs
      (next :: r.1, r.2)

/-- `list_unique` on sequences: the elements kept, and those handed to `duplicates`. -/
def listUnique (less : α → α → Bool) : List α → List α × List α
  | [] => ([], [])
  | elem :: xs =>
    let r := uniqueFrom less elem xs
    (elem :: r.1, r.2)

/-- `list_insert_ordered` puts `x` before the first element it is `less` than. -/
theorem listInsertOrdered_eq_takeWhile (less : α → α → Bool) (x : α) : ∀ xs : List α,
    listInsertOrdered less x xs =
      xs.takeWhile (fun e => !less x e) ++ x :: xs.dropWhile (fun e => !less x e)
  | [] => rfl
  | e :: xs => by
    by_cases h : less x e = true
    · simp [listInsertOrdered, h]
    · simp [listInsertOrdered, h, listInsertOrdered_eq_takeWhile less x xs]

/-! ## Strict weak orders -/

section Order

variable {less : α → α → Bool} (hless : IsStrictWeakOrder α fun a b => less a b = true)
include hless

/-- The reversed comparison, that of `list_min`, is a strict weak order too. -/
theorem isStrictWeakOrder_swap : IsStrictWeakOrder α fun a b => less b a = true :=
  haveI := hless
  inferInstanceAs (IsStrictWeakOrder α (Function.swap fun a b => less a b = true))

theorem less_asymm {a b : α} (h : less a b = true) : less b a = false :=
  Bool.eq_false_iff.mpr fun h' => hless.irrefl a (hless.trans a b a h h')

/-- Negative transitivity: `a < c` puts every `b` above `a` or below `c`. -/
theorem less_or_less {a c : α} (h : less a c = true) (b : α) :
    less a b = true ∨ less b c = true := by
  by_contra hn
  rw [not_or] at hn
  have hba : ¬less b a = true := fun hba => hn.2 (hless.trans b a c hba h)
  have hcb : ¬less c b = true := fun hcb => hn.1 (hless.trans a c b h hcb)
  exact (hless.incomp_trans a b c ⟨hn.1, hba⟩ ⟨hn.2, hcb⟩).1 h

/-- Elements equal according to `less` compare alike with every other. -/
theorem lessEquiv_congr {a b : α} (hab : lessEquiv less a b = true) (c : α) :
    lessEquiv less a c = lessEquiv less b c := by
  simp only [lessEquiv, Bool.and_eq_true, Bool.not_eq_true'] at hab
  apply Bool.eq_iff_iff.mpr
  simp only [lessEquiv, Bool.and_eq_true, Bool.not_eq_true']
  constructor
  · intro hac
    have h := hless.incomp_trans b a c (by simp [hab.1, hab.2]) (by simp [hac.1, hac.2])
    simpa using h
  · intro hbc
    have h := hless.incomp_trans a b c (by simp [hab.1, hab.2]) (by simp [hbc.1, hbc.2])
    simpa using h

/-! ## `list_insert_ordered` -/

/-- `list_insert_ordered` into a sorted list puts `x` after the elements not greater than it and
before the greater ones. -/
theorem listInsertOrdered_split {x : α} : ∀ {xs : List α}, SortedBy less xs →
    ∃ u v, xs = u ++ v ∧ listInsertOrdered less x xs = u ++ x :: v ∧
      (∀ e ∈ u, less x e = false) ∧ ∀ e ∈ v, less x e = true
  | [], _ => ⟨[], [], rfl, rfl, by simp, by simp⟩
  | e :: xs, hs => by
    rw [SortedBy, List.pairwise_cons] at hs
    by_cases hxe : less x e = true
    · -- `x` goes first; the elements after `e` are not below `e`, hence above `x`
      refine ⟨[], e :: xs, rfl, by simp [listInsertOrdered, hxe], by simp, fun e' he' => ?_⟩
      rcases List.mem_cons.mp he' with rfl | he'
      · exact hxe
      · exact (less_or_less hless hxe e').resolve_right (by simp [hs.1 e' he'])
    · obtain ⟨u, v, rfl, hins, hu, hv⟩ := listInsertOrdered_split hs.2
      refine ⟨e :: u, v, rfl, by simp [listInsertOrdered, hxe, hins], ?_, hv⟩
      intro e' he'
      rcases List.mem_cons.mp he' with rfl | he'
      · simpa using hxe
      · exact hu e' he'

/-- `list_insert_ordered` keeps a list sorted. -/
theorem sortedBy_listInsertOrdered {x : α} {xs : List α} (hs : SortedBy less xs) :
    SortedBy less (listInsertOrdered less x xs) := by
  obtain ⟨u, v, rfl, hins, hu, hv⟩ := listInsertOrdered_split hless hs
  rw [SortedBy, List.pairwise_append] at hs
  rw [hins, SortedBy, List.pairwise_append, List.pairwise_cons]
  refine ⟨hs.1, ⟨fun e he => less_asymm hless (hv e he), hs.2.1⟩, fun a ha b hb => ?_⟩
  rcases List.mem_cons.mp hb with rfl | hb
  · exact hu a ha
  · exact hs.2.2 a ha b hb

/-! ## `list_max` -/

/-- The invariant of `list_max`'s loop: the candidate `a` comes after elements all less than it,
and before elements none of which it is less than. -/
theorem foldl_max_split : ∀ (l : List α) (a : α) (u w : List α), (∀ y ∈ u, less y a = true) →
    (∀ y ∈ w, less a y = false) →
    ∃ u' v', u ++ a :: w ++ l = u' ++ l.foldl (fun m e => if less m e then e else m) a :: v' ∧
      (∀ y ∈ u', less y (l.foldl (fun m e => if less m e then e else m) a) = true) ∧
      ∀ y ∈ v', less (l.foldl (fun m e => if less m e then e else m) a) y = false
  | [], a, u, w, hu, hw => ⟨u, w, by simp, hu, hw⟩
  | e :: l, a, u, w, hu, hw => by
    rw [List.foldl_cons]
    by_cases hae : less a e = true
    · -- `e` is the new candidate: everything so far is below it
      rw [if_pos hae]
      refine (foldl_max_split l e (u ++ a :: w) [] (fun y hy => ?_) (by simp)).imp
        fun u' h => h.imp fun v' h => ⟨?_, h.2⟩
      · rcases List.mem_append.mp hy with hy | hy
        · exact hless.trans y a e (hu y hy) hae
        · rcases List.mem_cons.mp hy with rfl | hy
          · exact hae
          · exact (less_or_less hless hae y).resolve_left (by simp [hw y hy])
      · rw [← h.1]
        simp
    · rw [if_neg hae]
      refine (foldl_max_split l a u (w ++ [e]) hu (fun y hy => ?_)).imp
        fun u' h => h.imp fun v' h => ⟨?_, h.2⟩
      · rcases List.mem_append.mp hy with hy | hy
        · exact hw y hy
        · rw [List.mem_singleton.mp hy]
          simpa using hae
      · rw [← h.1]
        simp

/-- `list_max` returns the first maximum: every element before it is less than it, and it is
less than none after it. -/
theorem listMax_split {xs : List α} {m : α} (h : listMax less xs = some m) :
    ∃ u v, xs = u ++ m :: v ∧ (∀ y ∈ u, less y m = true) ∧ ∀ y ∈ v, less m y = false := by
  cases xs with
  | nil => cases h
  | cons a l =>
    rw [listMax, Option.some.injEq] at h
    subst h
    simpa using foldl_max_split hless l a [] [] (by simp) (by simp)

/-! ## `list_unique` -/

/-- The loop of `list_unique` gives the same result whichever of two equal elements it keeps. -/
theorem uniqueFrom_congr {a b : α} (hab : lessEquiv less a b = true) :
    ∀ xs : List α, uniqueFrom less a xs = uniqueFrom less b xs
  | [] => rfl
  | y :: xs => by
    have hy := lessEquiv_congr hless hab y
    simp only [lessEquiv] at hy
    simp only [uniqueFrom, hy, uniqueFrom_congr hab xs]

end Order

/-! ## Runs -/

section Runs

variable {r : α → α → Bool}

/-- The first run of a list starts with its first element. -/
theorem exists_splitBy_cons (a : α) (xs : List α) :
    ∃ t gs, (a :: xs).splitBy r = (a :: t) :: gs := by
  obtain ⟨g, gs, hg⟩ : ∃ g gs, (a :: xs).splitBy r = g :: gs :=
    List.ne_nil_iff_exists_cons.mp (List.splitBy_ne_nil.mpr (List.cons_ne_nil a xs))
  have hgne : g ≠ [] := List.ne_nil_of_mem_splitBy (hg ▸ List.mem_cons_self)
  obtain ⟨c, t, rfl⟩ := List.ne_nil_iff_exists_cons.mp hgne
  have hc := List.head_head_splitBy r (List.cons_ne_nil a xs)
  simp only [hg, List.head_cons] at hc
  exact ⟨t, gs, hc ▸ hg⟩

/-- An element unrelated to the next starts a run of its own. -/
theorem splitBy_cons_cons_of_false {a b : α} (xs : List α) (hab : r a b = false) :
    (a :: b :: xs).splitBy r = [a] :: (b :: xs).splitBy r := by
  have h := List.splitBy_append_cons (l := [a]) (r := r) (a := b) xs (by simpa using hab)
  rw [List.splitBy_of_isChain (List.cons_ne_nil a []) (List.isChain_singleton a)] at h
  simpa using h

/-- An element related to the next joins its run. -/
theorem splitBy_cons_cons_of_true {a b : α} {xs t : List α} {gs : List (List α)}
    (hab : r a b = true) (hg : (b :: xs).splitBy r = (b :: t) :: gs) :
    (a :: b :: xs).splitBy r = (a :: b :: t) :: gs := by
  have hflat := List.flatten_splitBy r (b :: xs)
  have hnil := List.nil_notMem_splitBy r (b :: xs)
  have hlast := List.isChain_getLast_head_splitBy r (b :: xs)
  rw [hg] at hflat hnil hlast
  rw [List.splitBy_eq_iff]
  refine ⟨by simpa using hflat.symm, ?_, fun g hg' => ?_, ?_⟩
  · simpa using hnil
  · rcases List.mem_cons.mp hg' with rfl | hg'
    · have hbt := List.isChain_of_mem_splitBy (hg ▸ List.mem_cons_self : b :: t ∈ (b :: xs).splitBy r)
      exact List.IsChain.cons_cons hab hbt
    · exact List.isChain_of_mem_splitBy (hg ▸ List.mem_cons_of_mem _ hg')
  · -- the last element of the first run is that of `b :: t`
    cases gs with
    | nil => exact List.isChain_singleton _
    | cons g gs =>
      rw [List.isChain_cons_cons] at hlast ⊢
      refine ⟨?_, hlast.2⟩
      obtain ⟨hb, hg₁, h⟩ := hlast.1
      exact ⟨List.cons_ne_nil _ _, hg₁, by rwa [List.getLast_cons (List.cons_ne_nil b t)]⟩

section Order

variable {less : α → α → Bool} (hless : IsStrictWeakOrder α fun a b => less a b = true)
include hless

/-- The loop of `list_unique` hands on the runs of `elem :: xs` but their first elements, and
keeps the first elements of the runs after the first. -/
theorem uniqueFrom_eq_splitBy : ∀ (xs : List α) (elem : α) (t : List α) (gs : List (List α)),
    (elem :: xs).splitBy (lessEquiv less) = (elem :: t) :: gs →
      uniqueFrom less elem xs = (gs.flatMap (·.take 1), t ++ gs.flatMap (·.drop 1))
  | [], elem, t, gs, h => by
    rw [List.splitBy_of_isChain (List.cons_ne_nil elem []) (List.isChain_singleton elem)] at h
    simp only [List.cons.injEq] at h
    obtain ⟨⟨-, rfl⟩, rfl⟩ := h
    rfl
  | y :: xs, elem, t, gs, h => by
    obtain ⟨t', gs', hy⟩ := exists_splitBy_cons (r := lessEquiv less) y xs
    have ih := uniqueFrom_eq_splitBy xs y t' gs' hy
    by_cases he : lessEquiv less elem y = true
    · -- `y` is in `elem`'s run and goes to the duplicates
      rw [splitBy_cons_cons_of_true he hy, List.cons.injEq, List.cons.injEq] at h
      obtain ⟨⟨-, rfl⟩, rfl⟩ := h
      have he' : (!less elem y && !less y elem) = true := he
      simp only [uniqueFrom, he', if_true, uniqueFrom_congr hless he xs, ih, List.cons_append]
    · -- `y` starts the next run and is kept
      rw [splitBy_cons_cons_of_false xs (by simpa using he), hy, List.cons.injEq,
        List.cons.injEq] at h
      obtain ⟨⟨-, rfl⟩, rfl⟩ := h
      have he' : (!less elem y && !less y elem) = false := by simpa [lessEquiv] using he
      simp only [uniqueFrom, he', Bool.false_eq_true, if_false, ih]
      simp

/-- **`list_unique`** keeps the first element of each run of adjacent equal elements and hands
on the others, in order. -/
theorem listUnique_eq_splitBy (xs : List α) :
    listUnique less xs = ((xs.splitBy (lessEquiv less)).flatMap (·.take 1),
      (xs.splitBy (lessEquiv less)).flatMap (·.drop 1)) := by
  cases xs with
  | nil => rfl
  | cons elem xs =>
    obtain ⟨t, gs, h⟩ := exists_splitBy_cons (r := lessEquiv less) elem xs
    simp [listUnique, uniqueFrom_eq_splitBy hless xs elem t gs h, h]

end Order

end Runs

/-! ## `list_sort` -/

section MergeSort

variable (less : α → α → Bool)

/-- `b` may follow `a` in a run: `!less (b, a, aux)`, the test of `find_end_of_run` and of
`inplace_merge`. -/
def inOrder (a b : α) : Bool := !less b a

/-- The runs of one pass of `list_sort`, as `find_end_of_run` finds them: maximal stretches in
which no element is `less` than the one before it. -/
def sortRuns (xs : List α) : List (List α) := xs.splitBy (inOrder less)

/-- One pass of `list_sort` on its runs: adjacent runs merged pairwise, the first run's elements
taken first unless the second's is `less`, and a last run without a partner left as it is. -/
def mergePairs : List (List α) → List (List α)
  | r₁ :: r₂ :: rs => r₁.merge r₂ (inOrder less) :: mergePairs rs
  | rs => rs

/-- The passes of `list_sort`: until one outputs at most one run, for at most `passes`
passes; `none` once they run out. -/
def sortPasses : Nat → List α → Option (List α)
  | 0, _ => none
  | passes + 1, xs =>
    if 1 < (mergePairs less (sortRuns less xs)).length then
      sortPasses passes (mergePairs less (sortRuns less xs)).flatten
    else some (mergePairs less (sortRuns less xs)).flatten

/-- The adjacent pairs out of order: a run ends at each. -/
def descents : List α → Nat
  | a :: b :: xs => (if less b a then 1 else 0) + descents (b :: xs)
  | _ => 0

section
-- the equation lemmas, generated once here rather than by each proof below that unfolds
-- these definitions
attribute [local simp] mergePairs descents lessEquiv inOrder
end

variable {less}

/-! ### Counting runs -/

/-- A list with one element more than its descents has that many runs. -/
theorem length_sortRuns : ∀ (xs : List α), xs ≠ [] →
    (sortRuns less xs).length = descents less xs + 1
  | [], h => absurd rfl h
  | [a], _ => by
    simp [sortRuns, List.splitBy_of_isChain (List.cons_ne_nil a []) (List.isChain_singleton a),
      descents]
  | a :: b :: xs, _ => by
    have ih := length_sortRuns (b :: xs) (List.cons_ne_nil b xs)
    obtain ⟨t, gs, hg⟩ := exists_splitBy_cons (r := inOrder less) b xs
    unfold sortRuns at ih ⊢
    by_cases hba : less b a = true
    · -- `b` starts a run
      rw [splitBy_cons_cons_of_false xs (by simp [inOrder, hba])]
      simp only [List.length_cons, ih, descents, hba, if_true]
      omega
    · rw [splitBy_cons_cons_of_true (by simpa [inOrder] using hba) hg]
      rw [hg] at ih
      simp only [List.length_cons, descents, hba, Bool.false_eq_true, if_false] at ih ⊢
      omega

/-- No descent in a sorted list. -/
theorem descents_eq_zero : ∀ {xs : List α}, SortedBy less xs → descents less xs = 0
  | [], _ => rfl
  | [_], _ => rfl
  | a :: b :: xs, h => by
    rw [SortedBy, List.pairwise_cons] at h
    have hba : less b a = false := h.1 b List.mem_cons_self
    simp [descents, hba, descents_eq_zero h.2]

/-- Joining two lists adds at most the descent at the seam. -/
theorem descents_append_le : ∀ (u v : List α),
    descents less (u ++ v) ≤ descents less u + 1 + descents less v
  | [], v => by simp [descents]
  | [a], [] => by simp [descents]
  | [a], b :: v => by
    simp only [List.cons_append, List.nil_append, descents]
    split <;> omega
  | a :: b :: u, v => by
    have ih := descents_append_le (b :: u) v
    simp only [List.cons_append, descents] at ih ⊢
    omega

/-- The descents of sorted lists joined: at most one at each seam. -/
theorem descents_flatten_le : ∀ (rs : List (List α)), (∀ r ∈ rs, SortedBy less r) →
    descents less rs.flatten ≤ rs.length - 1
  | [], _ => by simp [descents]
  | [r], h => by simp [descents_eq_zero (h r List.mem_cons_self)]
  | r :: r' :: rs, h => by
    have ih := descents_flatten_le (r' :: rs) fun s hs => h s (List.mem_cons_of_mem r hs)
    have hr := descents_eq_zero (h r List.mem_cons_self)
    have happ : descents less (r ++ (r' :: rs).flatten) ≤ _ := descents_append_le r _
    rw [List.flatten_cons]
    simp only [List.length_cons] at ih ⊢
    omega

theorem length_mergePairs : ∀ rs : List (List α),
    (mergePairs less rs).length = (rs.length + 1) / 2
  | [] => by simp [mergePairs]
  | [_] => by simp [mergePairs]
  | _ :: _ :: rs => by
    simp only [mergePairs, List.length_cons, length_mergePairs rs]
    omega

/-- A pass keeps the elements. -/
theorem flatten_mergePairs_perm : ∀ rs : List (List α),
    (mergePairs less rs).flatten.Perm rs.flatten
  | [] => .rfl
  | [_] => .rfl
  | r₁ :: r₂ :: rs => by
    simp only [mergePairs, List.flatten_cons, ← List.append_assoc]
    exact (List.merge_perm_append _).append (flatten_mergePairs_perm rs)

/-- The runs after the first are the runs of what follows it. -/
theorem sortRuns_flatten_tail {xs g : List α} {gs : List (List α)} (h : sortRuns less xs = g :: gs) :
    sortRuns less gs.flatten = gs := by
  obtain ⟨-, hn, hc, hc'⟩ := List.splitBy_eq_iff.mp h
  exact List.splitBy_eq_iff.mpr ⟨rfl, fun h' => hn (List.mem_cons_of_mem g h'),
    fun r hr => hc r (List.mem_cons_of_mem g hr), hc'.tail⟩

/-- A run is a run of its own. -/
theorem sortRuns_of_mem {xs r : List α} (h : r ∈ sortRuns less xs) : sortRuns less r = [r] :=
  List.splitBy_of_isChain (List.ne_nil_of_mem_splitBy h) (List.isChain_of_mem_splitBy h)

theorem descents_le_length : ∀ xs : List α, descents less xs ≤ xs.length
  | [] => Nat.le_refl 0
  | [_] => Nat.zero_le 1
  | a :: b :: xs => by
    have ih := descents_le_length (b :: xs)
    simp only [descents, List.length_cons] at ih ⊢
    split <;> omega

theorem sortedBy_iff_inOrder {xs : List α} :
    SortedBy less xs ↔ xs.Pairwise fun a b => inOrder less a b = true := by
  simp [SortedBy, inOrder]

/-- A sorted list is one run. -/
theorem sortRuns_of_sortedBy {xs : List α} (h0 : xs ≠ []) (h : SortedBy less xs) :
    sortRuns less xs = [xs] :=
  List.splitBy_of_isChain h0 (sortedBy_iff_inOrder.mp h).isChain

/-! ### Order -/

section Order

variable (hless : IsStrictWeakOrder α fun a b => less a b = true)
include hless

theorem inOrder_trans (a b c : α) (hab : inOrder less a b = true) (hbc : inOrder less b c = true) :
    inOrder less a c = true := by
  simp only [inOrder, Bool.not_eq_eq_eq_not, Bool.not_true] at hab hbc ⊢
  apply Bool.eq_false_iff.mpr
  intro hca
  rcases less_or_less hless hca b with hcb | hba
  · simp [hcb] at hbc
  · simp [hba] at hab

theorem inOrder_total (a b : α) : (inOrder less a b || inOrder less b a) = true := by
  by_cases hba : less b a = true
  · simp [inOrder, less_asymm hless hba]
  · simp [inOrder, hba]

/-- A run is sorted. -/
theorem sortedBy_of_mem_sortRuns {xs r : List α} (hr : r ∈ sortRuns less xs) : SortedBy less r := by
  have : Trans (fun a b => inOrder less a b = true) (fun a b => inOrder less a b = true)
      (fun a b => inOrder less a b = true) := ⟨inOrder_trans hless _ _ _⟩
  exact sortedBy_iff_inOrder.mpr (List.isChain_iff_pairwise.mp (List.isChain_of_mem_splitBy hr))

/-- Merging two sorted runs gives a sorted run. -/
theorem sortedBy_merge {r₁ r₂ : List α} (h₁ : SortedBy less r₁) (h₂ : SortedBy less r₂) :
    SortedBy less (r₁.merge r₂ (inOrder less)) :=
  sortedBy_iff_inOrder.mpr (List.pairwise_merge (inOrder_trans hless) (inOrder_total hless)
    r₁ r₂ (sortedBy_iff_inOrder.mp h₁) (sortedBy_iff_inOrder.mp h₂))

/-- **The merge is stable**: the elements equal to `x` come out of the first run first, each
run's in their order.  A second-run element is taken only when it is `less` than the first run's
next, hence than all that remain of the first run, none of which is then equal to it. -/
theorem filter_merge (x : α) {r₁ : List α} (h₁ : SortedBy less r₁) (r₂ : List α) :
    (r₁.merge r₂ (inOrder less)).filter (lessEquiv less x) =
      r₁.filter (lessEquiv less x) ++ r₂.filter (lessEquiv less x) := by
  induction r₁ generalizing r₂ with
  | nil => simp
  | cons a r₁ ih₁ =>
    induction r₂ with
    | nil => simp
    | cons b r₂ ih₂ =>
      rw [List.cons_merge_cons]
      by_cases hab : inOrder less a b = true
      · rw [if_pos hab, List.filter_cons, List.filter_cons (x := a), ih₁ h₁.tail]
        split <;> simp
      · rw [if_neg hab, List.filter_cons, ih₂, List.filter_cons (x := b)]
        have hba : less b a = true := by simpa [inOrder] using hab
        -- nothing equal to `b` is left of the first run
        have hnone : (a :: r₁).filter (lessEquiv less x) = [] ∨ lessEquiv less x b = false := by
          by_cases hxb : lessEquiv less x b = true
          · left
            rw [List.filter_eq_nil_iff]
            intro c hc hxc
            have hbc : lessEquiv less b c = true := (lessEquiv_congr hless hxb c) ▸ hxc
            have hca : less c a = false := by
              rcases List.mem_cons.mp hc with rfl | hc
              · exact Bool.eq_false_iff.mpr (hless.irrefl c)
              · exact (List.pairwise_cons.mp h₁).1 c hc
            rcases less_or_less hless hba c with hbc' | hca'
            · simp [lessEquiv, hbc'] at hbc
            · simp [hca'] at hca
          · exact .inr (by simpa using hxb)
        rcases hnone with hnone | hxb
        · rw [hnone]
          split <;> simp
        · simp [hxb]

/-- The runs a pass outputs are sorted. -/
theorem sortedBy_of_mem_mergePairs : ∀ {rs : List (List α)}, (∀ r ∈ rs, SortedBy less r) →
    ∀ r ∈ mergePairs less rs, SortedBy less r
  | [], _ => by simp [mergePairs]
  | [r], h => by simpa [mergePairs] using h
  | r₁ :: r₂ :: rs, h => by
    intro r hr
    rcases List.mem_cons.mp hr with rfl | hr
    · exact sortedBy_merge hless (h r₁ (by simp)) (h r₂ (by simp))
    · exact sortedBy_of_mem_mergePairs (fun s hs => h s (by simp [hs])) r hr

/-- A pass keeps the order of the elements equal to any `x`. -/
theorem filter_flatten_mergePairs (x : α) : ∀ {rs : List (List α)}, (∀ r ∈ rs, SortedBy less r) →
    (mergePairs less rs).flatten.filter (lessEquiv less x) = rs.flatten.filter (lessEquiv less x)
  | [], _ => rfl
  | [_], _ => rfl
  | r₁ :: r₂ :: rs, h => by
    have ih := filter_flatten_mergePairs x (show ∀ s ∈ rs, SortedBy less s from
      fun s hs => h s (by simp [hs]))
    simp only [mergePairs, List.flatten_cons, List.filter_append, ih,
      filter_merge hless x (h r₁ (by simp)), List.append_assoc]

/-- A pass that outputs two runs or more leaves fewer descents than it found: it found at least
three runs, and outputs half as many, rounded up, each sorted. -/
theorem descents_lt_of_pass {xs : List α} (h : 1 < (mergePairs less (sortRuns less xs)).length) :
    descents less (mergePairs less (sortRuns less xs)).flatten < descents less xs := by
  have hout := descents_flatten_le _ (sortedBy_of_mem_mergePairs hless
    fun r (hr : r ∈ sortRuns less xs) => sortedBy_of_mem_sortRuns hless hr)
  rw [length_mergePairs] at h hout
  have hxs : xs ≠ [] := by
    rintro rfl
    simp [sortRuns] at h
  rw [length_sortRuns xs hxs] at h hout
  omega

/-- **`list_sort` on sequences** sorts, keeps the elements, and keeps the order of equal ones. -/
theorem sortPasses_spec : ∀ {passes : Nat} {xs ys : List α}, sortPasses less passes xs = some ys →
    ys.Perm xs ∧ SortedBy less ys ∧ ∀ x, ys.filter (lessEquiv less x) = xs.filter (lessEquiv less x)
  | 0, _, _, h => by simp [sortPasses] at h
  | passes + 1, xs, ys, h => by
    have hruns : ∀ r ∈ sortRuns less xs, SortedBy less r := fun r hr => sortedBy_of_mem_sortRuns hless hr
    have hperm : (mergePairs less (sortRuns less xs)).flatten.Perm xs := by
      simpa [sortRuns, List.flatten_splitBy] using
        (flatten_mergePairs_perm (sortRuns less xs) : (mergePairs less _).flatten.Perm _)
    have hfilter : ∀ x, (mergePairs less (sortRuns less xs)).flatten.filter (lessEquiv less x) =
        xs.filter (lessEquiv less x) := fun x => by
      simpa [sortRuns, List.flatten_splitBy] using filter_flatten_mergePairs hless x hruns
    rw [sortPasses] at h
    split at h
    · -- another pass
      obtain ⟨hp, hs, hf⟩ := sortPasses_spec h
      exact ⟨hp.trans hperm, hs, fun x => (hf x).trans (hfilter x)⟩
    · -- the last pass output one run at most
      rename_i hone
      cases h
      refine ⟨hperm, ?_, hfilter⟩
      have hsorted := sortedBy_of_mem_mergePairs hless hruns
      generalize mergePairs less (sortRuns less xs) = out at hone hsorted
      match out, hone with
      | [], _ => exact List.Pairwise.nil
      | [r], _ => simpa using hsorted r (by simp)
      | _ :: _ :: _, hone => simp at hone

/-- With more passes than descents, `list_sort` finishes. -/
theorem sortPasses_isSome : ∀ {passes : Nat} {xs : List α}, descents less xs < passes →
    (sortPasses less passes xs).isSome
  | 0, _, h => absurd h (Nat.not_lt_zero _)
  | passes + 1, xs, h => by
    rw [sortPasses]
    split
    · rename_i hmore
      exact sortPasses_isSome (by have := descents_lt_of_pass hless hmore; omega)
    · rfl


/-! ### The stable sort -/

/-- Elements equal to a common `x` are in order among themselves, whatever their order. -/
theorem pairwise_filter_lessEquiv (x : α) (xs : List α) :
    (xs.filter (lessEquiv less x)).Pairwise fun a b => inOrder less a b = true := by
  rw [List.pairwise_filter]
  refine List.pairwise_of_forall fun a b hxa hxb => ?_
  have hab : lessEquiv less a b = true := (lessEquiv_congr hless hxa b) ▸ hxb
  simp only [lessEquiv, Bool.and_eq_true] at hab
  exact hab.2

/-- Merge sort keeps the order of the elements equal to any `x`: they are a sorted sublist of
its input. -/
theorem filter_mergeSort (x : α) (xs : List α) :
    (xs.mergeSort (inOrder less)).filter (lessEquiv less x) = xs.filter (lessEquiv less x) := by
  have hsub : (xs.filter (lessEquiv less x)).Sublist (xs.mergeSort (inOrder less)) :=
    List.sublist_mergeSort (inOrder_trans hless) (inOrder_total hless)
      (pairwise_filter_lessEquiv hless x xs) List.filter_sublist
  have hsub' := hsub.filter (lessEquiv less x)
  simp only [List.filter_filter, Bool.and_self] at hsub'
  exact (hsub'.eq_of_length ((List.mergeSort_perm xs _).filter _).length_eq.symm).symm

/-- Two sorted lists with the same elements, in which the elements equal to any `x` come in the
same order, are equal: the result of a stable sort is determined. -/
theorem eq_of_sortedBy_of_filter : ∀ {ys zs : List α}, ys.Perm zs → SortedBy less ys →
    SortedBy less zs → (∀ x, ys.filter (lessEquiv less x) = zs.filter (lessEquiv less x)) → ys = zs
  | [], _, hp, _, _, _ => hp.nil_eq
  | _ :: _, [], hp, _, _, _ => hp.eq_nil
  | y :: ys, z :: zs, hp, hy, hz, hf => by
    -- `y` and `z` are both least, hence equal, and each is the first of its class
    have hleast : ∀ {a b : α} {l : List α}, SortedBy less (a :: l) → b ∈ a :: l → less b a = false :=
      fun {a b l} h hb => by
        rcases List.mem_cons.mp hb with rfl | hb
        · exact Bool.eq_false_iff.mpr (hless.irrefl b)
        · exact (List.pairwise_cons.mp h).1 b hb
    have hzy := hleast hy (hp.mem_iff.mpr List.mem_cons_self)
    have hyz := hleast hz (hp.mem_iff.mp List.mem_cons_self)
    have hyy : lessEquiv less y y = true := by simp [lessEquiv, Bool.eq_false_iff.mpr (hless.irrefl y)]
    have hyz' : lessEquiv less y z = true := by simp [lessEquiv, hyz, hzy]
    have hfy := hf y
    rw [List.filter_cons_of_pos hyy, List.filter_cons_of_pos hyz', List.cons.injEq] at hfy
    obtain rfl := hfy.1
    have htail : ∀ x, ys.filter (lessEquiv less x) = zs.filter (lessEquiv less x) := fun x => by
      have hfx := hf x
      rw [List.filter_cons, List.filter_cons] at hfx
      split at hfx
      · exact List.cons.inj hfx |>.2
      · exact hfx
    rw [eq_of_sortedBy_of_filter hp.cons_inv hy.tail hz.tail htail]

/-- `listSort`, the merge sort of the thread code, is a stable sort: it sorts, keeps the
elements, and keeps the order of equal ones. -/
theorem listSort_stable_sort (xs : List α) :
    (listSort less xs).Perm xs ∧ SortedBy less (listSort less xs) ∧
      ∀ x, (listSort less xs).filter (lessEquiv less x) = xs.filter (lessEquiv less x) :=
  ⟨List.mergeSort_perm xs _,
    sortedBy_iff_inOrder.mpr (List.pairwise_mergeSort (inOrder_trans hless) (inOrder_total hless) xs),
    fun x => filter_mergeSort hless x xs⟩

/-- **The passes of `list_sort` compute `listSort`**, the stable merge sort with which the
thread code models `list_sort`. -/
theorem sortPasses_eq_listSort {passes : Nat} {xs ys : List α}
    (h : sortPasses less passes xs = some ys) : ys = listSort less xs := by
  obtain ⟨hp, hs, hf⟩ := sortPasses_spec hless h
  obtain ⟨hp', hs', hf'⟩ := listSort_stable_sort hless xs
  exact eq_of_sortedBy_of_filter hless (hp.trans hp'.symm) hs hs' fun x => (hf x).trans (hf' x).symm

end Order

end MergeSort

end Pintos
