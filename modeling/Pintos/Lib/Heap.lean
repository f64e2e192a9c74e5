import Mathlib.Logic.Equiv.Basic
import Mathlib.Order.Defs.Unbundled
import Mathlib.Tactic.Set

/-!
# Heap sort over a 1-based array

A generic account of the in-place heap sort that C libraries write over an array with 1-based
indices. The array is a function `a : ℕ → α` whose elements sit at `1, …, n`; the children of
`i` are `2i` and `2i + 1`; elements are compared by a decidable total preorder `le` ("at or
before"), the order a strcmp-style comparison describes (`CmpPreorder`).

* `siftDown a i n` floats `a i` down the heap on `1, …, n`, swapping it with its largest child
  while that child is after it; `buildHeap` sifts `k, k - 1, …, 1`; `sortHeap` swaps the root to
  the end of a heap that shrinks by one each round; `heapSort` is the two loops.
* `PermOn lo hi b a`: `b` is `a` with the indices `lo, …, hi` permuted among themselves.

## Results

* `siftDown_heapFrom`, `siftDown_permOn` — sifting `i` down a heap below `i` gives a heap from
  `i`, by the invariant `SiftOrder` (`SiftOrder.swap` is one round, `SiftOrder.finish` the end).
* `buildHeap_heapFrom`, `sortHeap_sorted` — the two loops, the second by the invariant `Sorting`.
* `heapSort_sorted`, `heapSort_permOn` — heap sort orders `1, …, n` and only permutes them.
* `PermOn.map_range'_perm`, `Sorted.pairwise` — the same two facts for the list of elements.
* `CmpPreorder.lt_of_lt_of_le`, `CmpPreorder.pos_of_le_of_pos` — what a search in a sorted
  array concludes from one comparison with the key.
-/

set_option autoImplicit false

namespace Heap

variable {α : Type*}

/-! ## Permutations of an index range -/

/-- `b` is `a` with the indices `lo, …, hi` permuted among themselves. -/
def PermOn (lo hi : ℕ) (b a : ℕ → α) : Prop :=
  ∃ σ : Equiv.Perm ℕ, (∀ k, σ k ≠ k → lo ≤ k ∧ k ≤ hi) ∧ b = a ∘ σ

/-- A permutation that moves only `lo, …, hi` maps that range into itself. -/
theorem perm_mem_of_support {lo hi : ℕ} {σ : Equiv.Perm ℕ} (hσ : ∀ k, σ k ≠ k → lo ≤ k ∧ k ≤ hi)
    {k : ℕ} (hk : lo ≤ k ∧ k ≤ hi) : lo ≤ σ k ∧ σ k ≤ hi := by
  by_cases h : σ (σ k) = σ k
  · rw [σ.injective h]
    exact hk
  · exact hσ _ h

namespace PermOn

variable {lo hi : ℕ} {a b c : ℕ → α}

theorem refl (a : ℕ → α) : PermOn lo hi a a :=
  ⟨Equiv.refl ℕ, fun _ h => absurd rfl h, rfl⟩

theorem trans (hcb : PermOn lo hi c b) (hba : PermOn lo hi b a) : PermOn lo hi c a := by
  obtain ⟨τ, hτ, rfl⟩ := hcb
  obtain ⟨σ, hσ, rfl⟩ := hba
  refine ⟨τ.trans σ, fun k hk => ?_, rfl⟩
  by_cases h : τ k = k
  · exact hσ k (by simpa [h] using hk)
  · exact hτ k h

theorem swap {i j : ℕ} (hmi : lo ≤ i ∧ i ≤ hi) (hmj : lo ≤ j ∧ j ≤ hi) (a : ℕ → α) :
    PermOn lo hi (a ∘ Equiv.swap i j) a := by
  refine ⟨Equiv.swap i j, fun k hk => ?_, rfl⟩
  by_cases hki : k = i
  · exact hki ▸ hmi
  by_cases hkj : k = j
  · exact hkj ▸ hmj
  exact absurd (Equiv.swap_apply_of_ne_of_ne hki hkj) hk

theorem mono {lo' hi' : ℕ} (h : PermOn lo hi b a) (hlo : lo' ≤ lo) (hhi : hi ≤ hi') :
    PermOn lo' hi' b a := by
  obtain ⟨σ, hσ, rfl⟩ := h
  exact ⟨σ, fun k hk => ⟨Nat.le_trans hlo (hσ k hk).1, Nat.le_trans (hσ k hk).2 hhi⟩, rfl⟩

/-- Outside `lo, …, hi` nothing moves. -/
theorem apply_of_not_mem (h : PermOn lo hi b a) {k : ℕ} (hk : k < lo ∨ hi < k) : b k = a k := by
  obtain ⟨σ, hσ, rfl⟩ := h
  have hfix : σ k = k := by
    by_contra hne
    have := hσ k hne
    omega
  simp [hfix]

/-- Every element at `lo, …, hi` in `b` is an element at `lo, …, hi` in `a`. -/
theorem exists_eq (h : PermOn lo hi b a) {k : ℕ} (hk : lo ≤ k ∧ k ≤ hi) :
    ∃ k', (lo ≤ k' ∧ k' ≤ hi) ∧ b k = a k' := by
  obtain ⟨σ, hσ, rfl⟩ := h
  exact ⟨σ k, perm_mem_of_support hσ hk, rfl⟩

/-- The elements at `lo, …, hi` of `b`, in order, are a permutation of those of `a`. -/
theorem map_range'_perm (h : PermOn lo hi b a) :
    ((List.range' lo (hi + 1 - lo)).map b).Perm ((List.range' lo (hi + 1 - lo)).map a) := by
  obtain ⟨σ, hσ, rfl⟩ := h
  rw [← List.map_map]
  have hnodup : ((List.range' lo (hi + 1 - lo)).map σ).Nodup :=
    List.Pairwise.map σ (fun _ _ h => σ.injective.ne h) List.nodup_range'
  refine List.Perm.map a ((List.perm_ext_iff_of_nodup hnodup List.nodup_range').2 fun k => ?_)
  simp only [List.mem_map, List.mem_range'_1]
  constructor
  · rintro ⟨j, hj, rfl⟩
    have := perm_mem_of_support hσ (k := j) ⟨hj.1, by omega⟩
    omega
  · intro hk
    -- `σ.symm k` is moved by `σ` unless it is `k` itself
    have hj : lo ≤ σ.symm k ∧ σ.symm k ≤ hi := by
      by_cases hfix : σ (σ.symm k) = σ.symm k
      · rw [Equiv.apply_symm_apply] at hfix
        rw [← hfix]
        omega
      · exact hσ _ hfix
    exact ⟨σ.symm k, ⟨hj.1, by omega⟩, by simp⟩

end PermOn

/-! ## Three-way comparisons -/

/-- A strcmp-style comparison whose sign is that of a total preorder: `cmp x y` is negative,
zero or positive as `x` is before, level with or after `y`. -/
structure CmpPreorder (cmp : α → α → ℤ) : Prop where
  neg_iff : ∀ x y, cmp x y < 0 ↔ 0 < cmp y x
  trans : ∀ x y z, cmp x y ≤ 0 → cmp y z ≤ 0 → cmp x z ≤ 0

namespace CmpPreorder

variable {cmp : α → α → ℤ}

theorem total (h : CmpPreorder cmp) (x y : α) : cmp x y ≤ 0 ∨ cmp y x ≤ 0 := by
  by_contra hxy
  have hyx : cmp y x < 0 := (h.neg_iff y x).2 (by omega)
  omega

theorem isTotal (h : CmpPreorder cmp) : Std.Total (fun x y : α => cmp x y ≤ 0) := ⟨h.total⟩

theorem isTrans (h : CmpPreorder cmp) : IsTrans α (fun x y => cmp x y ≤ 0) :=
  ⟨fun x y z => h.trans x y z⟩

/-- A key before `x` is before everything at or after `x`. -/
theorem lt_of_lt_of_le (h : CmpPreorder cmp) {k x y : α} (hkx : cmp k x < 0) (hxy : cmp x y ≤ 0) :
    cmp k y < 0 := by
  by_contra hky
  have hyk : cmp y k ≤ 0 := by
    have := (h.neg_iff k y).not.1 hky
    omega
  have hxk : ¬ 0 < cmp x k := by
    have := h.trans x y k hxy hyk
    omega
  exact hxk ((h.neg_iff k x).1 hkx)

/-- A key after `y` is after everything at or before `y`. -/
theorem pos_of_le_of_pos (h : CmpPreorder cmp) {k x y : α} (hxy : cmp x y ≤ 0) (hky : 0 < cmp k y) :
    0 < cmp k x := by
  by_contra hkx
  have := h.trans k x y (by omega) hxy
  omega

end CmpPreorder

/-! ## Heaps on `1, …, n` -/

section Sift

variable (le : α → α → Prop) [DecidableRel le]

/-- `j` if it is in the heap `1, …, n` and its element is after that of `i`, else `i`. -/
def pick (a : ℕ → α) (n i j : ℕ) : ℕ := if j ≤ n ∧ ¬ le (a j) (a i) then j else i

/-- The largest of `a i` and its children in the heap `1, …, n`; `i` on a tie. -/
def largest (a : ℕ → α) (n i : ℕ) : ℕ := pick le a n (pick le a n i (2 * i)) (2 * i + 1)

theorem pick_cases (a : ℕ → α) (n i j : ℕ) : pick le a n i j = i ∨ pick le a n i j = j := by
  unfold pick
  split_ifs
  · exact .inr rfl
  · exact .inl rfl

theorem largest_cases (a : ℕ → α) (n i : ℕ) :
    largest le a n i = i ∨
      (largest le a n i = 2 * i ∨ largest le a n i = 2 * i + 1) ∧ largest le a n i ≤ n := by
  unfold largest pick
  split_ifs <;> omega

/-- Float `a i` down the heap `1, …, n`: swap it with its largest child while that child is
after it. -/
def siftDown (a : ℕ → α) (i n : ℕ) : ℕ → α :=
  if largest le a n i = i then a
  else siftDown (a ∘ Equiv.swap i (largest le a n i)) (largest le a n i) n
termination_by n + 1 - i
decreasing_by have := largest_cases le a n i; omega

/-- Every element of `1, …, n` whose parent is at `i` or beyond is at or before its parent. -/
def HeapFrom (a : ℕ → α) (i n : ℕ) : Prop := ∀ c, 2 * i ≤ c → c ≤ n → le (a c) (a (c / 2))

/-- `1, …, n` in order. -/
def Sorted (a : ℕ → α) (n : ℕ) : Prop := ∀ j l, 1 ≤ j → j ≤ l → l ≤ n → le (a j) (a l)

/-- While the element that was at `i` is floated down and sits at `p`: every parent and child
from `i` on whose parent is not `p` are in order, and `p`'s children are at or before `p`'s
parent. -/
structure SiftOrder (a : ℕ → α) (i n p : ℕ) : Prop where
  except : ∀ c, 2 * i ≤ c → c ≤ n → c / 2 ≠ p → le (a c) (a (c / 2))
  grand : i < p → ∀ c, c / 2 = p → c ≤ n → le (a c) (a (p / 2))

/-- Sifting swaps only indices from `i` to `n`. -/
theorem siftDown_permOn (a : ℕ → α) (i n : ℕ) : PermOn i n (siftDown le a i n) a := by
  induction a, i using siftDown.induct le (n := n) with
  | case1 a i hm =>
    rw [siftDown, if_pos hm]
    exact PermOn.refl a
  | case2 a i hm ih =>
    rw [siftDown, if_neg hm]
    have hc := (largest_cases le a n i).resolve_left hm
    exact (ih.mono (by omega) (Nat.le_refl _)).trans
      (PermOn.swap ⟨Nat.le_refl _, by omega⟩ ⟨by omega, hc.2⟩ a)

omit [DecidableRel le] in
theorem SiftOrder.start {a : ℕ → α} {i n : ℕ} (h : HeapFrom le a (i + 1) n) :
    SiftOrder le a i n i where
  except c hc hcn hp := h c (by omega) hcn
  grand hlt := absurd hlt (Nat.lt_irrefl i)

variable [Std.Total le]

theorem le_pick_left (a : ℕ → α) (n i j : ℕ) : le (a i) (a (pick le a n i j)) := by
  unfold pick
  split_ifs with h
  · exact (total_of le _ _).resolve_left h.2
  · exact refl_of le _

theorem le_pick_right (a : ℕ → α) {n : ℕ} (i : ℕ) {j : ℕ} (hj : j ≤ n) :
    le (a j) (a (pick le a n i j)) := by
  unfold pick
  split_ifs with h
  · exact refl_of le _
  · exact not_not.1 fun h' => h ⟨hj, h'⟩

variable [IsTrans α le]

theorem le_largest_self (a : ℕ → α) (n i : ℕ) : le (a i) (a (largest le a n i)) :=
  trans_of le (le_pick_left le a n i _) (le_pick_left le a n _ _)

theorem le_largest_child (a : ℕ → α) {n i c : ℕ} (hc : c / 2 = i) (hcn : c ≤ n) :
    le (a c) (a (largest le a n i)) := by
  have : c = 2 * i ∨ c = 2 * i + 1 := by omega
  rcases this with rfl | rfl
  · exact trans_of le (le_pick_right le a i hcn) (le_pick_left le a n _ _)
  · exact le_pick_right le a _ hcn

theorem SiftOrder.finish {a : ℕ → α} {i n p : ℕ} (o : SiftOrder le a i n p)
    (hm : largest le a n p = p) : HeapFrom le a i n := by
  intro c hc hcn
  by_cases hp : c / 2 = p
  · have := le_largest_child le a hp hcn
    rwa [hm, ← hp] at this
  · exact o.except c hc hcn hp

/-- One round of the sift: the element at `p` is swapped with its largest child `m`. -/
theorem SiftOrder.swap {a : ℕ → α} {i n p : ℕ} (o : SiftOrder le a i n p) (hi : 0 < i)
    (hip : i ≤ p) (hm : largest le a n p ≠ p) :
    SiftOrder le (a ∘ Equiv.swap p (largest le a n p)) i n (largest le a n p) := by
  have hcases := (largest_cases le a n p).resolve_left hm
  have hself := le_largest_self le a n p
  have hchild : ∀ c, c / 2 = p → c ≤ n → le (a c) (a (largest le a n p)) :=
    fun c hc hcn => le_largest_child le a hc hcn
  generalize largest le a n p = m at hm hcases hself hchild ⊢
  have hmp : m / 2 = p := by omega
  constructor
  · intro c hc hcn hcm
    simp only [Function.comp_apply]
    by_cases hcm' : c = m
    · -- the swapped element, now below its old child
      subst hcm'
      rw [hmp, Equiv.swap_apply_right, Equiv.swap_apply_left]
      exact hself
    by_cases hcp : c = p
    · -- `p` itself: its new element came from below, and `p`'s parent stays
      subst hcp
      rw [Equiv.swap_apply_left, Equiv.swap_apply_of_ne_of_ne (by omega) (by omega)]
      exact o.grand (by omega) m hmp hcases.2
    rw [Equiv.swap_apply_of_ne_of_ne hcp hcm']
    by_cases hcp' : c / 2 = p
    · -- the sibling of `m`
      rw [hcp', Equiv.swap_apply_left]
      exact hchild c hcp' hcn
    · rw [Equiv.swap_apply_of_ne_of_ne hcp' hcm]
      exact o.except c hc hcn hcp'
  · intro _ c hc hcn
    simp only [Function.comp_apply]
    rw [hmp, Equiv.swap_apply_left, Equiv.swap_apply_of_ne_of_ne (by omega) (by omega)]
    have := o.except c (by omega) hcn (by omega)
    rwa [hc] at this

theorem siftDown_heapFrom_of_siftOrder {i : ℕ} (hi : 0 < i) (a : ℕ → α) (p n : ℕ)
    (o : SiftOrder le a i n p) (hip : i ≤ p) : HeapFrom le (siftDown le a p n) i n := by
  induction a, p using siftDown.induct le (n := n) with
  | case1 a p hm =>
    rw [siftDown, if_pos hm]
    exact o.finish le hm
  | case2 a p hm ih =>
    rw [siftDown, if_neg hm]
    have := (largest_cases le a n p).resolve_left hm
    exact ih (o.swap le hi hip hm) (by omega)

/-- Sifting `i` down a heap below `i` gives a heap from `i`. -/
theorem siftDown_heapFrom {a : ℕ → α} {i n : ℕ} (hi : 0 < i) (h : HeapFrom le a (i + 1) n) :
    HeapFrom le (siftDown le a i n) i n :=
  siftDown_heapFrom_of_siftOrder le hi a i n (SiftOrder.start le h) (Nat.le_refl _)

omit [DecidableRel le] in
/-- The root of a heap is at or after every element. -/
theorem HeapFrom.le_root {a : ℕ → α} {n : ℕ} (h : HeapFrom le a 1 n) :
    ∀ j, 1 ≤ j → j ≤ n → le (a j) (a 1) := by
  intro j
  induction j using Nat.strongRecOn with
  | ind j ih =>
    intro hj hjn
    by_cases h1 : j = 1
    · subst h1
      exact refl_of le _
    · exact trans_of le (h j (by omega) hjn) (ih (j / 2) (by omega) (by omega) (by omega))

end Sift

/-! ## The two loops of heap sort -/

section Loops

variable (le : α → α → Prop) [DecidableRel le]

/-- The first loop: sift `k, k - 1, …, 1` down the heap `1, …, n`. -/
def buildHeap (n : ℕ) : ℕ → (ℕ → α) → ℕ → α
  | 0, a => a
  | k + 1, a => buildHeap n k (siftDown le a (k + 1) n)

/-- The second loop: while the heap `1, …, k` has two elements or more, swap its root to `k`
and sift the new root down the heap `1, …, k - 1`. -/
def sortHeap : ℕ → (ℕ → α) → ℕ → α
  | k + 2, a => sortHeap (k + 1) (siftDown le (a ∘ Equiv.swap 1 (k + 2)) 1 (k + 1))
  | _, a => a

/-- Heap sort of `1, …, n`. -/
def heapSort (a : ℕ → α) (n : ℕ) : ℕ → α := sortHeap le n (buildHeap le n (n / 2) a)

section
-- the equation lemmas, generated once here rather than by each proof below that unfolds
-- these definitions
attribute [local simp] sortHeap
end

theorem buildHeap_permOn (n : ℕ) : ∀ (k : ℕ) (a : ℕ → α), PermOn 1 n (buildHeap le n k a) a
  | 0, a => PermOn.refl a
  | k + 1, a =>
    (buildHeap_permOn n k _).trans ((siftDown_permOn le a (k + 1) n).mono (by omega) (Nat.le_refl _))

theorem sortHeap_permOn : ∀ (k : ℕ) (a : ℕ → α), PermOn 1 k (sortHeap le k a) a
  | k + 2, a => by
    rw [sortHeap]
    refine ((sortHeap_permOn (k + 1) _).mono (Nat.le_refl _) (by omega)).trans ?_
    refine ((siftDown_permOn le _ 1 (k + 1)).mono (Nat.le_refl _) (by omega)).trans ?_
    exact PermOn.swap ⟨(Nat.le_refl _), by omega⟩ ⟨by omega, (Nat.le_refl _)⟩ a
  | 0, a | 1, a => PermOn.refl a

theorem heapSort_permOn (a : ℕ → α) (n : ℕ) : PermOn 1 n (heapSort le a n) a :=
  (sortHeap_permOn le n _).trans (buildHeap_permOn le n (n / 2) a)

variable [Std.Total le] [IsTrans α le]

theorem buildHeap_heapFrom {n : ℕ} : ∀ {k : ℕ} {a : ℕ → α}, HeapFrom le a (k + 1) n →
    HeapFrom le (buildHeap le n k a) 1 n
  | 0, _, h => h
  | k + 1, _, h => by
    rw [buildHeap]
    exact buildHeap_heapFrom (siftDown_heapFrom le (Nat.succ_pos k) h)

/-- Before each round of the second loop: `1, …, k` is a heap, `k + 1, …, n` is in order, and
every element of the heap is at or before every element after it. -/
structure Sorting (a : ℕ → α) (k n : ℕ) : Prop where
  heap : HeapFrom le a 1 k
  sorted : ∀ j l, k < j → j ≤ l → l ≤ n → le (a j) (a l)
  below : ∀ j l, 1 ≤ j → j ≤ k → k < l → l ≤ n → le (a j) (a l)

/-- One round of the second loop keeps `Sorting`, with the heap one shorter. -/
theorem Sorting.round {a : ℕ → α} {k n : ℕ} (s : Sorting le a (k + 2) n) :
    Sorting le (siftDown le (a ∘ Equiv.swap 1 (k + 2)) 1 (k + 1)) (k + 1) n := by
  set b := a ∘ Equiv.swap 1 (k + 2) with hb
  have hb1 : b 1 = a (k + 2) := by simp [hb]
  have hbk : b (k + 2) = a 1 := by simp [hb]
  have hbo : ∀ x, x ≠ 1 → x ≠ k + 2 → b x = a x := fun x h1 h2 => by
    simp [hb, Equiv.swap_apply_of_ne_of_ne h1 h2]
  -- below the root, `b` is still the heap `a`
  have hheap : HeapFrom le b 2 (k + 1) := fun c hc hcn => by
    rw [hbo c (by omega) (by omega), hbo (c / 2) (by omega) (by omega)]
    exact s.heap c (by omega) (by omega)
  have hperm : PermOn 1 (k + 2) (siftDown le b 1 (k + 1)) a :=
    ((siftDown_permOn le b 1 (k + 1)).mono (Nat.le_refl _) (by omega)).trans
      (PermOn.swap ⟨(Nat.le_refl _), by omega⟩ ⟨by omega, (Nat.le_refl _)⟩ a)
  have hout : ∀ l, k + 1 < l → siftDown le b 1 (k + 1) l = b l := fun l hl =>
    (siftDown_permOn le b 1 (k + 1)).apply_of_not_mem (.inr hl)
  refine ⟨siftDown_heapFrom le Nat.one_pos hheap, fun j l hj hjl hln => ?_, fun j l hj hjk hl hln => ?_⟩
  · rw [hout j hj, hout l (by omega)]
    by_cases hj2 : j = k + 2
    · subst hj2
      by_cases hl2 : l = k + 2
      · subst hl2
        exact refl_of le _
      · rw [hbk, hbo l (by omega) hl2]
        exact s.below 1 l (Nat.le_refl _) (by omega) (by omega) hln
    · rw [hbo j (by omega) hj2, hbo l (by omega) (by omega)]
      exact s.sorted j l (by omega) hjl hln
  · obtain ⟨j', hj', hjj'⟩ := hperm.exists_eq (k := j) ⟨hj, by omega⟩
    rw [hjj', hout l hl]
    by_cases hl2 : l = k + 2
    · -- the old root, after every element of the old heap
      subst hl2
      rw [hbk]
      exact s.heap.le_root le j' hj'.1 hj'.2
    · rw [hbo l (by omega) hl2]
      exact s.below j' l hj'.1 hj'.2 (by omega) hln

omit [DecidableRel le] [IsTrans α le] in
theorem Sorting.sorted_of_le_one {a : ℕ → α} {k n : ℕ} (s : Sorting le a k n) (hk : k ≤ 1) :
    Sorted le a n := by
  intro j l hj hjl hln
  rcases Nat.lt_or_ge k j with hkj | hjk
  · exact s.sorted j l hkj hjl hln
  · rcases Nat.lt_or_ge j l with hjl' | hlj
    · exact s.below j l hj hjk (by omega) hln
    · obtain rfl : j = l := by omega
      exact refl_of le _

theorem sortHeap_sorted {n : ℕ} : ∀ {k : ℕ} {a : ℕ → α}, Sorting le a k n →
    Sorted le (sortHeap le k a) n
  | k + 2, _, s => by
    rw [sortHeap]
    exact sortHeap_sorted (s.round le)
  | 0, _, s | 1, _, s => s.sorted_of_le_one le (by omega)

/-- Heap sort orders `1, …, n`. -/
theorem heapSort_sorted (a : ℕ → α) (n : ℕ) : Sorted le (heapSort le a n) n := by
  have hheap : HeapFrom le (buildHeap le n (n / 2) a) 1 n :=
    buildHeap_heapFrom le fun c hc hcn => absurd hcn (by omega)
  exact sortHeap_sorted le ⟨hheap, fun j l hj _ hln => absurd hln (by omega),
    fun _ l _ _ hl hln => absurd hln (by omega)⟩

end Loops

/-- A sorted `1, …, n`, read as a list. -/
theorem Sorted.pairwise {le : α → α → Prop} {a : ℕ → α} {n : ℕ} (h : Sorted le a n) :
    ((List.range' 1 n).map a).Pairwise le := by
  refine List.pairwise_map.2 (List.Pairwise.imp_of_mem (fun hj hl hjl => ?_) List.pairwise_lt_range')
  simp only [List.mem_range'_1] at hj hl
  exact h _ _ hj.1 (Nat.le_of_lt hjl) (by omega)

end Heap
