import Pintos.LibKernel.List

/-!
# `lib/kernel/list.c`: `list_sort`

`list_sort` is a natural merge sort done in place: each pass walks the list, finds two adjacent
runs with `find_end_of_run` (maximal stretches in which no element is `less` than the one before
it), merges them with `inplace_merge`, which splices elements of the second run one at a time in
front of the first run's, and goes on after them; passes repeat until one outputs at most one
run.  `is_sorted` checks the runs `inplace_merge` is given and the result.  Each loop runs on the
same `fuel`, a bound on its tests.

* `runEndLoop_eq` — the loop of `is_sorted` and `find_end_of_run` stops where the first run
  (`sortRuns`) ends;
* `inplaceMergeLoop_spec` — `inplace_merge` leaves `List.merge` of its two runs in their place;
* `sortPassLoop_spec` — a pass leaves `mergePairs` of the runs, and counts them;
* `sortLoop_spec` — the passes follow `sortPasses` of `Pintos.LibKernel.Ordered`;
* `list_sort_stable` — on a well-formed list, for a strict weak order, `list_sort` finishes
  with fuel one more than the length, and leaves the list well-formed with the elements
  `listSort` gives: the same elements, sorted, equal ones in their order.
-/

set_option autoImplicit false

namespace Pintos

open Mem

namespace LinkedList

variable {ε : Type} [DecidableEq ε]

/-! ## The functions -/

/-- The loop shared by `is_sorted` and `find_end_of_run`: from `a`, step to the next element
until `b`, or until an element `less` than the one before it; where it stops, for at most `fuel`
tests. -/
def runEndLoop (less : ε → ε → Bool) (m : Mem ε) (b : ε) : Nat → ε → Option ε
  | 0, _ => none
  | fuel + 1, a => do
    let a' ← (m a).next
    if a' = b then pure a'
    else
      let p ← (m a').prev
      if less a' p then pure a' else runEndLoop less m b fuel a'

/-- `is_sorted`: true when the loop reaches `b`, false when it stops at an element out of
order. -/
def isSorted (fuel : Nat) (less : ε → ε → Bool) (m : Mem ε) (a b : ε) : Option Bool :=
  if a ≠ b then (runEndLoop less m b fuel a).map fun e => decide (e = b) else some true

/-- `find_end_of_run`: `a` through `b` must be a non-empty range. -/
def findEndOfRun (fuel : Nat) (less : ε → ε → Bool) (m : Mem ε) (a b : ε) : Option ε :=
  if a = b then none else runEndLoop less m b fuel a

/-- The loop of `inplace_merge`: while both runs are non-empty, the first run's element stays
unless the second's is `less` than it, in which case the second's is spliced in front of it. -/
def inplaceMergeLoop (less : ε → ε → Bool) (b1 : ε) : Nat → Mem ε → ε → ε → Option (Mem ε)
  | 0, _, _, _ => none
  | fuel + 1, m, a0, a1b0 =>
    if a0 ≠ a1b0 ∧ a1b0 ≠ b1 then
      if !less a1b0 a0 then do
        let a0' ← (m a0).next
        inplaceMergeLoop less b1 fuel m a0' a1b0
      else do
        let a1b0' ← (m a1b0).next
        let first ← (m a1b0').prev
        let m' ← listSplice m a0 first a1b0'
        inplaceMergeLoop less b1 fuel m' a0 a1b0'
    else some m

/-- `inplace_merge`, with its two `ASSERT (is_sorted (…))`. -/
def inplaceMerge (fuel : Nat) (m : Mem ε) (a0 a1b0 b1 : ε) (less : ε → ε → Bool) :
    Option (Mem ε) := do
  let sortedA ← isSorted fuel less m a0 a1b0
  let sortedB ← isSorted fuel less m a1b0 b1
  if sortedA && sortedB then inplaceMergeLoop less b1 fuel m a0 a1b0 else none

/-- The `for` loop of one pass of `list_sort`: from `a0`, two runs found and merged, for at most
`steps` tests; the memory and `output_run_cnt`, counted from `cnt`. -/
def sortPassLoop (fuel : Nat) (less : ε → ε → Bool) (tl : ε) :
    Nat → Mem ε → ε → Nat → Option (Mem ε × Nat)
  | 0, _, _, _ => none
  | steps + 1, m, a0, cnt =>
    if a0 = tl then some (m, cnt)
    else do
      let a1b0 ← findEndOfRun fuel less m a0 tl
      if a1b0 = tl then pure (m, cnt + 1)
      else
        let b1 ← findEndOfRun fuel less m a1b0 tl
        let m' ← inplaceMerge fuel m a0 a1b0 b1 less
        sortPassLoop fuel less tl steps m' b1 (cnt + 1)

/-- The `do … while (output_run_cnt > 1)` loop of `list_sort`, for at most `passes` passes. -/
def sortLoop (fuel : Nat) (less : ε → ε → Bool) (l : LinkedList ε) : Nat → Mem ε → Option (Mem ε)
  | 0, _ => none
  | passes + 1, m => do
    let a0 ← (m l.head).next
    let (m', cnt) ← sortPassLoop fuel less l.tail fuel m a0 0
    if 1 < cnt then sortLoop fuel less l passes m' else pure m'

/-- `list_sort`, with its final `ASSERT (is_sorted (list_begin (list), list_end (list), …))`. -/
def listSort (fuel : Nat) (m : Mem ε) (l : LinkedList ε) (less : ε → ε → Bool) :
    Option (Mem ε) := do
  let m' ← sortLoop fuel less l fuel m
  let b ← (m' l.head).next
  let sorted ← isSorted fuel less m' b l.tail
  if sorted then pure m' else none

/-! ## Stretches of a list -/

section Stretch

variable {m : Mem ε} {l : LinkedList ε}

omit [DecidableEq ε] in
/-- A stretch `b` of a list with the cell after it is a chain, which does not meet `b` again. -/
theorem WellFormed.stretch {u b v : List ε} (hw : WellFormed m l (u ++ b ++ v)) {q : ε}
    (hq : (v ++ [l.tail]).head? = some q) : (b ++ [q]).IsChain (Adj m) ∧ q ∉ b := by
  obtain ⟨-, p, -, -, hp, -, -⟩ := cells_cut l u v
  refine ⟨(hw.isChain_cut hp hq).tail, fun hqb => ?_⟩
  exact hw.out_of_cut.2 q hqb (mem_cells_of_cut hp hq).2

omit [DecidableEq ε] in
/-- The cell after an element points back to it. -/
theorem WellFormed.prev_of_next {u v : List ε} {e e' : ε} (hw : WellFormed m l (u ++ e :: v))
    (he' : (v ++ [l.tail]).head? = some e') : (m e').prev = some e := by
  have hw' : WellFormed m l (u ++ [e] ++ v) := by simpa using hw
  have hc := (hw'.stretch he').1
  exact (List.isChain_pair.mp hc).2

end Stretch

/-! ## The loops -/

section Loops

variable {l : LinkedList ε} {less : ε → ε → Bool}

/-- The loop of `is_sorted` and `find_end_of_run` from `a`, along the chain `a :: ys` and then
`b`, stops after the first run of `a :: ys`: at the first cell of the next run, or at `b`. -/
theorem runEndLoop_eq {m : Mem ε} {b : ε} : ∀ (a : ε) (ys t : List ε) (gs : List (List ε))
    (fuel : Nat), ys.length < fuel → (a :: ys ++ [b]).IsChain (Adj m) → b ∉ ys →
      sortRuns less (a :: ys) = (a :: t) :: gs →
        runEndLoop less m b fuel a = (gs.flatten ++ [b]).head?
  | _, _, _, _, 0, hf, _, _, _ => absurd hf (Nat.not_lt_zero _)
  | a, [], t, gs, fuel + 1, _, hc, _, hg => by
    -- the next cell is `b`
    rw [sortRuns, List.splitBy_of_isChain (List.cons_ne_nil a []) (List.isChain_singleton a)] at hg
    obtain ⟨-, rfl⟩ := List.cons.inj hg
    simp [runEndLoop, next_eq_head hc]
  | a, y :: ys, t, gs, fuel + 1, hf, hc, hb, hg => by
    have hyb : y ≠ b := fun h => hb (h ▸ List.mem_cons_self)
    have hya : (m y).prev = some a := (List.isChain_cons_cons.mp hc).1.2
    obtain ⟨t', gs', hy⟩ := exists_splitBy_cons (r := inOrder less) y ys
    by_cases hya' : less y a = true
    · -- `y` is out of order: the run of `a` ends before it
      rw [sortRuns, splitBy_cons_cons_of_false ys (by simp [inOrder, hya'])] at hg
      obtain ⟨-, rfl⟩ := List.cons.inj hg
      simp [runEndLoop, next_eq_head hc, hyb, hya, hya', List.flatten_splitBy]
    · -- `y` continues the run
      rw [sortRuns, splitBy_cons_cons_of_true (by simpa [inOrder] using hya') hy] at hg
      obtain ⟨-, rfl⟩ := List.cons.inj hg
      have ih := runEndLoop_eq y ys t' gs' fuel (by simp at hf; omega) hc.tail
        (fun h => hb (List.mem_cons_of_mem y h)) hy
      simp [runEndLoop, next_eq_head hc, hyb, hya, hya', ih]

/-- `is_sorted` holds from the first cell of a run to the cell after it. -/
theorem isSorted_run {m : Mem ε} {a b : ε} {ys : List ε} {fuel : Nat} (hf : ys.length < fuel)
    (hc : (a :: ys ++ [b]).IsChain (Adj m)) (hb : b ∉ a :: ys)
    (hr : sortRuns less (a :: ys) = [a :: ys]) : isSorted fuel less m a b = some true := by
  have hab : a ≠ b := fun h => hb (h ▸ List.mem_cons_self)
  have hloop := runEndLoop_eq a ys ys [] fuel hf hc (fun h => hb (List.mem_cons_of_mem a h)) hr
  simp [isSorted, hab, hloop]

/-- The loop of `inplace_merge` on adjacent runs `R` and `S` between `u` and `w`, from `a0` and
`a1b0` to `b1`: each cell of `S` is spliced in front of the first cell of `R` it is `less` than,
and what is left is `List.merge` of the two. -/
theorem inplaceMergeLoop_spec {b1 : ε} {w : List ε} : ∀ (R S u : List ε) (m : Mem ε)
    (a0 a1b0 : ε) (fuel : Nat), R.length + S.length < fuel → WellFormed m l (u ++ R ++ S ++ w) →
    (R ++ S ++ w ++ [l.tail]).head? = some a0 → (S ++ w ++ [l.tail]).head? = some a1b0 →
    (w ++ [l.tail]).head? = some b1 →
      ∃ m', inplaceMergeLoop less b1 fuel m a0 a1b0 = some m' ∧
        WellFormed m' l (u ++ R.merge S (inOrder less) ++ w)
  | _, _, _, _, _, _, 0, hf, _, _, _, _ => absurd hf (Nat.not_lt_zero _)
  | [], S, u, m, a0, a1b0, fuel + 1, _, hw, ha0, ha1b0, _ => by
    -- the first run is used up: `a0` has reached `a1b0`
    have h : a0 = a1b0 := Option.some.inj (ha0.symm.trans (by simpa using ha1b0))
    exact ⟨m, by simp [inplaceMergeLoop, h], by simpa using hw⟩
  | a :: R, [], u, m, a0, a1b0, fuel + 1, _, hw, _, ha1b0, hb1 => by
    -- the second run is used up: `a1b0` has reached `b1`
    have h : a1b0 = b1 := Option.some.inj (ha1b0.symm.trans (by simpa using hb1))
    exact ⟨m, by simp [inplaceMergeLoop, h], by simpa using hw⟩
  | a :: R, b :: S, u, m, a0, a1b0, fuel + 1, hf, hw, ha0, ha1b0, hb1 => by
    simp only [List.cons_append, List.head?_cons, Option.some.injEq] at ha0 ha1b0
    subst ha0 ha1b0
    have hab : a ≠ b := by
      have h := (show WellFormed m l (u ++ (a :: R) ++ (b :: S ++ w)) by simpa using hw).stretch
        (q := b) (by simp)
      exact fun hab => h.2 (hab ▸ List.mem_cons_self)
    have hbb1 : b ≠ b1 := by
      have h := (show WellFormed m l (u ++ a :: R ++ (b :: S) ++ w) by simpa using hw).stretch hb1
      exact fun hbb1 => h.2 (hbb1 ▸ List.mem_cons_self)
    by_cases hba : less b a = true
    · -- `b` goes in front of `a`: `a1b0` moves on, `list_splice` takes `b` out and puts it back
      obtain ⟨c, hc⟩ : ∃ c, (S ++ w ++ [l.tail]).head? = some c :=
        ⟨_, List.head?_eq_some_head (by simp)⟩
      have hw₁ : WellFormed m l (u ++ a :: R ++ b :: (S ++ w)) := by simpa using hw
      have hbn : (m b).next = some c := by rw [hw₁.next_eq]; simpa using hc
      have hcp : (m c).prev = some b := hw₁.prev_of_next (by simpa using hc)
      obtain ⟨m', hsplice, hw', -⟩ := listSplice_spec_same (p := u ++ a :: R) (r := [b])
        (q := S ++ w) (u := u) (v := a :: R ++ S ++ w) (by simpa using hw) (by simp)
        (show ([b] ++ (S ++ w) ++ [l.tail]).head? = some b by simp) (by simpa using hc)
        (show (a :: R ++ S ++ w ++ [l.tail]).head? = some a by simp)
      obtain ⟨m'', hloop, hw''⟩ := inplaceMergeLoop_spec (a :: R) S (u ++ [b]) m' a c fuel
        (by simp at hf ⊢; omega) (by simpa using hw') (by simp) hc hb1
      refine ⟨m'', ?_, by simpa [List.cons_merge_cons, inOrder, hba] using hw''⟩
      simp [inplaceMergeLoop, hab, hbb1, hba, hbn, hcp, hsplice, hloop]
    · -- `a` stays: `a0` moves on
      obtain ⟨c, hc⟩ : ∃ c, (R ++ b :: S ++ w ++ [l.tail]).head? = some c :=
        ⟨_, List.head?_eq_some_head (by simp)⟩
      have han : (m a).next = some c := by
        rw [(show WellFormed m l (u ++ a :: (R ++ b :: S ++ w)) by simpa using hw).next_eq]
        simpa using hc
      obtain ⟨m', hloop, hw'⟩ := inplaceMergeLoop_spec R (b :: S) (u ++ [a]) m c b fuel
        (by simp at hf ⊢; omega) (by simpa using hw) (by simpa using hc) (by simp) hb1
      refine ⟨m', ?_, by simpa [List.cons_merge_cons, inOrder, hba] using hw'⟩
      simp [inplaceMergeLoop, hab, hbb1, hba, han, hloop]

/-- `inplace_merge` of adjacent runs `a :: R` and `b :: S` between `u` and `w`: its `is_sorted`
checks hold, and the loop merges. -/
theorem inplaceMerge_spec {m : Mem ε} {u R S w : List ε} {a b b1 : ε} {fuel : Nat}
    (hf : (u ++ a :: R ++ b :: S ++ w).length < fuel)
    (hw : WellFormed m l (u ++ a :: R ++ b :: S ++ w)) (hb1 : (w ++ [l.tail]).head? = some b1)
    (hR : sortRuns less (a :: R) = [a :: R]) (hS : sortRuns less (b :: S) = [b :: S]) :
    ∃ m', inplaceMerge fuel m a b b1 less = some m' ∧
      WellFormed m' l (u ++ (a :: R).merge (b :: S) (inOrder less) ++ w) := by
  simp only [List.length_append, List.length_cons] at hf
  have h₁ := (show WellFormed m l (u ++ (a :: R) ++ (b :: S ++ w)) by simpa using hw).stretch
    (q := b) (by simp)
  have hsA : isSorted fuel less m a b = some true := isSorted_run (by omega) h₁.1 h₁.2 hR
  have h₂ := (show WellFormed m l (u ++ a :: R ++ (b :: S) ++ w) by simpa using hw).stretch hb1
  have hsB : isSorted fuel less m b b1 = some true := isSorted_run (by omega) h₂.1 h₂.2 hS
  obtain ⟨m', hloop, hw'⟩ := inplaceMergeLoop_spec (a :: R) (b :: S) u m a b fuel
    (by simp; omega) (by simpa using hw) (by simp) (by simp) hb1
  exact ⟨m', by simp [inplaceMerge, hsA, hsB, hloop], hw'⟩

/-- One pass of `list_sort` over the elements `X` after the elements `D`, from the first cell
`a0` of `X`: the pairs of adjacent runs of `X` are merged, and `output_run_cnt` counts the runs
output. -/
theorem sortPassLoop_spec (fuel : Nat) : ∀ (X D : List ε) (m : Mem ε) (a0 : ε) (cnt steps : Nat),
    X.length < steps → (D ++ X).length < fuel → WellFormed m l (D ++ X) →
    (X ++ [l.tail]).head? = some a0 →
      ∃ m', sortPassLoop fuel less l.tail steps m a0 cnt =
          some (m', cnt + (mergePairs less (sortRuns less X)).length) ∧
        WellFormed m' l (D ++ (mergePairs less (sortRuns less X)).flatten)
  | _, _, _, _, _, 0, hs, _, _, _ => absurd hs (Nat.not_lt_zero _)
  | [], D, m, a0, cnt, steps + 1, _, _, hw, ha0 => by
    -- the pass has reached the tail
    have h : a0 = l.tail := by simpa using ha0.symm
    exact ⟨m, by simp [sortPassLoop, h, sortRuns, mergePairs], by simpa [sortRuns, mergePairs] using hw⟩
  | x :: X, D, m, a0, cnt, steps + 1, hs, hf, hw, ha0 => by
    have h : a0 = x := by simpa using ha0.symm
    subst h
    have hxt : a0 ≠ l.tail :=
      fun h => (headers_of_nodup hw.nodup).2.1 (h ▸ List.mem_append_right D List.mem_cons_self)
    obtain ⟨t, gs, hg⟩ := exists_splitBy_cons (r := inOrder less) a0 X
    have hflat : a0 :: X = a0 :: t ++ gs.flatten := by
      simpa [hg] using (List.flatten_splitBy (inOrder less) (a0 :: X)).symm
    -- `find_end_of_run` from `a0` stops at the second run, or at the tail
    have hc₁ := (show WellFormed m l (D ++ (a0 :: X) ++ []) by simpa using hw).stretch
      (q := l.tail) rfl
    have hend₁ : findEndOfRun fuel less m a0 l.tail = (gs.flatten ++ [l.tail]).head? := by
      rw [findEndOfRun, if_neg hxt]
      exact runEndLoop_eq a0 X t gs fuel (by simp at hf; omega) hc₁.1
        (fun h => hc₁.2 (List.mem_cons_of_mem a0 h)) hg
    cases gs with
    | nil =>
      -- one run left: it is output as it is
      have hX : X = t := by simpa using hflat
      subst hX
      refine ⟨m, by simp [sortPassLoop, hxt, hend₁, sortRuns, hg, mergePairs], ?_⟩
      simpa [sortRuns, hg, mergePairs] using hw
    | cons g gs =>
      obtain ⟨y, t', rfl⟩ : ∃ y t', g = y :: t' :=
        List.ne_nil_iff_exists_cons.mp (List.ne_nil_of_mem_splitBy (hg ▸ List.mem_cons_of_mem _ List.mem_cons_self))
      have hg₂ : sortRuns less (y :: t' ++ gs.flatten) = (y :: t') :: gs := by
        simpa using sortRuns_flatten_tail hg
      have hw₂ : WellFormed m l (D ++ a0 :: t ++ y :: t' ++ gs.flatten) := by
        simpa [hflat] using hw
      have hyt : y ≠ l.tail := fun h => (headers_of_nodup hw₂.nodup).2.1 (by simp [h])
      -- `find_end_of_run` from `y` stops at the third run, or at the tail
      have hc₂ := (show WellFormed m l ((D ++ a0 :: t) ++ (y :: t' ++ gs.flatten) ++ []) by
        simpa using hw₂).stretch (q := l.tail) rfl
      have hlen := congrArg List.length hflat
      simp only [List.flatten_cons, List.length_cons, List.length_append] at hlen hf hs
      have hend₂ : findEndOfRun fuel less m y l.tail = (gs.flatten ++ [l.tail]).head? := by
        rw [findEndOfRun, if_neg hyt]
        exact runEndLoop_eq y (t' ++ gs.flatten) t' gs fuel (by rw [List.length_append]; omega)
          (by simpa using hc₂.1)
          (fun h => hc₂.2 (List.mem_cons_of_mem y h)) (by simpa using hg₂)
      obtain ⟨b1, hb1⟩ : ∃ b1, (gs.flatten ++ [l.tail]).head? = some b1 :=
        ⟨_, List.head?_eq_some_head (by simp)⟩
      have hR : sortRuns less (a0 :: t) = [a0 :: t] := sortRuns_of_mem (hg ▸ List.mem_cons_self)
      have hS : sortRuns less (y :: t') = [y :: t'] :=
        sortRuns_of_mem (hg ▸ List.mem_cons_of_mem _ List.mem_cons_self)
      obtain ⟨m', hmerge, hw'⟩ : ∃ m', inplaceMerge fuel m a0 y b1 less = some m' ∧ _ :=
        inplaceMerge_spec (by simp only [List.length_append, List.length_cons]; omega) hw₂ hb1 hR hS
      -- the pass goes on after the two runs merged
      obtain ⟨m'', hpass, hw''⟩ := sortPassLoop_spec fuel gs.flatten
        (D ++ (a0 :: t).merge (y :: t') (inOrder less)) m' b1 (cnt + 1) steps (by omega)
        (by simp only [List.length_append, List.length_merge, List.length_cons]; omega)
        (by simpa using hw') hb1
      rw [sortRuns_flatten_tail hg₂] at hpass hw''
      refine ⟨m'', ?_, by simpa [sortRuns, hg, mergePairs] using hw''⟩
      simp only [sortPassLoop, hxt, hend₁, hyt, hend₂, hb1, hmerge, hpass, if_false,
        List.flatten_cons, List.cons_append, List.head?_cons, Option.bind_eq_bind, Option.bind_some,
        Option.pure_def]
      simp [sortRuns, hg, mergePairs, Nat.add_assoc, Nat.add_comm 1]

/-- The passes of `list_sort` follow `sortPasses`, each pass from the first element. -/
theorem sortLoop_spec (fuel : Nat) : ∀ (passes : Nat) (m : Mem ε) (xs ys : List ε),
    xs.length < fuel → WellFormed m l xs → sortPasses less passes xs = some ys →
      ∃ m', sortLoop fuel less l passes m = some m' ∧ WellFormed m' l ys
  | 0, _, _, _, _, _, h => by simp [sortPasses] at h
  | passes + 1, m, xs, ys, hf, hw, h => by
    obtain ⟨a0, ha0⟩ : ∃ a0, (xs ++ [l.tail]).head? = some a0 :=
      ⟨_, List.head?_eq_some_head (by simp)⟩
    have hhead : (m l.head).next = some a0 := hw.head_next.trans ha0
    obtain ⟨m', hpass, hw'⟩ := sortPassLoop_spec fuel xs [] m a0 0 fuel hf (by simpa using hf)
      (by simpa using hw) ha0
    have hlen : (mergePairs less (sortRuns less xs)).flatten.length = xs.length := by
      simpa [sortRuns, List.flatten_splitBy] using
        (flatten_mergePairs_perm (sortRuns less xs) : (mergePairs less _).flatten.Perm _).length_eq
    rw [Nat.zero_add] at hpass
    rw [List.nil_append] at hw'
    rw [sortPasses] at h
    split at h
    · -- another pass
      rename_i hmore
      obtain ⟨m'', hloop, hw''⟩ := sortLoop_spec fuel passes m' _ ys (hlen ▸ hf) hw' h
      exact ⟨m'', by simp [sortLoop, hhead, hpass, hmore, hloop], hw''⟩
    · -- the last pass output one run at most
      rename_i hone
      cases h
      exact ⟨m', by simp [sortLoop, hhead, hpass, hone], hw'⟩

end Loops

/-! ## `list_sort` -/

section ListSort

variable {m : Mem ε} {l : LinkedList ε} {less : ε → ε → Bool}

/-- **`list_sort`** on a well-formed list, for a strict weak order, with fuel for its loops:
it finishes, its final `is_sorted` check holds, and the list holds `listSort` of its elements. -/
theorem listSort_spec (hless : IsStrictWeakOrder ε fun a b => less a b = true) {xs : List ε}
    (hw : WellFormed m l xs) {fuel : Nat} (hf : xs.length < fuel) :
    ∃ m', listSort fuel m l less = some m' ∧ WellFormed m' l (Pintos.listSort less xs) := by
  -- enough passes: more than the descents
  obtain ⟨ys, hys⟩ := Option.isSome_iff_exists.mp
    (sortPasses_isSome hless (Nat.lt_of_le_of_lt (descents_le_length xs) hf))
  obtain ⟨hperm, hsorted, -⟩ := sortPasses_spec hless hys
  obtain ⟨m', hloop, hw'⟩ := sortLoop_spec fuel fuel m xs ys hf hw hys
  rw [← sortPasses_eq_listSort hless hys]
  refine ⟨m', ?_, hw'⟩
  -- the final check walks the one run left
  cases ys with
  | nil => simp [listSort, hloop, hw'.head_next, isSorted]
  | cons y ys =>
    have hcheck : isSorted fuel less m' y l.tail = some true :=
      isSorted_run (by have := hperm.length_eq; simp at this; omega) hw'.chain.tail
        (headers_of_nodup hw'.nodup).2.1 (sortRuns_of_sortedBy (List.cons_ne_nil y ys) hsorted)
    simp [listSort, hloop, hw'.head_next, hcheck]

theorem list_sort_stable (hless : IsStrictWeakOrder ε fun a b => less a b = true) {xs : List ε}
    (hw : WellFormed m l xs) {fuel : Nat} (hf : xs.length < fuel) :
    ∃ m', listSort fuel m l less = some m' ∧ WellFormed m' l (Pintos.listSort less xs) ∧
      (Pintos.listSort less xs).Perm xs ∧ SortedBy less (Pintos.listSort less xs) ∧
      ∀ x, (Pintos.listSort less xs).filter (lessEquiv less x) = xs.filter (lessEquiv less x) := by
  obtain ⟨m', h, hw'⟩ := listSort_spec hless hw hf
  exact ⟨m', h, hw', listSort_stable_sort hless xs⟩

theorem list_sort_stable_twoCells :
    (IsStrictWeakOrder Nat fun a b => decide (b < a) = true) ∧ WellFormed twoCells ⟨0, 1⟩ [2, 3] ∧
      ∃ m', listSort 3 twoCells ⟨0, 1⟩ (fun a b => decide (b < a)) = some m' ∧
        WellFormed m' ⟨0, 1⟩ [3, 2] := by
  have hord : IsStrictWeakOrder Nat fun a b => decide (b < a) = true :=
    { irrefl := fun a => by simp
      trans := fun a b c hab hbc => by simp only [decide_eq_true_eq] at hab hbc ⊢; omega
      incomp_trans := fun a b c hab hbc => by simp only [decide_eq_true_eq] at hab hbc ⊢; omega }
  have hw : WellFormed twoCells ⟨0, 1⟩ [2, 3] :=
    ⟨rfl, rfl, by simp [List.isChain_cons_cons, Adj, twoCells]⟩
  obtain ⟨m', h, hw', -⟩ := list_sort_stable hord hw (show [2, 3].length < 3 by decide)
  have hsort : Pintos.listSort (fun a b => decide (b < a)) [2, 3] = [3, 2] := by
    simp [Pintos.listSort, List.mergeSort]
  exact ⟨hord, hw, m', h, hsort ▸ hw'⟩

end ListSort

end LinkedList

end Pintos
