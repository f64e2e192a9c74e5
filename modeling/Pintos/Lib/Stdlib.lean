import Mathlib.Data.Nat.Digits.Lemmas
import Pintos.Lib.Heap
import Pintos.Userprog.LoadArgs

/-!
# `lib/stdlib.c`: `atoi`, `sort`, `qsort`, `binary_search`, `bsearch`

`atoi` reads a string, the bytes before its NUL: it skips white space (`isspace` of
`lib/ctype.h`), reads a sign, and accumulates the digits negatively, `value * 10 - digit`, to
negate the sum at the end for a positive number, since an `int` reaches `INT_MIN` but not
`-INT_MIN`.  An `int` operation whose exact result leaves the 32-bit range is undefined in C:
it gives `none`, so a result `some v` says that no step overflowed.

* `atoiDigits_eq`: the digit loop from `-n` over a run of digits ends at `-(n` followed by the
  digits`)`, each step within range, as long as that final value is at least `INT_MIN`.
* `atoi_in_range`: on white space, an optional sign, digits whose signed value `v` lies in
  `[INT_MIN, INT_MAX]` and any rest not starting with a digit, `atoi` returns `v` (`INT_MIN`
  included); with no digit after the sign it returns `0`.

`sort` is a heap sort over 1-based indices, with `do_swap` exchanging two elements byte by
byte; `qsort` calls it with `compare_thunk`. The comparison function is a function of the two
elements it points to and of `aux`. `binary_search` narrows the pointers `first` and `last`;
its loop takes fuel (`none` when it runs out), and `NULL` is `0`. The `ASSERT`s of `sort` are
not modelled, nor the wrap of `size_t` index arithmetic past `2 ^ 32`.

* `slot_doSwap`, `slot_heapify`, `slot_sort`: on the elements, `do_swap` is a swap of two
  indices, `heapify` is `Heap.siftDown` and `sort` is `Heap.heapSort` (`Pintos.Lib.Heap`);
  `sortLoop_of_outside` and `buildLoop_of_outside`: no byte outside the array changes.
* `sort_spec`, `qsort_spec`: under a comparison that is a total preorder the result is a
  permutation of the elements, in order.
* `binarySearchLoop_spec`, `binarySearch_spec`, `bsearch_spec`: on a sorted array, with fuel
  past `cnt`, the search returns a pointer to an element comparing equal to the key, or `NULL`
  exactly when there is none.
-/

set_option autoImplicit false

namespace Pintos.Stdlib

open Pintos.Userprog (isspace)

/-- `INT_MIN`. -/
def INT_MIN : Int := -2 ^ 31

/-- `INT_MAX`. -/
def INT_MAX : Int := 2 ^ 31 - 1

/-- The result of an `int` operation, `none` when it overflows. -/
def intOp (x : Int) : Option Int := if INT_MIN ≤ x ∧ x ≤ INT_MAX then some x else none

/-- `isdigit` of `lib/ctype.h`. -/
def isdigit (c : UInt8) : Bool := 48 ≤ c && c ≤ 57

/-- The white-space loop of `atoi`. -/
def skipSpace : List UInt8 → List UInt8
  | c :: s => if isspace c then skipSpace s else c :: s
  | [] => []

/-- The digit loop of `atoi`, `value = value * 10 - (*s - '0')` while `isdigit (*s)`. -/
def atoiDigits : Int → List UInt8 → Option Int
  | value, c :: s =>
    if isdigit c then
      (intOp (value * 10)).bind fun v => (intOp (v - (c.toNat - 48 : Nat))).bind fun v =>
        atoiDigits v s
    else some value
  | value, [] => some value

/-- The sign `atoi` reads after the white space: whether it is `-`, and the rest. -/
def parseSign : List UInt8 → Bool × List UInt8
  | c :: s => if c = 43 then (false, s) else if c = 45 then (true, s) else (false, c :: s)
  | [] => (false, [])

/-- `atoi`. -/
def atoi (s : List UInt8) : Option Int :=
  let (negative, s) := parseSign (skipSpace s)
  (atoiDigits 0 s).bind fun value => if negative then some value else intOp (-value)

/-- The value of a string of decimal digits, most significant first. -/
def digitValue (ds : List UInt8) : Nat := Nat.ofDigits 10 (ds.map fun c => c.toNat - 48).reverse

/-- The signed value of digits after a sign. -/
def signedValue (sign ds : List UInt8) : Int :=
  if sign = [45] then -(digitValue ds : Int) else digitValue ds

/-! ## The digit loop -/

theorem intOp_of_le {x : Int} (h₁ : INT_MIN ≤ x) (h₂ : x ≤ INT_MAX) : intOp x = some x := by
  simp [intOp, h₁, h₂]

/-- The value of a digit string with one more digit in front. -/
theorem digitValue_cons (c : UInt8) (ds : List UInt8) :
    digitValue (c :: ds) = (c.toNat - 48) * 10 ^ ds.length + digitValue ds := by
  simp [digitValue, Nat.ofDigits_append]
  ring

/-- A digit is below ten. -/
theorem digit_lt {c : UInt8} (h : isdigit c = true) : c.toNat - 48 < 10 := by
  simp only [isdigit, Bool.and_eq_true, decide_eq_true_eq] at h
  have h2 := UInt8.le_iff_toNat_le.mp h.2
  simp at h2
  omega

/-- The loop from `-n` over the digits `ds`, followed by no digit, ends at the value of `n`
followed by `ds`, negated, when that is at least `INT_MIN`; every step stays in range because
the values only grow in magnitude. -/
theorem atoiDigits_eq {rest : List UInt8} (hrest : ∀ c ∈ rest.head?, isdigit c = false) :
    ∀ (ds : List UInt8) (n : Nat), (∀ c ∈ ds, isdigit c = true) →
      n * 10 ^ ds.length + digitValue ds ≤ 2 ^ 31 →
      atoiDigits (-n) (ds ++ rest) = some (-((n * 10 ^ ds.length + digitValue ds : Nat) : Int))
  | [], n, _, _ => by
    cases rest with
    | nil => simp [atoiDigits, digitValue]
    | cons c rest =>
      have hc : isdigit c = false := by simpa using hrest
      simp [atoiDigits, hc, digitValue]
  | c :: ds, n, hds, hv => by
    have hc := hds c List.mem_cons_self
    have hd := digit_lt hc
    rw [digitValue_cons, List.length_cons, pow_succ] at hv
    obtain ⟨P, hP⟩ : ∃ P, 10 ^ ds.length = P := ⟨_, rfl⟩
    have hP1 : 1 ≤ P := hP ▸ Nat.one_le_pow _ _ (by decide)
    rw [hP] at hv
    -- the next accumulator, `10 * n + digit`, is at most the final value
    have hnext : (10 * n + (c.toNat - 48)) * P + digitValue ds ≤ 2 ^ 31 := by
      rw [show (10 * n + (c.toNat - 48)) * P = n * (P * 10) + (c.toNat - 48) * P by ring]
      omega
    have hstep : 10 * n + (c.toNat - 48) ≤ 2 ^ 31 :=
      le_trans (Nat.le_mul_of_pos_right _ hP1) (le_trans (Nat.le_add_right _ _) hnext)
    rw [List.cons_append, atoiDigits, if_pos hc,
      intOp_of_le (by unfold INT_MIN; omega) (by unfold INT_MAX; omega), Option.bind_some,
      intOp_of_le (by unfold INT_MIN; omega) (by unfold INT_MAX; omega), Option.bind_some,
      show -(n : Int) * 10 - ((c.toNat - 48 : Nat) : Int) = -((10 * n + (c.toNat - 48) : Nat) : Int)
        by push_cast; ring,
      atoiDigits_eq hrest ds _ (fun x hx => hds x (List.mem_cons_of_mem _ hx)) (by rw [hP]; exact hnext),
      digitValue_cons, List.length_cons, pow_succ, hP]
    congr 3
    ring

/-! ## `atoi` -/

/-- A digit is not white space. -/
theorem isspace_of_isdigit {c : UInt8} (h : isdigit c = true) : isspace c = false := by
  simp only [isdigit, Bool.and_eq_true, decide_eq_true_eq] at h
  have h1 := UInt8.le_iff_toNat_le.mp h.1
  simp only [UInt8.reduceToNat] at h1
  simp only [isspace, Bool.or_eq_false_iff, beq_eq_false_iff_ne, ne_eq]
  refine ⟨⟨⟨⟨⟨?_, ?_⟩, ?_⟩, ?_⟩, ?_⟩, ?_⟩ <;> (intro hc; subst hc; simp at h1)

theorem skipSpace_append {ws s : List UInt8} (hws : ∀ c ∈ ws, isspace c = true)
    (hs : ∀ c ∈ s.head?, isspace c = false) : skipSpace (ws ++ s) = s := by
  induction ws with
  | nil =>
    cases s with
    | nil => rfl
    | cons c s => simp [skipSpace, by simpa using hs]
  | cons c ws ih =>
    rw [List.cons_append, skipSpace, if_pos (hws c List.mem_cons_self)]
    exact ih fun x hx => hws x (List.mem_cons_of_mem _ hx)

/-- The sign `atoi` reads: `-` makes the number negative, `+` or no sign positive. -/
theorem parseSign_append {sign s : List UInt8} (hsign : sign = [] ∨ sign = [43] ∨ sign = [45])
    (hs : sign = [] → ∀ c ∈ s.head?, c ≠ 43 ∧ c ≠ 45) :
    parseSign (sign ++ s) = (decide (sign = [45]), s) := by
  rcases hsign with rfl | rfl | rfl
  · cases s with
    | nil => rfl
    | cons c s =>
      obtain ⟨h43, h45⟩ := hs rfl c rfl
      simp [parseSign, h43, h45]
  · rfl
  · rfl

/-- `atoi` on white space, an optional sign and the digits of a value in range (`INT_MIN`
included) followed by a non-digit returns the value; with no digit after the sign it returns
`0`. -/
theorem atoi_in_range {ws sign rest : List UInt8} (hws : ∀ c ∈ ws, isspace c = true)
    (hsign : sign = [] ∨ sign = [43] ∨ sign = [45])
    (hrest : ∀ c ∈ rest.head?, isdigit c = false) :
    (∀ ds : List UInt8, ds ≠ [] → (∀ c ∈ ds, isdigit c = true) →
      INT_MIN ≤ signedValue sign ds → signedValue sign ds ≤ INT_MAX →
      atoi (ws ++ sign ++ ds ++ rest) = some (signedValue sign ds)) ∧
    ((∀ c ∈ (sign ++ rest).head?, isspace c = false) →
      (sign = [] → ∀ c ∈ rest.head?, c ≠ 43 ∧ c ≠ 45) → atoi (ws ++ sign ++ rest) = some 0) := by
  have hsign_sp : ∀ s : List UInt8, (∀ c ∈ s.head?, isspace c = false) →
      ∀ c ∈ (sign ++ s).head?, isspace c = false := by
    intro s hs c hc
    rcases hsign with rfl | rfl | rfl
    · exact hs c hc
    · simp at hc; subst hc; rfl
    · simp at hc; subst hc; rfl
  constructor
  · intro ds hne hds hlo hhi
    obtain ⟨d, ds', rfl⟩ := List.exists_cons_of_ne_nil hne
    have hd := hds d List.mem_cons_self
    have hV : digitValue (d :: ds') ≤ 2 ^ 31 := by
      unfold signedValue at hlo hhi
      unfold INT_MIN INT_MAX at *
      split_ifs at hlo hhi <;> omega
    have hdig := atoiDigits_eq hrest (d :: ds') 0 hds (by simpa using hV)
    have hd43 : d ≠ 43 ∧ d ≠ 45 := by
      constructor <;> (rintro rfl; simp [isdigit] at hd)
    rw [atoi, List.append_assoc, List.append_assoc,
      skipSpace_append hws (by simpa using hsign_sp (d :: ds' ++ rest) (by simp [isspace_of_isdigit hd])),
      parseSign_append hsign (fun _ => by simpa using hd43)]
    simp only [Int.natCast_zero, neg_zero] at hdig
    simp only [hdig, zero_mul, zero_add, Option.bind_some]
    unfold signedValue at hlo hhi ⊢
    by_cases hneg : sign = [45]
    · simp [hneg]
    · rw [if_neg hneg] at hhi
      simp only [hneg, decide_false, Bool.false_eq_true, ↓reduceIte, neg_neg]
      exact intOp_of_le (by unfold INT_MIN; omega) hhi
  · intro hsp hplus
    have hdig : atoiDigits 0 rest = some 0 := by
      simpa [digitValue] using atoiDigits_eq hrest [] 0 (by simp) (by simp [digitValue])
    have h0 : intOp 0 = some 0 := intOp_of_le (by decide) (by decide)
    rw [atoi, List.append_assoc, skipSpace_append hws hsp, parseSign_append hsign hplus]
    simp [hdig, h0]

/-- `"2147483648"`, the digits of `-INT_MIN`. -/
def intMinDigits : List UInt8 := [50, 49, 52, 55, 52, 56, 51, 54, 52, 56]

/-- `atoi (" -2147483648")` is `INT_MIN`, and `atoi (" -x")` is `0`. -/
theorem atoi_in_range_int_min :
    (∀ c ∈ ([32] : List UInt8), isspace c = true) ∧
      (([45] : List UInt8) = [] ∨ ([45] : List UInt8) = [43] ∨ ([45] : List UInt8) = [45]) ∧
      (∀ c ∈ ([] : List UInt8).head?, isdigit c = false) ∧
      atoi ([32] ++ [45] ++ intMinDigits ++ []) = some INT_MIN ∧ atoi ([32] ++ [45] ++ [120]) = some 0 := by
  have hv : signedValue [45] intMinDigits = INT_MIN := by decide +kernel
  obtain ⟨hdigits, -⟩ := @atoi_in_range [32] [45] [] (by decide +kernel) (by decide +kernel) (by simp)
  obtain ⟨-, hnone⟩ := @atoi_in_range [32] [45] [120] (by decide +kernel) (by decide +kernel) (by decide +kernel)
  refine ⟨by decide +kernel, by decide +kernel, by simp, ?_, hnone (by decide +kernel) (by simp)⟩
  rw [← hv]
  exact hdigits intMinDigits (by decide +kernel) (by decide +kernel) (by rw [hv]) (by rw [hv]; decide)

/-! ## `sort` and `qsort`

`sort` is a heap sort of the `cnt` elements of `size` bytes from `array`, with the 1-based
indices of `do_swap` and `do_compare`. The comparison function reads the `size` bytes at each
of its two pointers, and `aux`: it is a function of the two elements and `aux`. -/

section HeapSort

variable {α : Type}

/-- The `size` bytes at `p`. -/
def elemAt (mem : Nat → UInt8) (p size : Nat) : List UInt8 :=
  (List.range size).map fun k => mem (p + k)

/-- The element with 0-based index `j` of the array at `array`. -/
def elem (mem : Nat → UInt8) (array size j : Nat) : List UInt8 := elemAt mem (array + j * size) size

/-- The `cnt` elements of `size` bytes from `array`, in order. -/
def elems (mem : Nat → UInt8) (array cnt size : Nat) : List (List UInt8) :=
  (List.range cnt).map (elem mem array size)

/-- `do_swap`: the elements with 1-based indices `aIdx` and `bIdx` exchanged, byte by byte. -/
def doSwap (mem : Nat → UInt8) (array aIdx bIdx size : Nat) : Nat → UInt8 :=
  let a := array + (aIdx - 1) * size
  let b := array + (bIdx - 1) * size
  (List.range size).foldl (fun m i =>
    let t := m (a + i)
    Function.update (Function.update m (a + i) (m (b + i))) (b + i) t) mem

/-- `do_compare`. -/
def doCompare (mem : Nat → UInt8) (array aIdx bIdx size : Nat)
    (compare : List UInt8 → List UInt8 → α → Int) (aux : α) : Int :=
  compare (elemAt mem (array + (aIdx - 1) * size) size)
    (elemAt mem (array + (bIdx - 1) * size) size) aux

/-- `heapify`: float the element with index `i` down the heap of `cnt` elements. -/
def heapify (mem : Nat → UInt8) (array i cnt size : Nat)
    (compare : List UInt8 → List UInt8 → α → Int) (aux : α) : Nat → UInt8 :=
  let left := 2 * i
  let right := 2 * i + 1
  let max := i
  let max := if left ≤ cnt ∧ 0 < doCompare mem array left max size compare aux then left else max
  let max := if right ≤ cnt ∧ 0 < doCompare mem array right max size compare aux then right else max
  if max = i then mem
  else heapify (doSwap mem array i max size) array max cnt size compare aux
termination_by cnt + 1 - i
decreasing_by all_goals (simp +zetaDelta only at *; split_ifs at * <;> omega)

/-- The first loop of `sort`: `heapify` for `i = k, k - 1, …, 1`. -/
def buildLoop (mem : Nat → UInt8) (array i cnt size : Nat)
    (compare : List UInt8 → List UInt8 → α → Int) (aux : α) : Nat → UInt8 :=
  match i with
  | 0 => mem
  | i + 1 => buildLoop (heapify mem array (i + 1) cnt size compare aux) array i cnt size compare aux

/-- The second loop of `sort`: for `i = k, k - 1, …, 2`, swap the first element with the
`i`-th and `heapify` the first in the heap of `i - 1` elements. -/
def sortLoop (mem : Nat → UInt8) (array i size : Nat)
    (compare : List UInt8 → List UInt8 → α → Int) (aux : α) : Nat → UInt8 :=
  match i with
  | i + 2 => sortLoop (heapify (doSwap mem array 1 (i + 2) size) array 1 (i + 1) size compare aux)
      array (i + 1) size compare aux
  | _ => mem

/-- `sort`. -/
def sort (mem : Nat → UInt8) (array cnt size : Nat)
    (compare : List UInt8 → List UInt8 → α → Int) (aux : α) : Nat → UInt8 :=
  sortLoop (buildLoop mem array (cnt / 2) cnt size compare aux) array cnt size compare aux

end HeapSort

/-- `compare_thunk`: `qsort` passes its comparison function to `sort` as `aux`. -/
def compareThunk (a b : List UInt8) (compare : List UInt8 → List UInt8 → Int) : Int := compare a b

/-- `qsort`. -/
def qsort (mem : Nat → UInt8) (array cnt size : Nat) (compare : List UInt8 → List UInt8 → Int) :
    Nat → UInt8 :=
  sort mem array cnt size compareThunk compare

/-! ### `do_swap` and `do_compare` on elements -/

/-- The bytes `[a, a + n)` and `[b, b + n)` exchanged. -/
def swapBytes (mem : Nat → UInt8) (a b n : Nat) : Nat → UInt8 := fun x =>
  if a ≤ x ∧ x < a + n then mem (b + (x - a))
  else if b ≤ x ∧ x < b + n then mem (a + (x - b)) else mem x

/-- The element with 1-based index `j`, as `do_swap` and `do_compare` address it; there is no
element `0`. -/
def slot (mem : Nat → UInt8) (array size j : Nat) : List UInt8 :=
  if j = 0 then [] else elem mem array size (j - 1)

section
-- the equation lemmas, generated once here rather than by each proof below that unfolds
-- these definitions
attribute [local simp] sortLoop swapBytes
end

/-- The element with 1-based index `i` ends where the array of `j ≥ i` elements ends, or
before. -/
theorem block_end_le {i j : Nat} (size : Nat) (hi : 1 ≤ i) (hij : i ≤ j) : (i - 1) * size + size ≤ j * size :=
  calc (i - 1) * size + size = i * size := by rw [← Nat.succ_mul, Nat.succ_eq_add_one, Nat.sub_add_cancel hi]
    _ ≤ j * size := Nat.mul_le_mul_right size hij

/-- Byte `t` of element `k` lies in element `i` only when `k = i`. -/
theorem mem_block_iff {array size i k t : Nat} (hi : 1 ≤ i) (hk : 1 ≤ k) (ht : t < size) :
    (array + (i - 1) * size ≤ array + (k - 1) * size + t ∧
      array + (k - 1) * size + t < array + (i - 1) * size + size) ↔ k = i := by
  constructor
  · intro h
    by_contra hki
    rcases Nat.lt_or_gt_of_ne hki with hlt | hlt
    · have := block_end_le size hk (Nat.le_sub_one_of_lt hlt)
      omega
    · have := block_end_le size hi (Nat.le_sub_one_of_lt hlt)
      omega
  · rintro rfl
    omega

/-- One round of the swap loop, on the closed form. -/
theorem swapBytes_succ {mem : Nat → UInt8} {a b size k : Nat} (hd : a + size ≤ b ∨ b + size ≤ a)
    (hk : k < size) :
    Function.update (Function.update (swapBytes mem a b k) (a + k) (swapBytes mem a b k (b + k)))
      (b + k) (swapBytes mem a b k (a + k)) = swapBytes mem a b (k + 1) := by
  funext x
  simp only [Function.update_apply, swapBytes]
  split_ifs <;> first | rfl | omega | (congr 1; omega)

/-- `do_swap`'s loop on two disjoint ranges exchanges them. -/
theorem foldl_swap_eq {mem : Nat → UInt8} {a b size : Nat} (hd : a + size ≤ b ∨ b + size ≤ a) :
    ∀ k, k ≤ size → (List.range k).foldl (fun m i =>
      let t := m (a + i)
      Function.update (Function.update m (a + i) (m (b + i))) (b + i) t) mem = swapBytes mem a b k
  | 0, _ => by
    funext x
    simp only [List.range_zero, List.foldl_nil, swapBytes, Nat.add_zero]
    rw [if_neg (by omega), if_neg (by omega)]
  | k + 1, hk => by
    rw [List.range_succ, List.foldl_append, foldl_swap_eq hd k (by omega)]
    exact swapBytes_succ hd hk

theorem doSwap_eq {mem : Nat → UInt8} {array i j size : Nat} (hi : 1 ≤ i) (hj : 1 ≤ j)
    (hij : i ≠ j) :
    doSwap mem array i j size =
      swapBytes mem (array + (i - 1) * size) (array + (j - 1) * size) size := by
  have hd : array + (i - 1) * size + size ≤ array + (j - 1) * size ∨
      array + (j - 1) * size + size ≤ array + (i - 1) * size := by
    rcases Nat.lt_or_gt_of_ne hij with hlt | hlt
    · have := block_end_le size hi (Nat.le_sub_one_of_lt hlt)
      omega
    · have := block_end_le size hj (Nat.le_sub_one_of_lt hlt)
      omega
  exact foldl_swap_eq hd size (Nat.le_refl _)

/-- `do_swap` exchanges the two elements and no other. -/
theorem slot_doSwap {mem : Nat → UInt8} {array i j size : Nat} (hi : 1 ≤ i) (hj : 1 ≤ j)
    (hij : i ≠ j) : slot (doSwap mem array i j size) array size = slot mem array size ∘ Equiv.swap i j := by
  funext k
  rw [doSwap_eq hi hj hij, Function.comp_apply]
  by_cases hk : k = 0
  · subst hk
    rw [Equiv.swap_apply_of_ne_of_ne (by omega) (by omega)]
    simp [slot]
  have hk' : Equiv.swap i j k ≠ 0 := by
    rw [Equiv.swap_apply_def]
    split_ifs <;> omega
  simp only [slot, hk, hk', if_false, elem, elemAt]
  refine List.map_congr_left fun t ht => ?_
  rw [List.mem_range] at ht
  simp only [swapBytes]
  by_cases hki : k = i
  · -- byte `t` of the first element comes from the second
    subst hki
    rw [Equiv.swap_apply_left, if_pos ((mem_block_iff hi hi ht).2 rfl)]
    congr 1
    omega
  rw [if_neg (mt (mem_block_iff hi (by omega) ht).1 hki)]
  by_cases hkj : k = j
  · subst hkj
    rw [Equiv.swap_apply_right, if_pos ((mem_block_iff hj hj ht).2 rfl)]
    congr 1
    omega
  rw [if_neg (mt (mem_block_iff hj (by omega) ht).1 hkj), Equiv.swap_apply_of_ne_of_ne hki hkj]

/-- `do_swap` of two elements of the array changes no byte outside it. -/
theorem doSwap_of_outside {mem : Nat → UInt8} {array cnt i j size x : Nat} (hi : 1 ≤ i)
    (hic : i ≤ cnt) (hj : 1 ≤ j) (hjc : j ≤ cnt) (hij : i ≠ j)
    (hx : x < array ∨ array + cnt * size ≤ x) : doSwap mem array i j size x = mem x := by
  have hie := block_end_le size hi hic
  have hje := block_end_le size hj hjc
  rw [doSwap_eq hi hj hij, swapBytes, if_neg (by omega), if_neg (by omega)]

theorem doCompare_eq {α : Type} {mem : Nat → UInt8} {array a b size : Nat}
    {compare : List UInt8 → List UInt8 → α → Int} {aux : α} (ha : 1 ≤ a) (hb : 1 ≤ b) :
    doCompare mem array a b size compare aux =
      compare (slot mem array size a) (slot mem array size b) aux := by
  simp [doCompare, slot, elem, Nat.one_le_iff_ne_zero.1 ha, Nat.one_le_iff_ne_zero.1 hb]

/-! ### `heapify` and `sort` on elements -/

section Simulation

variable {α : Type} {compare : List UInt8 → List UInt8 → α → Int} {aux : α}

/-- `heapify` chooses the index `Heap.largest` chooses, by the same comparisons. -/
theorem heapify_eq {mem : Nat → UInt8} {array i cnt size : Nat} (hi : 1 ≤ i) :
    heapify mem array i cnt size compare aux =
      if Heap.largest (fun x y => compare x y aux ≤ 0) (slot mem array size) cnt i = i then mem
      else heapify (doSwap mem array i
          (Heap.largest (fun x y => compare x y aux ≤ 0) (slot mem array size) cnt i) size) array
        (Heap.largest (fun x y => compare x y aux ≤ 0) (slot mem array size) cnt i) cnt size
        compare aux := by
  have hpick : ∀ m j, 1 ≤ m → 1 ≤ j →
      (if j ≤ cnt ∧ 0 < doCompare mem array j m size compare aux then j else m) =
        Heap.pick (fun x y => compare x y aux ≤ 0) (slot mem array size) cnt m j := by
    intro m j hm hj
    simp only [Heap.pick, doCompare_eq hj hm, Int.not_le]
  have hleft : 1 ≤ Heap.pick (fun x y => compare x y aux ≤ 0) (slot mem array size) cnt i (2 * i) := by
    rcases Heap.pick_cases (fun x y => compare x y aux ≤ 0) (slot mem array size) cnt i (2 * i) with h | h <;>
      omega
  rw [heapify]
  rw [hpick i (2 * i) hi (by omega), hpick _ (2 * i + 1) hleft (by omega)]
  rfl

/-- `heapify` on the bytes is `Heap.siftDown` on the elements. -/
theorem slot_heapify_of_eq (cnt : Nat) (a : Nat → List UInt8) (i : Nat) :
    1 ≤ i → ∀ mem array size, slot mem array size = a →
      slot (heapify mem array i cnt size compare aux) array size =
        Heap.siftDown (fun x y => compare x y aux ≤ 0) a i cnt := by
  -- by the abstract sift's recursion, which `heapify` follows step for step
  induction a, i using Heap.siftDown.induct (fun x y => compare x y aux ≤ 0) (n := cnt) with
  | case1 a i hm =>
    intro hi mem array size ha
    rw [heapify_eq hi, ha, if_pos hm, Heap.siftDown, if_pos hm, ← ha]
  | case2 a i hm ih =>
    intro hi mem array size ha
    have hc := (Heap.largest_cases _ a cnt i).resolve_left hm
    rw [heapify_eq hi, ha, if_neg hm, Heap.siftDown, if_neg hm]
    exact ih (by omega) _ _ _ (by rw [slot_doSwap hi (by omega) (Ne.symm hm), ha])

theorem slot_heapify {mem : Nat → UInt8} {array i cnt size : Nat} (hi : 1 ≤ i) :
    slot (heapify mem array i cnt size compare aux) array size =
      Heap.siftDown (fun x y => compare x y aux ≤ 0) (slot mem array size) i cnt :=
  slot_heapify_of_eq cnt _ i hi mem array size rfl

/-- `heapify` changes no byte outside the array. -/
theorem heapify_of_outside (cnt : Nat) (a : Nat → List UInt8) (i : Nat) :
    1 ≤ i → ∀ mem array size, slot mem array size = a → ∀ x, x < array ∨ array + cnt * size ≤ x →
      heapify mem array i cnt size compare aux x = mem x := by
  induction a, i using Heap.siftDown.induct (fun x y => compare x y aux ≤ 0) (n := cnt) with
  | case1 a i hm =>
    intro hi mem array size ha x _
    rw [heapify_eq hi, ha, if_pos hm]
  | case2 a i hm ih =>
    intro hi mem array size ha x hx
    have hc := (Heap.largest_cases _ a cnt i).resolve_left hm
    rw [heapify_eq hi, ha, if_neg hm]
    rw [ih (by omega) _ _ _ (by rw [slot_doSwap hi (by omega) (Ne.symm hm), ha]) x hx]
    exact doSwap_of_outside hi (by omega) (by omega) hc.2 (Ne.symm hm) hx

theorem slot_buildLoop (mem : Nat → UInt8) (array i cnt size : Nat) :
    slot (buildLoop mem array i cnt size compare aux) array size =
      Heap.buildHeap (fun x y => compare x y aux ≤ 0) cnt i (slot mem array size) := by
  induction i generalizing mem with
  | zero => rfl
  | succ i ih => rw [buildLoop, ih, slot_heapify (Nat.succ_pos i), Heap.buildHeap]

theorem slot_sortLoop (mem : Nat → UInt8) (array i size : Nat) :
    slot (sortLoop mem array i size compare aux) array size =
      Heap.sortHeap (fun x y => compare x y aux ≤ 0) i (slot mem array size) := by
  induction i generalizing mem with
  | zero => rfl
  | succ i ih =>
    cases i with
    | zero => rfl
    | succ i =>
      rw [sortLoop, ih, slot_heapify (Nat.le_refl 1), slot_doSwap (Nat.le_refl 1) (by omega) (by omega),
        Heap.sortHeap]

/-- `sort` on the bytes is `Heap.heapSort` on the elements. -/
theorem slot_sort (mem : Nat → UInt8) (array cnt size : Nat) :
    slot (sort mem array cnt size compare aux) array size =
      Heap.heapSort (fun x y => compare x y aux ≤ 0) (slot mem array size) cnt := by
  rw [sort, slot_sortLoop, slot_buildLoop, Heap.heapSort]

theorem buildLoop_of_outside {mem : Nat → UInt8} {array i cnt size x : Nat}
    (hx : x < array ∨ array + cnt * size ≤ x) :
    buildLoop mem array i cnt size compare aux x = mem x := by
  induction i generalizing mem with
  | zero => rfl
  | succ i ih =>
    rw [buildLoop, ih]
    exact heapify_of_outside cnt _ (i + 1) (Nat.succ_pos i) mem array size rfl x hx

theorem sortLoop_of_outside {mem : Nat → UInt8} {array i size x : Nat}
    (hx : x < array ∨ array + i * size ≤ x) :
    sortLoop mem array i size compare aux x = mem x := by
  induction i generalizing mem with
  | zero => rfl
  | succ i ih =>
    cases i with
    | zero => rfl
    | succ i =>
      have hmono : (i + 1) * size ≤ (i + 1 + 1) * size := Nat.mul_le_mul_right size (by omega)
      rw [sortLoop, ih (by omega),
        heapify_of_outside (i + 1) _ 1 (Nat.le_refl 1) _ array size rfl x (by omega)]
      exact doSwap_of_outside (Nat.le_refl 1) (by omega) (by omega) (Nat.le_refl _) (by omega) hx

end Simulation

/-- The elements, read through the 1-based `slot`. -/
theorem elems_eq_map_slot (mem : Nat → UInt8) (array cnt size : Nat) :
    elems mem array cnt size = (List.range' 1 cnt).map (slot mem array size) := by
  rw [elems, List.range'_eq_map_range, List.map_map]
  refine List.map_congr_left fun k _ => ?_
  simp [slot]

/-! ### What `sort` and `qsort` do -/

/-- What a sort of the array leaves in `mem'`: its elements are those of `mem` permuted, in
order under `cmp`, and nothing outside the array changed. -/
def SortResult (cmp : List UInt8 → List UInt8 → Int) (mem mem' : Nat → UInt8) (array cnt size : Nat) :
    Prop :=
  (elems mem' array cnt size).Perm (elems mem array cnt size) ∧
    (elems mem' array cnt size).Pairwise (fun x y => cmp x y ≤ 0) ∧
    ∀ x, x < array ∨ array + cnt * size ≤ x → mem' x = mem x

theorem sort_spec {α : Type} {compare : List UInt8 → List UInt8 → α → Int} {aux : α}
    (h : Heap.CmpPreorder fun x y => compare x y aux) (mem : Nat → UInt8) (array cnt size : Nat) :
    SortResult (fun x y => compare x y aux) mem (sort mem array cnt size compare aux) array cnt size := by
  have := h.isTotal
  have := h.isTrans
  have hperm := (Heap.heapSort_permOn (fun x y => compare x y aux ≤ 0) (slot mem array size)
    cnt).map_range'_perm
  rw [Nat.add_sub_cancel] at hperm
  refine ⟨?_, ?_, fun x hx => ?_⟩
  · rw [elems_eq_map_slot, elems_eq_map_slot, slot_sort]
    exact hperm
  · rw [elems_eq_map_slot, slot_sort]
    exact (Heap.heapSort_sorted _ _ cnt).pairwise
  · rw [sort, sortLoop_of_outside hx, buildLoop_of_outside hx]

theorem qsort_spec {compare : List UInt8 → List UInt8 → Int} (h : Heap.CmpPreorder compare)
    (mem : Nat → UInt8) (array cnt size : Nat) :
    SortResult compare mem (qsort mem array cnt size compare) array cnt size :=
  @sort_spec _ compareThunk compare h mem array cnt size

/-! ## `binary_search` and `bsearch` -/

/-- The loop of `binary_search` between the pointers `first` and `last`; `none` when the fuel
runs out, and `some 0` is `NULL`. -/
def binarySearchLoop {α : Type} (mem : Nat → UInt8) (key size : Nat)
    (compare : List UInt8 → List UInt8 → α → Int) (aux : α) : Nat → Nat → Nat → Option Nat
  | 0, _, _ => none
  | fuel + 1, first, last =>
    if first < last then
      let range := (last - first) / size
      let middle := first + range / 2 * size
      let cmp := compare (elemAt mem key size) (elemAt mem middle size) aux
      if cmp < 0 then binarySearchLoop mem key size compare aux fuel first middle
      else if cmp > 0 then binarySearchLoop mem key size compare aux fuel (middle + size) last
      else some middle
    else some 0

/-- `binary_search`. -/
def binarySearch {α : Type} (fuel : Nat) (mem : Nat → UInt8) (key array cnt size : Nat)
    (compare : List UInt8 → List UInt8 → α → Int) (aux : α) : Option Nat :=
  binarySearchLoop mem key size compare aux fuel array (array + size * cnt)

/-- `bsearch`. -/
def bsearch (fuel : Nat) (mem : Nat → UInt8) (key array cnt size : Nat)
    (compare : List UInt8 → List UInt8 → Int) : Option Nat :=
  binarySearch fuel mem key array cnt size compareThunk compare

/-- What a search of the array for the key at `key` returns: `NULL` exactly when no element
compares equal to the key, and otherwise a pointer to an element that does. -/
def SearchResult (cmp : List UInt8 → List UInt8 → Int) (mem : Nat → UInt8)
    (key array cnt size r : Nat) : Prop :=
  (r = 0 ↔ ∀ e ∈ elems mem array cnt size, cmp (elemAt mem key size) e ≠ 0) ∧
    (r ≠ 0 → ∃ j < cnt, r = array + j * size ∧ cmp (elemAt mem key size) (elemAt mem r size) = 0)

section Search

variable {α : Type} {compare : List UInt8 → List UInt8 → α → Int} {aux : α} {mem : Nat → UInt8}
  {key array cnt size : Nat}

/-- A sorted array, by index. -/
theorem le_of_pairwise_elems (h : Heap.CmpPreorder fun x y => compare x y aux)
    (hs : (elems mem array cnt size).Pairwise fun x y => compare x y aux ≤ 0) {j l : Nat}
    (hjl : j ≤ l) (hl : l < cnt) :
    compare (elem mem array size j) (elem mem array size l) aux ≤ 0 := by
  rcases Nat.eq_or_lt_of_le hjl with rfl | hlt
  · exact (h.total _ _).elim id id
  · have := List.pairwise_iff_getElem.1 hs j l (by simp [elems]; omega) (by simp [elems]; omega) hlt
    simpa [elems] using this

/-- The loop of `binary_search` from the elements `lo` to `hi`, when every element before `lo`
is before the key and every element from `hi` on is after it. -/
theorem binarySearchLoop_spec (hsize : 0 < size) (h : Heap.CmpPreorder fun x y => compare x y aux)
    (hs : (elems mem array cnt size).Pairwise fun x y => compare x y aux ≤ 0) :
    ∀ fuel lo hi, hi - lo < fuel → lo ≤ hi → hi ≤ cnt →
      (∀ j < lo, 0 < compare (elemAt mem key size) (elem mem array size j) aux) →
      (∀ j, hi ≤ j → j < cnt → compare (elemAt mem key size) (elem mem array size j) aux < 0) →
      ∃ r, binarySearchLoop mem key size compare aux fuel (array + lo * size) (array + hi * size) =
          some r ∧
        ((r = 0 ∧ ∀ j < cnt, compare (elemAt mem key size) (elem mem array size j) aux ≠ 0) ∨
          ∃ j < cnt, r = array + j * size ∧
            compare (elemAt mem key size) (elem mem array size j) aux = 0) := by
  intro fuel
  induction fuel with
  | zero =>
    intro lo hi hf
    omega
  | succ fuel ih =>
    intro lo hi hf hlohi hhi hlow hhigh
    rw [binarySearchLoop]
    by_cases hlt : lo < hi
    · have hfl : array + lo * size < array + hi * size := by
        have := Nat.mul_lt_mul_of_pos_right hlt hsize
        omega
      -- the middle element is element `lo + (hi - lo) / 2`
      have hrange : (array + hi * size - (array + lo * size)) / size = hi - lo := by
        rw [show array + hi * size - (array + lo * size) = (hi - lo) * size by
          rw [Nat.sub_mul]; omega, Nat.mul_div_cancel _ hsize]
      have hmid : array + lo * size + (hi - lo) / 2 * size = array + (lo + (hi - lo) / 2) * size := by
        rw [Nat.add_mul]
        omega
      simp only [if_pos hfl, hrange, hmid]
      have hnext : array + (lo + (hi - lo) / 2) * size + size =
          array + (lo + (hi - lo) / 2 + 1) * size := by
        rw [Nat.succ_mul]
        omega
      by_cases hneg : compare (elemAt mem key size) (elem mem array size (lo + (hi - lo) / 2)) aux < 0
      · -- the key is before the middle element, so before every element after it
        rw [elem] at hneg
        rw [if_pos hneg]
        exact ih lo _ (by omega) (by omega) (by omega) hlow fun j hj hjc =>
          h.lt_of_lt_of_le hneg (le_of_pairwise_elems h hs hj hjc)
      · rw [elem] at hneg
        rw [if_neg hneg]
        by_cases hpos : compare (elemAt mem key size) (elem mem array size (lo + (hi - lo) / 2)) aux > 0
        · -- the key is after the middle element, so after every element before it
          rw [elem] at hpos
          rw [if_pos hpos, hnext]
          refine ih _ hi (by omega) (by omega) hhi (fun j hj => ?_) hhigh
          exact h.pos_of_le_of_pos (le_of_pairwise_elems h hs (by omega) (by omega)) hpos
        · rw [elem] at hpos
          rw [if_neg hpos]
          exact ⟨_, rfl, .inr ⟨_, by omega, rfl, by rw [elem]; omega⟩⟩
    · have hle : array + hi * size ≤ array + lo * size := by
        have := Nat.mul_le_mul_right size (Nat.le_of_not_lt hlt)
        omega
      rw [if_neg (by omega)]
      refine ⟨0, rfl, .inl ⟨rfl, fun j hj => ?_⟩⟩
      rcases Nat.lt_or_ge j lo with hjl | hjl
      · exact (hlow j hjl).ne'
      · exact (hhigh j (by omega) hj).ne

theorem binarySearch_spec (h : Heap.CmpPreorder fun x y => compare x y aux) (hsize : 0 < size)
    (harray : 0 < array) (hs : (elems mem array cnt size).Pairwise fun x y => compare x y aux ≤ 0)
    {fuel : Nat} (hfuel : cnt < fuel) :
    ∃ r, binarySearch fuel mem key array cnt size compare aux = some r ∧
      SearchResult (fun x y => compare x y aux) mem key array cnt size r := by
  obtain ⟨r, hr, hspec⟩ := @binarySearchLoop_spec _ compare aux mem key array cnt size hsize h hs
    fuel 0 cnt (by omega) (Nat.zero_le _) (Nat.le_refl _) (fun j hj => absurd hj (Nat.not_lt_zero j))
    (fun j hj hjc => absurd hjc (by omega))
  rw [Nat.zero_mul, Nat.add_zero, Nat.mul_comm] at hr
  refine ⟨r, hr, ?_⟩
  have hmem : ∀ e, e ∈ elems mem array cnt size ↔ ∃ j < cnt, elem mem array size j = e := by
    simp [elems]
  rcases hspec with ⟨rfl, hnone⟩ | ⟨j, hj, rfl, heq⟩
  · refine ⟨iff_of_true rfl fun e he => ?_, fun h0 => absurd rfl h0⟩
    obtain ⟨j, hj, rfl⟩ := (hmem e).1 he
    exact hnone j hj
  · have hne : array + j * size ≠ 0 := by omega
    refine ⟨iff_of_false hne fun hall => hall _ ((hmem _).2 ⟨j, hj, rfl⟩) heq, fun _ => ⟨j, hj, rfl, heq⟩⟩

theorem bsearch_spec {compare : List UInt8 → List UInt8 → Int} (h : Heap.CmpPreorder compare)
    (hsize : 0 < size) (harray : 0 < array)
    (hs : (elems mem array cnt size).Pairwise fun x y => compare x y ≤ 0) {fuel : Nat}
    (hfuel : cnt < fuel) :
    ∃ r, bsearch fuel mem key array cnt size compare = some r ∧
      SearchResult compare mem key array cnt size r :=
  @binarySearch_spec _ compareThunk compare mem key array cnt size h hsize harray hs fuel hfuel

end Search

/-- `sort` and `qsort` permute the array into order under any comparison whose sign is a total
preorder, changing nothing else; `binary_search` and `bsearch`, on an array sorted under it,
return a pointer to an element comparing equal to the key, or `NULL` when there is none. -/
theorem sort_and_bsearch_spec :
    (∀ {α : Type} (compare : List UInt8 → List UInt8 → α → Int) (aux : α) (mem : Nat → UInt8)
        (array cnt size : Nat), Heap.CmpPreorder (fun x y => compare x y aux) →
        SortResult (fun x y => compare x y aux) mem (sort mem array cnt size compare aux)
          array cnt size) ∧
      (∀ (compare : List UInt8 → List UInt8 → Int) (mem : Nat → UInt8) (array cnt size : Nat),
        Heap.CmpPreorder compare →
        SortResult compare mem (qsort mem array cnt size compare) array cnt size) ∧
      (∀ {α : Type} (compare : List UInt8 → List UInt8 → α → Int) (aux : α) (fuel : Nat)
        (mem : Nat → UInt8) (key array cnt size : Nat),
        Heap.CmpPreorder (fun x y => compare x y aux) → 0 < size → 0 < array →
        (elems mem array cnt size).Pairwise (fun x y => compare x y aux ≤ 0) → cnt < fuel →
        ∃ r, binarySearch fuel mem key array cnt size compare aux = some r ∧
          SearchResult (fun x y => compare x y aux) mem key array cnt size r) ∧
      (∀ (compare : List UInt8 → List UInt8 → Int) (fuel : Nat) (mem : Nat → UInt8)
        (key array cnt size : Nat), Heap.CmpPreorder compare → 0 < size → 0 < array →
        (elems mem array cnt size).Pairwise (fun x y => compare x y ≤ 0) → cnt < fuel →
        ∃ r, bsearch fuel mem key array cnt size compare = some r ∧
          SearchResult compare mem key array cnt size r) :=
  ⟨fun _ _ mem array cnt size h => sort_spec h mem array cnt size,
    fun _ mem array cnt size h => qsort_spec h mem array cnt size,
    fun _ _ _ _ _ _ _ _ h hsize harray hs hfuel => binarySearch_spec h hsize harray hs hfuel,
    fun _ _ _ _ _ _ _ h hsize harray hs hfuel => bsearch_spec h hsize harray hs hfuel⟩

/-- Comparison of elements by their first byte. -/
def byteCmp (x y : List UInt8) : Int := ((x.headD 0).toNat : Int) - ((y.headD 0).toNat : Int)

/-- The one-byte elements `1, 2, 3` at address 10, and the key `2` at address 20. -/
def sortedBytes (a : Nat) : UInt8 :=
  if a = 10 then 1 else if a = 11 then 2 else if a = 12 then 3 else if a = 20 then 2 else 0

theorem sort_and_bsearch_spec_bytes :
    Heap.CmpPreorder byteCmp ∧ (elems sortedBytes 10 3 1).Pairwise (fun x y => byteCmp x y ≤ 0) ∧
      SortResult (fun x y => compareThunk x y byteCmp) sortedBytes
        (sort sortedBytes 10 3 1 compareThunk byteCmp) 10 3 1 ∧
      SortResult byteCmp sortedBytes (qsort sortedBytes 10 3 1 byteCmp) 10 3 1 ∧
      (∃ r, binarySearch 4 sortedBytes 20 10 3 1 compareThunk byteCmp = some r ∧
        SearchResult (fun x y => compareThunk x y byteCmp) sortedBytes 20 10 3 1 r) ∧
      ∃ r, bsearch 4 sortedBytes 20 10 3 1 byteCmp = some r ∧
        SearchResult byteCmp sortedBytes 20 10 3 1 r := by
  have h : Heap.CmpPreorder byteCmp :=
    ⟨fun x y => by unfold byteCmp; omega, fun x y z => by unfold byteCmp; omega⟩
  have hs : (elems sortedBytes 10 3 1).Pairwise (fun x y => byteCmp x y ≤ 0) := by decide
  obtain ⟨hsort, hqsort, hbin, hbs⟩ := sort_and_bsearch_spec
  exact ⟨h, hs, hsort compareThunk byteCmp sortedBytes 10 3 1 h, hqsort byteCmp sortedBytes 10 3 1 h,
    hbin compareThunk byteCmp 4 sortedBytes 20 10 3 1 h (by decide) (by decide) hs (by decide),
    hbs byteCmp 4 sortedBytes 20 10 3 1 h (by decide) (by decide) hs (by decide)⟩

end Pintos.Stdlib
