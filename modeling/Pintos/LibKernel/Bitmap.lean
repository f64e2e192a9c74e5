import Mathlib.Data.Nat.Bitwise

/-!
# Bitmaps: `lib/kernel/bitmap.c`

A `struct bitmap` is an array of `elem_type` words (`unsigned long`, 32 bits on the i386),
bit `k` of the bitmap being bit `k % ELEM_BITS` of word `k / ELEM_BITS`.  The model keeps that
encoding: `bitmapMark`, `bitmapReset` and `bitmapTest` work on words with `bitMask`, and the
loops of `bitmap_set_multiple`, `bitmap_contains` and `bitmap_scan` run over index ranges as
the source's `for` loops do.  A scan's `BITMAP_ERROR` is `none`.

## Results

* `bitmapTest_mark`, `bitmapTest_reset`, `bitmapTest_set` — the word updates change exactly the
  bit they name.
* `bitmapTest_setMultiple` — `bitmap_set_multiple` sets exactly the bits of its range.
* `bitmapContains_iff` — `bitmap_contains` tests the range.
* `bitmapScan_eq_some`, `bitmapScan_eq_none` — `bitmap_scan` finds the first group of `cnt`
  bits all equal to `value` at or after `start`, and fails only when there is none.
* `bitmapScan_eq_of` — a group that starts where every earlier start fails is the one found;
  `bitmapScan_zero_eq_of` is its first-fit case.
* `bitmapTest_create` — a new bitmap is all false.
-/

set_option autoImplicit false

namespace Pintos

/-- `ELEM_BITS`. -/
def ELEM_BITS : Nat := 32

/-- `elem_idx`: the word holding a bit. -/
def elemIdx (bitIdx : Nat) : Nat := bitIdx / ELEM_BITS

/-- `bit_mask`: the mask of a bit within its word. -/
def bitMask (bitIdx : Nat) : UInt32 := 1 <<< (bitIdx % ELEM_BITS).toUInt32

/-- `elem_cnt`: the words that hold `bitCnt` bits. -/
def elemCnt (bitCnt : Nat) : Nat := (bitCnt + ELEM_BITS - 1) / ELEM_BITS

/-- `byte_cnt`: the bytes of those words. -/
def byteCnt (bitCnt : Nat) : Nat := 4 * elemCnt bitCnt

/-- `struct bitmap`: its words are exactly the ones `elem_cnt` asks for. -/
structure Bitmap where
  bitCnt : Nat
  bits : List UInt32
  bits_length : bits.length = elemCnt bitCnt

namespace Bitmap

/-- `bitmap_create`: all bits false. -/
def bitmapCreate (bitCnt : Nat) : Bitmap :=
  ⟨bitCnt, List.replicate (elemCnt bitCnt) 0, List.length_replicate⟩

/-- `bitmap_size`. -/
def bitmapSize (b : Bitmap) : Nat := b.bitCnt

/-- `bitmap_mark`. -/
def bitmapMark (b : Bitmap) (bitIdx : Nat) : Bitmap :=
  ⟨b.bitCnt, b.bits.modify (elemIdx bitIdx) (· ||| bitMask bitIdx),
    (List.length_modify _ _ _).trans b.bits_length⟩

/-- `bitmap_reset`. -/
def bitmapReset (b : Bitmap) (bitIdx : Nat) : Bitmap :=
  ⟨b.bitCnt, b.bits.modify (elemIdx bitIdx) (· &&& ~~~bitMask bitIdx),
    (List.length_modify _ _ _).trans b.bits_length⟩

/-- `bitmap_set`. -/
def bitmapSet (b : Bitmap) (idx : Nat) (value : Bool) : Bitmap :=
  if value then b.bitmapMark idx else b.bitmapReset idx

/-- `bitmap_test`. -/
def bitmapTest (b : Bitmap) (idx : Nat) : Bool :=
  (b.bits.getD (elemIdx idx) 0 &&& bitMask idx) != 0

/-- `bitmap_set_multiple`. -/
def bitmapSetMultiple (b : Bitmap) (start cnt : Nat) (value : Bool) : Bitmap :=
  (List.range cnt).foldl (fun b i => b.bitmapSet (start + i) value) b

/-- `bitmap_contains`. -/
def bitmapContains (b : Bitmap) (start cnt : Nat) (value : Bool) : Bool :=
  (List.range cnt).any fun i => b.bitmapTest (start + i) == value

/-- `bitmap_all`. -/
def bitmapAll (b : Bitmap) (start cnt : Nat) : Bool := !b.bitmapContains start cnt false

/-- `bitmap_scan`: the loop runs `i` from `start` to `last = bit_cnt - cnt`. -/
def bitmapScan (b : Bitmap) (start cnt : Nat) (value : Bool) : Option Nat :=
  if cnt ≤ b.bitCnt then
    (List.range' start (b.bitCnt - cnt + 1 - start)).find? fun i =>
      !b.bitmapContains i cnt (!value)
  else none

/-- `bitmap_scan_and_flip`. -/
def bitmapScanAndFlip (b : Bitmap) (start cnt : Nat) (value : Bool) : Option Nat × Bitmap :=
  match b.bitmapScan start cnt value with
  | some idx => (some idx, b.bitmapSetMultiple idx cnt (!value))
  | none => (none, b)

/-! ## Words and masks -/

theorem toNat_bitMask (i : Nat) : (bitMask i).toNat = 2 ^ (i % 32) := by
  have h : i % 32 < 32 := Nat.mod_lt _ (by decide)
  have hp : 2 ^ (i % 32) < 2 ^ 32 := Nat.pow_lt_pow_right (by decide) h
  simpa [bitMask, ELEM_BITS, UInt32.toNat_shiftLeft, Nat.shiftLeft_eq] using hp

theorem testBit_bitMask (i j : Nat) : (bitMask i).toNat.testBit j = decide (j = i % 32) := by
  rw [toNat_bitMask, Nat.testBit_two_pow]
  simp [eq_comm]

theorem and_bitMask_ne_zero (w : UInt32) (i : Nat) :
    ((w &&& bitMask i) != 0) = w.toNat.testBit (i % 32) := by
  rw [Bool.eq_iff_iff, bne_iff_ne, ne_eq, ← UInt32.toNat_inj, UInt32.toNat_and, toNat_bitMask,
    Nat.and_two_pow]
  cases w.toNat.testBit (i % 32) <;> simp

theorem testBit_or_bitMask (w : UInt32) (i j : Nat) :
    (w ||| bitMask i).toNat.testBit j = (w.toNat.testBit j || decide (j = i % 32)) := by
  rw [UInt32.toNat_or, Nat.testBit_or, testBit_bitMask]

theorem testBit_and_not_bitMask (w : UInt32) (i j : Nat) (hj : j < 32) :
    (w &&& ~~~bitMask i).toNat.testBit j = (w.toNat.testBit j && !decide (j = i % 32)) := by
  have h := testBit_bitMask i j
  rw [UInt32.toNat, BitVec.testBit_toNat] at h ⊢
  rw [UInt32.toNat, BitVec.testBit_toNat, UInt32.toBitVec_and, UInt32.toBitVec_not,
    BitVec.getLsbD_and, BitVec.getLsbD_not, h]
  simp [hj]

/-- Two bits are equal when their words and their places in the word are. -/
theorem eq_iff_elemIdx_mod (i j : Nat) : j = i ↔ elemIdx j = elemIdx i ∧ j % 32 = i % 32 := by
  unfold elemIdx ELEM_BITS
  omega

/-! ## Single bits -/

variable (b : Bitmap)

theorem bitmapTest_eq (i : Nat) :
    b.bitmapTest i = (b.bits.getD (elemIdx i) 0).toNat.testBit (i % 32) := by
  rw [bitmapTest, and_bitMask_ne_zero]

theorem elemIdx_lt {i : Nat} (hi : i < b.bitCnt) : elemIdx i < b.bits.length := by
  rw [b.bits_length]
  unfold elemIdx elemCnt ELEM_BITS
  omega

/-- The word a modified list holds at `j`. -/
theorem getD_modify {l : List UInt32} {i j : Nat} (f : UInt32 → UInt32) (hi : i < l.length) :
    (l.modify i f).getD j 0 = if i = j then f (l.getD j 0) else l.getD j 0 := by
  rw [List.getD_eq_getElem?_getD, List.getD_eq_getElem?_getD, List.getElem?_modify]
  by_cases hij : i = j
  · subst hij
    simp [List.getElem?_eq_getElem hi]
  · cases l[j]? <;> simp [hij]

@[simp] theorem bitCnt_mark (i : Nat) : (b.bitmapMark i).bitCnt = b.bitCnt := rfl

@[simp] theorem bitCnt_reset (i : Nat) : (b.bitmapReset i).bitCnt = b.bitCnt := rfl

@[simp] theorem bitCnt_set (i : Nat) (v : Bool) : (b.bitmapSet i v).bitCnt = b.bitCnt := by
  unfold bitmapSet
  split <;> rfl

theorem bitmapTest_mark {i : Nat} (hi : i < b.bitCnt) (j : Nat) :
    (b.bitmapMark i).bitmapTest j = (b.bitmapTest j || decide (j = i)) := by
  rw [bitmapTest_eq, bitmapTest_eq]
  simp only [bitmapMark]
  rw [getD_modify _ (b.elemIdx_lt hi)]
  by_cases hw : elemIdx i = elemIdx j
  · rw [if_pos hw, testBit_or_bitMask]
    simp [eq_iff_elemIdx_mod i j, hw]
  · rw [if_neg hw]
    simp [eq_iff_elemIdx_mod i j, Ne.symm hw]

theorem bitmapTest_reset {i : Nat} (hi : i < b.bitCnt) (j : Nat) :
    (b.bitmapReset i).bitmapTest j = (b.bitmapTest j && !decide (j = i)) := by
  rw [bitmapTest_eq, bitmapTest_eq]
  simp only [bitmapReset]
  rw [getD_modify _ (b.elemIdx_lt hi)]
  by_cases hw : elemIdx i = elemIdx j
  · rw [if_pos hw, testBit_and_not_bitMask _ _ _ (Nat.mod_lt _ (by decide))]
    simp [eq_iff_elemIdx_mod i j, hw]
  · rw [if_neg hw]
    simp [eq_iff_elemIdx_mod i j, Ne.symm hw]

theorem bitmapTest_set {i : Nat} (hi : i < b.bitCnt) (v : Bool) (j : Nat) :
    (b.bitmapSet i v).bitmapTest j = if j = i then v else b.bitmapTest j := by
  unfold bitmapSet
  cases v
  · rw [if_neg Bool.false_ne_true, bitmapTest_reset _ hi]
    by_cases h : j = i <;> simp [h]
  · rw [if_pos rfl, bitmapTest_mark _ hi]
    by_cases h : j = i <;> simp [h]

theorem bitmapTest_create (n j : Nat) : (bitmapCreate n).bitmapTest j = false := by
  simp only [bitmapCreate, bitmapTest, List.getD_eq_getElem?_getD, List.getElem?_replicate]
  split <;> simp

/-! ## Ranges -/

@[simp] theorem bitCnt_setMultiple (start cnt : Nat) (v : Bool) :
    (b.bitmapSetMultiple start cnt v).bitCnt = b.bitCnt := by
  induction cnt with
  | zero => rfl
  | succ n ih =>
    rw [bitmapSetMultiple, List.range_succ, List.foldl_append] at *
    simp [ih]

theorem bitmapTest_setMultiple {start cnt : Nat} (h : start + cnt ≤ b.bitCnt) (v : Bool)
    (j : Nat) : (b.bitmapSetMultiple start cnt v).bitmapTest j =
      if start ≤ j ∧ j < start + cnt then v else b.bitmapTest j := by
  induction cnt with
  | zero =>
    simp only [bitmapSetMultiple, List.range_zero, List.foldl_nil]
    rw [if_neg (by omega)]
  | succ n ih =>
    have hn : (b.bitmapSetMultiple start n v).bitCnt = b.bitCnt := bitCnt_setMultiple b start n v
    have step : b.bitmapSetMultiple start (n + 1) v =
        (b.bitmapSetMultiple start n v).bitmapSet (start + n) v := by
      simp [bitmapSetMultiple, List.range_succ, List.foldl_append]
    rw [step, bitmapTest_set _ (by omega), ih (by omega)]
    by_cases hj : j = start + n
    · simp [hj]
    · rw [if_neg hj]
      by_cases hr : start ≤ j ∧ j < start + n
      · rw [if_pos hr, if_pos (by omega)]
      · rw [if_neg hr, if_neg (by omega)]

theorem bitmapContains_iff (start cnt : Nat) (v : Bool) :
    b.bitmapContains start cnt v = true ↔
      ∃ j, start ≤ j ∧ j < start + cnt ∧ b.bitmapTest j = v := by
  simp only [bitmapContains, List.any_eq_true, List.mem_range, beq_iff_eq]
  constructor
  · rintro ⟨i, hi, ht⟩
    exact ⟨start + i, by omega, by omega, ht⟩
  · rintro ⟨j, hs, hj, ht⟩
    exact ⟨j - start, by omega, by rwa [Nat.add_sub_cancel' hs]⟩

/-- No bit of the range differs from `v`. -/
theorem bitmapContains_not_eq_false {start cnt : Nat} {v : Bool} :
    b.bitmapContains start cnt (!v) = false ↔
      ∀ j, start ≤ j → j < start + cnt → b.bitmapTest j = v := by
  rw [← Bool.not_eq_true, bitmapContains_iff]
  constructor
  · intro h j hs hj
    by_contra hne
    exact h ⟨j, hs, hj, by cases v <;> simp_all⟩
  · rintro h ⟨j, hs, hj, ht⟩
    rw [h j hs hj] at ht
    cases v <;> simp at ht

/-- A found group lies in the bitmap, has all its bits equal to `v`, and no earlier start at or
after `start` has. -/
theorem bitmapScan_eq_some {start cnt : Nat} {v : Bool} {i : Nat}
    (h : b.bitmapScan start cnt v = some i) :
    start ≤ i ∧ i + cnt ≤ b.bitCnt ∧ (∀ j, i ≤ j → j < i + cnt → b.bitmapTest j = v) ∧
      ∀ i', start ≤ i' → i' < i → ∃ j, i' ≤ j ∧ j < i' + cnt ∧ b.bitmapTest j ≠ v := by
  unfold bitmapScan at h
  split at h
  · rename_i hcnt
    obtain ⟨hp, k, hk, rfl, hmin⟩ := List.find?_eq_some_iff_getElem.mp h
    simp only [List.length_range'] at hk
    simp only [List.getElem_range', Nat.one_mul, Bool.not_eq_eq_eq_not, Bool.not_true] at hp ⊢
    refine ⟨by omega, by omega, (b.bitmapContains_not_eq_false).mp hp, ?_⟩
    intro i' hs hi'
    have hm := hmin (i' - start) (by omega)
    simp only [List.getElem_range', Nat.one_mul, Bool.not_not] at hm
    rw [Nat.add_sub_cancel' hs] at hm
    obtain ⟨j, hj1, hj2, hj⟩ := (b.bitmapContains_iff _ _ _).mp hm
    exact ⟨j, hj1, hj2, by cases v <;> simp_all⟩
  · cases h

/-- A scan fails only when no group of `cnt` bits equal to `v` starts at or after `start`. -/
theorem bitmapScan_eq_none {start cnt : Nat} {v : Bool} (h : b.bitmapScan start cnt v = none)
    (i : Nat) (hs : start ≤ i) (hi : i + cnt ≤ b.bitCnt) :
    ∃ j, i ≤ j ∧ j < i + cnt ∧ b.bitmapTest j ≠ v := by
  unfold bitmapScan at h
  rw [if_pos (by omega), List.find?_eq_none] at h
  have hm := h i (List.mem_range'_1.mpr ⟨hs, by omega⟩)
  simp only [Bool.not_eq_true', Bool.not_eq_false] at hm
  obtain ⟨j, hj1, hj2, hj⟩ := (b.bitmapContains_iff _ _ _).mp hm
  exact ⟨j, hj1, hj2, by cases v <;> simp_all⟩

/-- A group of `cnt` bits equal to `v` at `i`, where every earlier start at or after `start`
fails, is the group `bitmap_scan` finds. -/
theorem bitmapScan_eq_of {start cnt : Nat} {v : Bool} {i : Nat} (hs : start ≤ i)
    (hfit : i + cnt ≤ b.bitCnt) (hall : ∀ j, i ≤ j → j < i + cnt → b.bitmapTest j = v)
    (hmin : ∀ i', start ≤ i' → i' < i → ∃ j, i' ≤ j ∧ j < i' + cnt ∧ b.bitmapTest j ≠ v) :
    b.bitmapScan start cnt v = some i := by
  cases h : b.bitmapScan start cnt v with
  | none =>
    obtain ⟨j, h1, h2, hj⟩ := b.bitmapScan_eq_none h i hs hfit
    exact absurd (hall j h1 h2) hj
  | some i' =>
    obtain ⟨hs', -, hall', hlow⟩ := b.bitmapScan_eq_some h
    rcases Nat.lt_trichotomy i' i with hlt | rfl | hgt
    · obtain ⟨j, h1, h2, hj⟩ := hmin i' hs' hlt
      exact absurd (hall' j h1 h2) hj
    · rfl
    · obtain ⟨j, h1, h2, hj⟩ := hlow i hs hgt
      exact absurd (hall j h1 h2) hj

/-- First fit from bit 0: every bit below `k` differs from `v` and `cnt` bits at `k` equal it. -/
theorem bitmapScan_zero_eq_of {k cnt : Nat} {v : Bool} (hcnt : 0 < cnt)
    (hfit : k + cnt ≤ b.bitCnt) (hbelow : ∀ j < k, b.bitmapTest j = !v)
    (hall : ∀ j, k ≤ j → j < k + cnt → b.bitmapTest j = v) :
    b.bitmapScan 0 cnt v = some k :=
  b.bitmapScan_eq_of (Nat.zero_le k) hfit hall fun i' _ hi' =>
    ⟨i', le_rfl, by omega, by simp [hbelow i' hi']⟩

end Bitmap

end Pintos
