import Mathlib.Data.Rat.Floor
import Mathlib.Tactic.Linarith

/-!
# `threads/fixed-point.h`: 16.16 fixed point

A `fixed_point_t` holds an `int f` and stands for `f / 2 ^ 16`.  An `int` is 32 bits: a value
computed in `long long` and stored in the `int` of `__mk_fix` keeps its residue modulo `2 ^ 32`
(`toInt`), as GCC converts it, and so does an `int` sum or product that leaves the range.
Division is C's, truncating toward zero (`Int.tdiv`); a failed `ASSERT` and a division by zero
give `none`.

The meaning of each helper is stated over `ℚ` with two roundings of a rational to an integer,
`truncate` (toward zero) and `roundHalfAway` (to the nearest integer, halves away from zero).

* `fixTrunc_eq`, `fixMul_eq`, `fixDiv_eq`, `fixUnscale_eq`: truncation, product and quotient
  are the exact values truncated toward zero to a multiple of `2 ^ -16`, when they fit.
* `fixRound_of_nonneg`, `fixRound_of_neg_small`: `fix_round` rounds correctly from `-1/2`
  (excluded) up.  `fixRound_of_le_neg_half`: from `-1/2` down it returns one more than the
  nearest integer: `(x.f + 2 ^ 15) / 2 ^ 16` truncates toward zero, which for a negative sum is
  upward, so `fix_round (-1.5) = -1` and even `fix_round (-1.0) = 0`.
* `fixInt_wraps`: `FIX_MAX_INT` is `2 ^ 16 - 1`, but an `int` holds `n * 2 ^ 16` only below
  `2 ^ 15`, so `fix_int (n)` for `2 ^ 15 ≤ n ≤ FIX_MAX_INT` passes its `ASSERT` and returns
  `n - 2 ^ 16`.
-/

set_option autoImplicit false

namespace Pintos.Fixed

/-! ## Rounding rationals -/

/-- `q` truncated toward zero. -/
def truncate (q : ℚ) : ℤ := if 0 ≤ q then ⌊q⌋ else -⌊-q⌋

/-- The integer nearest to `q`, halves rounded away from zero. -/
def roundHalfAway (q : ℚ) : ℤ := if 0 ≤ q then ⌊q + 1 / 2⌋ else -⌊-q + 1 / 2⌋

theorem div_nonneg_iff_of_pos {a : ℤ} {d : ℕ} (hd : 0 < d) : (0 : ℚ) ≤ (a : ℚ) / d ↔ 0 ≤ a := by
  have hd' : (0 : ℚ) < d := by exact_mod_cast hd
  rw [div_nonneg_iff]
  constructor
  · rintro (⟨ha, -⟩ | ⟨-, hd''⟩)
    · exact_mod_cast ha
    · exact absurd hd'' (not_le.mpr hd')
  · intro ha
    exact .inl ⟨by exact_mod_cast ha, hd'.le⟩

/-- C's division by a positive divisor truncates the exact quotient. -/
theorem truncate_div_natCast (a : ℤ) {d : ℕ} (hd : 0 < d) : truncate ((a : ℚ) / d) = a.tdiv d := by
  unfold truncate
  by_cases ha : 0 ≤ a
  · rw [if_pos ((div_nonneg_iff_of_pos hd).mpr ha), Rat.floor_intCast_div_natCast,
      Int.tdiv_eq_ediv_of_nonneg ha]
  · rw [if_neg (fun h => ha ((div_nonneg_iff_of_pos hd).mp h)), ← neg_div,
      show -(a : ℚ) = ((-a : ℤ) : ℚ) by push_cast; ring, Rat.floor_intCast_div_natCast,
      ← Int.tdiv_eq_ediv_of_nonneg (by omega), Int.neg_tdiv, neg_neg]

/-- C's division by any non-zero divisor truncates the exact quotient. -/
theorem truncate_div (a b : ℤ) (hb : b ≠ 0) : truncate ((a : ℚ) / b) = a.tdiv b := by
  rcases lt_or_gt_of_ne hb with hb | hb
  · have hq : (a : ℚ) / b = ((-a : ℤ) : ℚ) / ((-b).toNat : ℕ) := by
      rw [show (((-b).toNat : ℕ) : ℚ) = ((-b : ℤ) : ℚ) by
        rw [show ((-b).toNat : ℚ) = (((-b).toNat : ℤ) : ℚ) from rfl, Int.toNat_of_nonneg (by omega)]]
      push_cast
      rw [neg_div_neg_eq]
    rw [hq, truncate_div_natCast _ (by omega), Int.toNat_of_nonneg (by omega), Int.neg_tdiv,
      Int.tdiv_neg, neg_neg]
  · have hq : (a : ℚ) / b = (a : ℚ) / (b.toNat : ℕ) := by
      rw [show ((b.toNat : ℕ) : ℚ) = ((b : ℤ) : ℚ) by
        rw [show (b.toNat : ℚ) = ((b.toNat : ℤ) : ℚ) from rfl, Int.toNat_of_nonneg (by omega)]]
    rw [hq, truncate_div_natCast _ (by omega), Int.toNat_of_nonneg (by omega)]

/-! ## The model -/

/-- `FIX_Q`, the fraction bits. -/
def FIX_Q : Nat := 16

/-- `FIX_F`, `1 << FIX_Q`. -/
def FIX_F : Int := 2 ^ FIX_Q

/-- `FIX_P`, the integer bits. -/
def FIX_P : Nat := 16

/-- `FIX_MAX_INT`, `(1 << FIX_P) - 1`. -/
def FIX_MAX_INT : Int := 2 ^ FIX_P - 1

/-- `FIX_MIN_INT`, `-FIX_MAX_INT`. -/
def FIX_MIN_INT : Int := -FIX_MAX_INT

/-- The value a 32-bit `int` keeps of `x`. -/
def toInt (x : Int) : Int := x.bmod (2 ^ 32)

/-- `x` fits in an `int`. -/
def InInt (x : Int) : Prop := -2 ^ 31 ≤ x ∧ x < 2 ^ 31

instance (x : Int) : Decidable (InInt x) := inferInstanceAs (Decidable (_ ∧ _))

/-- `fixed_point_t`. -/
structure FixedPoint where
  f : Int
  deriving DecidableEq, Repr

/-- The number a `fixed_point_t` stands for. -/
def FixedPoint.val (x : FixedPoint) : ℚ := x.f / 2 ^ 16

/-- `__mk_fix`: the argument converted to `int`. -/
def mkFix (f : Int) : FixedPoint := ⟨toInt f⟩

/-- `fix_int`. -/
def fixInt (n : Int) : Option FixedPoint :=
  if n ≥ FIX_MIN_INT ∧ n ≤ FIX_MAX_INT then some (mkFix (n * FIX_F)) else none

/-- `fix_frac`. -/
def fixFrac (n d : Int) : Option FixedPoint :=
  if d = 0 then none
  else if n.tdiv d ≥ FIX_MIN_INT ∧ n.tdiv d ≤ FIX_MAX_INT then some (mkFix ((n * FIX_F).tdiv d))
  else none

/-- `fix_round`. -/
def fixRound (x : FixedPoint) : Int := (toInt (x.f + FIX_F / 2)).tdiv FIX_F

/-- `fix_trunc`. -/
def fixTrunc (x : FixedPoint) : Int := x.f.tdiv FIX_F

/-- `fix_add`. -/
def fixAdd (x y : FixedPoint) : FixedPoint := mkFix (x.f + y.f)

/-- `fix_sub`. -/
def fixSub (x y : FixedPoint) : FixedPoint := mkFix (x.f - y.f)

/-- `fix_mul`, through `long long`. -/
def fixMul (x y : FixedPoint) : FixedPoint := mkFix ((x.f * y.f).tdiv FIX_F)

/-- `fix_scale`. -/
def fixScale (x : FixedPoint) (n : Int) : Option FixedPoint :=
  if n ≥ 0 then some (mkFix (x.f * n)) else none

/-- `fix_div`, through `long long`; `none` for a zero divisor. -/
def fixDiv (x y : FixedPoint) : Option FixedPoint :=
  if y.f = 0 then none else some (mkFix ((x.f * FIX_F).tdiv y.f))

/-- `fix_unscale`. -/
def fixUnscale (x : FixedPoint) (n : Int) : Option FixedPoint :=
  if n > 0 then some (mkFix (x.f.tdiv n)) else none

/-- `fix_inv`. -/
def fixInv (x : FixedPoint) : Option FixedPoint := (fixInt 1).bind fun one => fixDiv one x

/-- `fix_compare`. -/
def fixCompare (x y : FixedPoint) : Int := if x.f < y.f then -1 else if x.f > y.f then 1 else 0

/-! ## `int` values -/

theorem toInt_of_inInt {x : Int} (h : InInt x) : toInt x = x := by
  unfold toInt InInt at *
  rw [Int.bmod_def]
  split_ifs <;> omega

@[simp] theorem FIX_F_eq : FIX_F = 65536 := rfl

theorem val_eq (x : FixedPoint) : x.val = (x.f : ℚ) / (65536 : ℕ) := by
  simp [FixedPoint.val]
  norm_num

/-! ## Truncation, product and quotient -/

/-- `fix_trunc` truncates the value toward zero. -/
theorem fixTrunc_eq (x : FixedPoint) : fixTrunc x = truncate x.val := by
  rw [val_eq, truncate_div_natCast _ (by decide)]
  rfl

/-- `fix_mul` is the exact product truncated toward zero to a multiple of `2 ^ -16`, when that
fits in an `int`. -/
theorem fixMul_eq (x y : FixedPoint) (h : InInt (truncate (x.val * y.val * 2 ^ 16))) :
    (fixMul x y).f = truncate (x.val * y.val * 2 ^ 16) := by
  have hq : x.val * y.val * 2 ^ 16 = ((x.f * y.f : ℤ) : ℚ) / (65536 : ℕ) := by
    simp only [FixedPoint.val]
    push_cast
    ring
  rw [hq, truncate_div_natCast _ (by decide)] at h ⊢
  exact toInt_of_inInt h

/-- `fix_div` by a non-zero `y` is the exact quotient truncated toward zero to a multiple of
`2 ^ -16`, when that fits in an `int`. -/
theorem fixDiv_eq (x y : FixedPoint) (hy : y.f ≠ 0)
    (h : InInt (truncate (x.val / y.val * 2 ^ 16))) :
    fixDiv x y = some ⟨truncate (x.val / y.val * 2 ^ 16)⟩ := by
  have hy' : (y.f : ℚ) ≠ 0 := by exact_mod_cast hy
  have hq : x.val / y.val * 2 ^ 16 = ((x.f * 65536 : ℤ) : ℚ) / (y.f : ℤ) := by
    simp only [FixedPoint.val]
    field_simp
    push_cast
    ring
  rw [hq, truncate_div _ _ hy] at h ⊢
  rw [fixDiv, if_neg hy, mkFix, FIX_F_eq, toInt_of_inInt h]

/-- `fix_unscale` by a positive `n` truncates the quotient toward zero. -/
theorem fixUnscale_eq (x : FixedPoint) {n : Int} (hn : 0 < n)
    (h : InInt (truncate (x.val / n * 2 ^ 16))) :
    fixUnscale x n = some ⟨truncate (x.val / n * 2 ^ 16)⟩ := by
  have hq : x.val / n * 2 ^ 16 = ((x.f : ℤ) : ℚ) / (n : ℤ) := by
    have hn' : (n : ℚ) ≠ 0 := by exact_mod_cast hn.ne'
    simp only [FixedPoint.val]
    field_simp
  rw [hq, truncate_div _ _ hn.ne'] at h ⊢
  rw [fixUnscale, if_pos hn, mkFix, toInt_of_inInt h]

/-! ## Rounding -/

/-- The nearest integer, halves away from zero, of a non-negative value. -/
theorem roundHalfAway_of_nonneg (a : ℤ) (ha : 0 ≤ a) :
    roundHalfAway ((a : ℚ) / (65536 : ℕ)) = (a + 32768) / 65536 := by
  unfold roundHalfAway
  rw [if_pos ((div_nonneg_iff_of_pos (by decide)).mpr ha),
    show (a : ℚ) / (65536 : ℕ) + 1 / 2 = ((a + 32768 : ℤ) : ℚ) / (65536 : ℕ) by push_cast; ring,
    Rat.floor_intCast_div_natCast]
  rfl

/-- The nearest integer, halves away from zero, of a negative value. -/
theorem roundHalfAway_of_neg (a : ℤ) (ha : a < 0) :
    roundHalfAway ((a : ℚ) / (65536 : ℕ)) = -((-a + 32768) / 65536) := by
  unfold roundHalfAway
  rw [if_neg (fun h => absurd ((div_nonneg_iff_of_pos (by decide)).mp h) (by omega)),
    show -((a : ℚ) / (65536 : ℕ)) + 1 / 2 = ((-a + 32768 : ℤ) : ℚ) / (65536 : ℕ) by
      push_cast; ring,
    Rat.floor_intCast_div_natCast]
  rfl

/-- `fix_round` of a non-negative value whose sum with a half fits in an `int` is the nearest
integer. -/
theorem fixRound_of_nonneg (x : FixedPoint) (h0 : 0 ≤ x.f) (h1 : x.f + 32768 < 2 ^ 31) :
    fixRound x = roundHalfAway x.val := by
  rw [val_eq, roundHalfAway_of_nonneg _ h0, fixRound, FIX_F_eq,
    toInt_of_inInt (by unfold InInt; constructor <;> omega), Int.tdiv_eq_ediv_of_nonneg (by omega)]
  rfl

/-- Between `-1/2` and `0`, `fix_round` returns `0`, the nearest integer. -/
theorem fixRound_of_neg_small (x : FixedPoint) (h0 : x.f < 0) (h1 : -32768 < x.f) :
    fixRound x = roundHalfAway x.val := by
  rw [val_eq, roundHalfAway_of_neg _ h0, fixRound, FIX_F_eq,
    toInt_of_inInt (by unfold InInt; constructor <;> omega), Int.tdiv_eq_ediv_of_nonneg (by omega)]
  omega

/-- From `-1/2` down, `fix_round` returns one more than the nearest integer (halves away from
zero): the sum `x.f + 2 ^ 15` is negative, and C's division truncates it upward. -/
theorem fixRound_of_le_neg_half (x : FixedPoint) (h0 : -2 ^ 31 ≤ x.f) (h1 : x.f ≤ -32768) :
    fixRound x = roundHalfAway x.val + 1 := by
  rw [val_eq, roundHalfAway_of_neg _ (by omega), fixRound, FIX_F_eq,
    toInt_of_inInt (by unfold InInt; constructor <;> omega)]
  have ht : (x.f + 32768).tdiv 65536 = -((-(x.f + 32768)) / 65536) := by
    rw [← Int.tdiv_eq_ediv_of_nonneg (by omega), Int.neg_tdiv, neg_neg]
  rw [show (65536 : Int) / 2 = 32768 from rfl, ht]
  omega

/-- `fix_round` of `-1.5` is `-1`, where the nearest integer away from zero is `-2`. -/
theorem fixRound_of_le_neg_half_three_halves :
    -2 ^ 31 ≤ (-98304 : Int) ∧ (-98304 : Int) ≤ -32768 ∧
      fixRound ⟨-98304⟩ = -1 ∧ roundHalfAway (FixedPoint.val ⟨-98304⟩) = -2 := by
  have h := fixRound_of_le_neg_half ⟨-98304⟩ (by decide) (by decide)
  have hr : fixRound ⟨-98304⟩ = -1 := by decide
  exact ⟨by decide, by decide, hr, by omega⟩

/-! ## `fix_int` -/

/-- `fix_int` is exact on the integers an `int` holds in 16.16. -/
theorem fixInt_eq {n : Int} (h0 : -2 ^ 15 ≤ n) (h1 : n < 2 ^ 15) : fixInt n = some ⟨n * 2 ^ 16⟩ := by
  rw [fixInt, if_pos (by simp only [FIX_MIN_INT, FIX_MAX_INT, FIX_P]; omega), mkFix, FIX_F_eq,
    toInt_of_inInt (by unfold InInt; constructor <;> omega)]
  rfl

/-- From `2 ^ 15` to `FIX_MAX_INT`, `fix_int (n)` passes its `ASSERT` but `n * 2 ^ 16` does not
fit in an `int`: the result stands for `n - 2 ^ 16`. -/
theorem fixInt_wraps {n : Int} (h0 : 2 ^ 15 ≤ n) (h1 : n ≤ FIX_MAX_INT) :
    fixInt n = some ⟨(n - 2 ^ 16) * 2 ^ 16⟩ := by
  simp only [FIX_MAX_INT, FIX_P] at h1
  rw [fixInt, if_pos (by simp only [FIX_MIN_INT, FIX_MAX_INT, FIX_P]; omega), mkFix, FIX_F_eq]
  congr 2
  unfold toInt
  rw [Int.bmod_def]
  split_ifs <;> omega

end Pintos.Fixed
