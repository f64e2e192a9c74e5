import Mathlib.Tactic.Linarith
import Mathlib.Tactic.NormNum
import Mathlib.Tactic.Ring

/-!
# `lib/arithmetic.c`: the 64-bit division runtime

GCC compiles a 64-bit `/` or `%` on 32-bit x86 to a call of `__udivdi3`, `__umoddi3`,
`__divdi3` or `__moddi3`, which Pintos implements on top of the `divl` instruction
(64-by-32-bit division, which traps with `#DE` when the quotient does not fit in 32 bits).

Machine words are natural numbers and integers with the wrap-around written out:
`% 2^64` after each `uint64_t` operation, `Int.bmod _ (2^64)` for `int64_t`, and the
conversions to `uint32_t` and `int32_t` as `% 2^32` and `Int.bmod _ (2^32)`.  A trap of
`divl` is `none`.

* `nlz_spec`: `nlz x` shifts a nonzero 32-bit `x` to have its top bit set.
* `udiv64_eq`: for every `n` and nonzero `d` below `2^64`, `udiv64 n d = some (n / d)`, so
  neither branch of `udiv64` makes `divl` trap.  The `d < 2^32` branch is a two-digit long
  division (`udiv64_small`); the other is the normalised estimate of Hacker's Delight, at most
  one above `n / d` (`estimate_bounds`), corrected by one step (`udiv64_large`).
* `divdi3_eq`: `__divdi3` is division truncated toward zero on every pair but
  `(INT64_MIN, -1)`.
* `umod64` and `smod64` return `uint32_t` and `int32_t`: `__umoddi3` and `__moddi3` give the
  remainder reduced to 32 bits (`umoddi3_eq`, `moddi3_eq`), which differs from the remainder
  once it needs more than 32 bits (`umoddi3_truncates_remainder`).
-/

set_option autoImplicit false

namespace Pintos.Arithmetic

/-! ## The model -/

/-- `divl (n, d)`: the x86 `divl` of the 64-bit `n` by the 32-bit `d`.  It traps (`none`) when
`d` is zero or the quotient does not fit in 32 bits. -/
def divl (n d : Nat) : Option Nat :=
  if d = 0 ∨ 2 ^ 32 ≤ n / d then none else some (n / d)

/-- One test of `nlz`: `if (x <= bound) { n += shift; x <<= shift; }` on the pair `(n, x)`,
with `x` a `uint32_t`. -/
def nlzStep (bound shift : Nat) (p : Nat × Nat) : Nat × Nat :=
  if p.2 ≤ bound then (p.1 + shift, p.2 * 2 ^ shift % 2 ^ 32) else p

/-- `nlz (x)`: the number of leading zero bits of the nonzero 32-bit `x`, by binary search. -/
def nlz (x : Nat) : Nat :=
  let p := nlzStep 0x3FFFFFFF 2 <| nlzStep 0x0FFFFFFF 4 <| nlzStep 0x00FFFFFF 8 <|
    nlzStep 0x0000FFFF 16 (0, x)
  if p.2 ≤ 0x7FFFFFFF then p.1 + 1 else p.1

/-- `uint64_t` subtraction. -/
def sub64 (a b : Nat) : Nat := (a + 2 ^ 64 - b % 2 ^ 64) % 2 ^ 64

/-- `udiv64 (n, d)`.  For `d < 2^32` it divides the high word first and then the remainder
joined to the low word; otherwise it estimates the quotient from the divisor normalised by
`nlz` and corrects the estimate once. -/
def udiv64 (n d : Nat) : Option Nat :=
  if d / 2 ^ 32 = 0 then
    let b := 2 ^ 32
    let n1 := n / 2 ^ 32 % 2 ^ 32
    let n0 := n % 2 ^ 32
    let d0 := d % 2 ^ 32
    (divl ((b * (n1 % d0) + n0) % 2 ^ 64) d0).map fun q => (q + b * (n1 / d0)) % 2 ^ 64
  else if n < d then some 0
  else
    let d1 := d / 2 ^ 32 % 2 ^ 32
    let s := nlz d1
    (divl (n / 2) (d * 2 ^ s % 2 ^ 64 / 2 ^ 32)).map fun q₀ =>
      let q := q₀ / 2 ^ (31 - s)
      if sub64 n ((q + 2 ^ 64 - 1) % 2 ^ 64 * d) < d then (q + 2 ^ 64 - 1) % 2 ^ 64 else q

/-- `umod64 (n, d)`: `n - d * udiv64 (n, d)`, returned as a `uint32_t`. -/
def umod64 (n d : Nat) : Option Nat :=
  (udiv64 n d).map fun q => sub64 n (d * q) % 2 ^ 32

/-- The `uint64_t` of an `int64_t` (or of an integer in its range). -/
def toU64 (x : Int) : Nat := (x % 2 ^ 64).toNat

/-- The `int64_t` of a `uint64_t` (or of any integer). -/
def toI64 (x : Int) : Int := Int.bmod x (2 ^ 64)

/-- `sdiv64 (n, d)`: divide the absolute values with `udiv64`, then fix the sign. -/
def sdiv64 (n d : Int) : Option Int :=
  let nAbs := if 0 ≤ n then toU64 n else (2 ^ 64 - toU64 n) % 2 ^ 64
  let dAbs := if 0 ≤ d then toU64 d else (2 ^ 64 - toU64 d) % 2 ^ 64
  (udiv64 nAbs dAbs).map fun (qAbs : Nat) =>
    if (n < 0 ↔ d < 0) then toI64 qAbs else toI64 (-toI64 qAbs)

/-- `smod64 (n, d)`: `n - d * sdiv64 (n, d)` in `int64_t`, returned as an `int32_t`. -/
def smod64 (n d : Int) : Option Int :=
  (sdiv64 n d).map fun q => Int.bmod (toI64 (n - d * q)) (2 ^ 32)

/-- `__divdi3`. -/
def divdi3 (n d : Int) : Option Int := sdiv64 n d

/-- `__moddi3`: the `int32_t` of `smod64` widened to `long long`. -/
def moddi3 (n d : Int) : Option Int := smod64 n d

/-- `__udivdi3`. -/
def udivdi3 (n d : Nat) : Option Nat := udiv64 n d

/-- `__umoddi3`: the `uint32_t` of `umod64` widened to `unsigned long long`. -/
def umoddi3 (n d : Nat) : Option Nat := umod64 n d

/-! ## `divl` and `nlz` -/

theorem divl_eq {n d : Nat} (hd : 0 < d) (hn : n < d * 2 ^ 32) : divl n d = some (n / d) := by
  have hq : n / d < 2 ^ 32 := (Nat.div_lt_iff_lt_mul hd).2 (by rwa [Nat.mul_comm])
  rw [divl, if_neg (by omega)]

/-- One test of `nlz` keeps `x` shifted left by the count, below `2^32`, and leaves it above
the test's bound: a value at least `2^(32 - 2 * shift)` is at least `2^(32 - shift)` after. -/
theorem nlzStep_spec (bound shift : Nat) {x : Nat} {p : Nat × Nat}
    (hb : (bound + 1) * 2 ^ shift = 2 ^ 32) (hp : p.2 = x * 2 ^ p.1)
    (hlo : bound + 1 ≤ p.2 * 2 ^ shift) (hhi : p.2 < 2 ^ 32) :
    (nlzStep bound shift p).2 = x * 2 ^ (nlzStep bound shift p).1 ∧
      bound + 1 ≤ (nlzStep bound shift p).2 ∧ (nlzStep bound shift p).2 < 2 ^ 32 := by
  unfold nlzStep
  split_ifs with h
  · -- the shift cannot overflow: `p.2 * 2^shift < (bound + 1) * 2^shift = 2^32`
    have hlt : p.2 * 2 ^ shift < 2 ^ 32 :=
      hb ▸ Nat.mul_lt_mul_of_pos_right (by omega) (Nat.two_pow_pos shift)
    rw [Nat.mod_eq_of_lt hlt]
    exact ⟨by rw [hp, Nat.pow_add, Nat.mul_assoc], hlo, hlt⟩
  · exact ⟨hp, by omega, hhi⟩

/-- `nlz x` is the shift that brings the top set bit of a nonzero 32-bit `x` to bit 31. -/
theorem nlz_spec {x : Nat} (hx : 0 < x) (hx' : x < 2 ^ 32) :
    nlz x ≤ 31 ∧ 2 ^ 31 ≤ x * 2 ^ nlz x ∧ x * 2 ^ nlz x < 2 ^ 32 := by
  -- the four tests, each from the bound the one before it leaves
  obtain ⟨e1, l1, h1⟩ := nlzStep_spec 0x0000FFFF 16 (x := x) (p := (0, x)) (by norm_num) (by simp)
    (by simp only; omega) hx'
  obtain ⟨e2, l2, h2⟩ := nlzStep_spec 0x00FFFFFF 8 (by norm_num) e1 (by omega) h1
  obtain ⟨e3, l3, h3⟩ := nlzStep_spec 0x0FFFFFFF 4 (by norm_num) e2 (by omega) h2
  obtain ⟨e4, l4, h4⟩ := nlzStep_spec 0x3FFFFFFF 2 (by norm_num) e3 (by omega) h3
  have hbits : 2 ^ 31 ≤ x * 2 ^ nlz x ∧ x * 2 ^ nlz x < 2 ^ 32 := by
    simp only [nlz]
    generalize nlzStep 0x3FFFFFFF 2 (nlzStep 0x0FFFFFFF 4 (nlzStep 0x00FFFFFF 8
      (nlzStep 0x0000FFFF 16 (0, x)))) = p at e4 l4 h4 ⊢
    -- the last test shifts by one more bit if bit 31 is still clear
    split_ifs with h
    · have hshift : x * 2 ^ (p.1 + 1) = p.2 * 2 := by rw [e4, Nat.pow_succ, Nat.mul_assoc]
      rw [hshift]; omega
    · rw [← e4]; omega
  -- `2^(nlz x) ≤ x * 2^(nlz x) < 2^32`
  have hpow : 2 ^ nlz x < 2 ^ 32 := lt_of_le_of_lt (Nat.le_mul_of_pos_left _ hx) hbits.2
  exact ⟨Nat.lt_succ_iff.mp ((Nat.pow_lt_pow_iff_right (by norm_num)).mp hpow), hbits⟩

/-! ## `udiv64` -/

/-- `sub64 a b` is `a - b` when `b ≤ a < 2^64`. -/
theorem sub64_of_le {a b : Nat} (hba : b ≤ a) (ha : a < 2 ^ 64) : sub64 a b = a - b := by
  rw [sub64, Nat.mod_eq_of_lt (by omega : b < 2 ^ 64)]
  rw [show a + 2 ^ 64 - b = a - b + 2 ^ 64 by omega, Nat.add_mod_right]
  exact Nat.mod_eq_of_lt (by omega)

/-- The first branch of `udiv64`, for `d < 2^32`: the proof in its comment. -/
theorem udiv64_small {n d : Nat} (hn : n < 2 ^ 64) (hd : 0 < d) (hd' : d < 2 ^ 32) :
    udiv64 n d = some (n / d) := by
  -- the high word `n1` divided by `d` leaves `r1`; the second digit divides `r1` joined to `n0`
  have hn1 : n / 2 ^ 32 % 2 ^ 32 = n / 2 ^ 32 := Nat.mod_eq_of_lt (by omega)
  have hd0 : d % 2 ^ 32 = d := Nat.mod_eq_of_lt hd'
  have hr1 : n / 2 ^ 32 % d < d := Nat.mod_lt _ hd
  have ht : 2 ^ 32 * (n / 2 ^ 32 % d) + n % 2 ^ 32 < d * 2 ^ 32 := by omega
  have hsplit :
      n = 2 ^ 32 * (n / 2 ^ 32 % d) + n % 2 ^ 32 + d * (2 ^ 32 * (n / 2 ^ 32 / d)) := by
    have h1 := Nat.div_add_mod (n / 2 ^ 32) d
    rw [Nat.mul_left_comm]
    omega
  have hq : n / d =
      (2 ^ 32 * (n / 2 ^ 32 % d) + n % 2 ^ 32) / d + 2 ^ 32 * (n / 2 ^ 32 / d) := by
    conv_lhs => rw [hsplit]
    exact Nat.add_mul_div_left _ _ hd
  have hq64 : n / d < 2 ^ 64 := lt_of_le_of_lt (Nat.div_le_self n d) hn
  rw [udiv64, if_pos (by omega)]
  simp only [hn1, hd0, Nat.mod_eq_of_lt (show 2 ^ 32 * (n / 2 ^ 32 % d) + n % 2 ^ 32 < 2 ^ 64 by
    omega), divl_eq hd ht, Option.map_some, ← hq, Nat.mod_eq_of_lt hq64]

/-- `A = 2^s` and `B = 2^(32 - s)` for the shift `s = nlz (d >> 32)`: `A * B = 2^32`, and `B`
is `2` (when `s = 31`) or at least `4`. -/
theorem nlz_shifts {s : Nat} (hs : s ≤ 31) :
    2 ^ s * 2 ^ (32 - s) = 2 ^ 32 ∧ 2 * 2 ^ (31 - s) = 2 ^ (32 - s) ∧
      (2 ^ (32 - s) = 2 ∨ 4 ≤ 2 ^ (32 - s)) := by
  refine ⟨by rw [← Nat.pow_add, show s + (32 - s) = 32 by omega],
    by rw [show 32 - s = 31 - s + 1 by omega, Nat.pow_succ'], ?_⟩
  rcases (show s = 31 ∨ s ≤ 30 by omega) with h | h
  · left; rw [h]; rfl
  · right
    exact le_trans (by norm_num) (Nat.pow_le_pow_right (by norm_num) (show 2 ≤ 32 - s by omega))

/-- The normalised divisor: for `d ≥ 2^32` whose high word times `A` has bit 31 as its top
bit, `d * A` fits in 64 bits, its high word `v` has bit 31 set, and `v * B` lies within `B`
below `d`. -/
theorem normalise_bounds {d A B : Nat} (hAB : A * B = 2 ^ 32) (hlo : 2 ^ 31 ≤ d / 2 ^ 32 * A)
    (hhi : d / 2 ^ 32 * A < 2 ^ 32) :
    d * A < 2 ^ 64 ∧ 2 ^ 31 ≤ d * A / 2 ^ 32 ∧ d * A / 2 ^ 32 * B ≤ d ∧
      d < d * A / 2 ^ 32 * B + B := by
  have hA : 0 < A := Nat.pos_of_mul_pos_right (show 0 < A * B by rw [hAB]; norm_num)
  have hd1B : d / 2 ^ 32 < B :=
    Nat.lt_of_mul_lt_mul_left (a := A) (by rw [hAB, Nat.mul_comm]; exact hhi)
  refine ⟨?fits, ?top, ?below, ?within⟩
  case fits =>
    calc d * A < (d / 2 ^ 32 + 1) * 2 ^ 32 * A := Nat.mul_lt_mul_of_pos_right (by omega) hA
      _ ≤ B * 2 ^ 32 * A := Nat.mul_le_mul_right _ (Nat.mul_le_mul_right _ hd1B)
      _ = 2 ^ 64 := by rw [show B * 2 ^ 32 * A = A * B * 2 ^ 32 by ring, hAB]; norm_num
  case top =>
    apply (Nat.le_div_iff_mul_le (by norm_num)).2
    calc 2 ^ 31 * 2 ^ 32 ≤ d / 2 ^ 32 * A * 2 ^ 32 := Nat.mul_le_mul_right _ hlo
      _ = d / 2 ^ 32 * 2 ^ 32 * A := by ring
      _ ≤ d * A := Nat.mul_le_mul_right _ (Nat.div_mul_le_self d _)
  case below =>
    apply Nat.le_of_mul_le_mul_right _ hA
    calc d * A / 2 ^ 32 * B * A = d * A / 2 ^ 32 * (A * B) := by ring
      _ ≤ d * A := by rw [hAB]; exact Nat.div_mul_le_self _ _
  case within =>
    apply Nat.lt_of_mul_lt_mul_right (a := A)
    calc d * A < 2 ^ 32 * (d * A / 2 ^ 32 + 1) := Nat.lt_mul_div_succ _ (by norm_num)
      _ = (d * A / 2 ^ 32 * B + B) * A := by rw [← hAB]; ring

/-- The estimate `n / w` from a normalised divisor `w = v * B` with `w ≤ d < w + B` is `n / d`
or one more (Hacker's Delight, section 9-5).  `B` is `2` or at least `4`, and `A * B = 2^32`. -/
theorem estimate_bounds {n d v A B : Nat} (hAB : A * B = 2 ^ 32) (hB : B = 2 ∨ 4 ≤ B)
    (hn : n < 2 ^ 64) (hv : 2 ^ 31 ≤ v) (hwd : v * B ≤ d) (hdw : d < v * B + B) :
    n / d ≤ n / (v * B) ∧ n / (v * B) ≤ n / d + 1 := by
  have hB0 : 0 < B := by omega
  have hw : 2 ^ 31 * B ≤ v * B := Nat.mul_le_mul_right B hv
  have hw0 : 0 < v * B := by omega
  refine ⟨Nat.div_le_div_left hwd hw0, ?_⟩
  obtain ⟨e, rfl⟩ : ∃ e, d = v * B + e := ⟨d - v * B, by omega⟩
  have he : e < B := by omega
  set Q := n / (v * B + e) with hQ
  -- `Q < 2A`: otherwise `Q * d ≥ 2A * 2^31 * B = 2^64 > n`
  have hQA : Q + 1 ≤ 2 * A := by
    have hQd : Q * (v * B + e) ≤ n := Nat.div_mul_le_self n _
    by_contra h
    have h2 : 2 * A * (2 ^ 31 * B) ≤ Q * (v * B + e) :=
      Nat.mul_le_mul (by omega) (by omega)
    have h3 : 2 * A * (2 ^ 31 * B) = 2 ^ 64 := by
      rw [show 2 * A * (2 ^ 31 * B) = 2 ^ 32 * (A * B) by ring, hAB]; norm_num
    omega
  -- the error `(Q + 1) * e` of the estimate is at most `2A * (B - 1) ≤ 2^31 * B ≤ w`
  have hQe : (Q + 1) * e ≤ v * B := by
    have h1 : (Q + 1) * e ≤ 2 * A * e := Nat.mul_le_mul_right e hQA
    have h2 : 2 * A * e + 2 * A ≤ 2 ^ 33 := by
      have : 2 * A * (e + 1) ≤ 2 * A * B := Nat.mul_le_mul_left _ he
      have h4 : 2 * A * B = 2 ^ 33 := by rw [Nat.mul_assoc, hAB]; norm_num
      rw [Nat.mul_add, Nat.mul_one] at this
      omega
    have h3 : 2 ^ 33 ≤ 2 ^ 31 * B + 2 * A := by
      rcases hB with rfl | hB
      · omega
      · omega
    omega
  have hlt : n < (Q + 2) * (v * B) := by
    have h1 : n < (v * B + e) * (Q + 1) := Nat.lt_mul_div_succ n (by omega)
    calc n < (v * B + e) * (Q + 1) := h1
      _ = (Q + 1) * (v * B) + (Q + 1) * e := by ring
      _ ≤ (Q + 1) * (v * B) + v * B := by omega
      _ = (Q + 2) * (v * B) := by ring
  exact Nat.lt_succ_iff.mp ((Nat.div_lt_iff_lt_mul hw0).2 hlt)

/-- The last line of `udiv64`: an estimate `q` that is `n / d` or one more is corrected to
`n / d`. -/
theorem correct_estimate {n d q : Nat} (hn : n < 2 ^ 64) (hd : 0 < d) (hdn : d ≤ n)
    (hq : n / d ≤ q) (hq' : q ≤ n / d + 1) :
    (if sub64 n ((q + 2 ^ 64 - 1) % 2 ^ 64 * d) < d then (q + 2 ^ 64 - 1) % 2 ^ 64 else q) =
      n / d := by
  have hQ : 0 < n / d := Nat.div_pos hdn hd
  have hQd : n / d * d ≤ n := Nat.div_mul_le_self n d
  have hQn : n / d ≤ n := Nat.div_le_self n d
  have hpred : (q + 2 ^ 64 - 1) % 2 ^ 64 = q - 1 := by
    rw [show q + 2 ^ 64 - 1 = q - 1 + 2 ^ 64 by omega, Nat.add_mod_right]
    exact Nat.mod_eq_of_lt (by omega)
  have hle : (q - 1) * d ≤ n := le_trans (Nat.mul_le_mul_right d (by omega)) hQd
  rw [hpred, sub64_of_le hle hn]
  have hrem : n < n / d * d + d := by
    have h := Nat.lt_mul_div_succ n hd
    rwa [Nat.mul_add, Nat.mul_one, Nat.mul_comm] at h
  rcases (show q = n / d + 1 ∨ q = n / d by omega) with rfl | rfl
  · -- the estimate was one too many: `n - (n / d) * d` is already below `d`
    rw [Nat.add_sub_cancel, if_pos (by omega)]
  · -- the estimate was exact: one `d` more is left over
    have hd' : d ≤ n / d * d := Nat.le_mul_of_pos_left d hQ
    rw [Nat.sub_one_mul, if_neg (by omega)]

/-- The second branch of `udiv64`, for `d ≥ 2^32`. -/
theorem udiv64_large {n d : Nat} (hn : n < 2 ^ 64) (hd : 2 ^ 32 ≤ d) (hd' : d < 2 ^ 64) :
    udiv64 n d = some (n / d) := by
  rw [udiv64, if_neg (by omega)]
  by_cases hnd : n < d
  · rw [if_pos hnd, Nat.div_eq_of_lt hnd]
  rw [if_neg hnd, Nat.mod_eq_of_lt (show d / 2 ^ 32 < 2 ^ 32 by omega)]
  dsimp only
  -- normalise: `A = 2^s` brings the top bit of `d >> 32` to bit 31, and `A * B = 2^32`
  obtain ⟨hs, hlo, hhi⟩ := nlz_spec (x := d / 2 ^ 32) (by omega) (by omega)
  set s := nlz (d / 2 ^ 32)
  obtain ⟨hAB, hB2, hB⟩ := nlz_shifts hs
  generalize 2 ^ s = A at hAB hlo hhi ⊢
  generalize 2 ^ (32 - s) = B at hAB hB hB2 ⊢
  obtain ⟨hdA, hv, hwd, hdw⟩ := normalise_bounds (B := B) hAB hlo hhi
  -- `divl (n >> 1, v)` does not trap, and shifting its quotient right divides `n` by `v * B`
  have hq0 : n / 2 < d * A / 2 ^ 32 * 2 ^ 32 := by omega
  have hdiv : n / 2 / (d * A / 2 ^ 32) / 2 ^ (31 - s) = n / (d * A / 2 ^ 32 * B) := by
    rw [Nat.div_div_eq_div_mul, Nat.div_div_eq_div_mul, ← hB2,
      Nat.mul_left_comm]
  rw [Nat.mod_eq_of_lt hdA, divl_eq (by omega) hq0, Option.map_some, hdiv]
  obtain ⟨h1, h2⟩ := estimate_bounds hAB hB hn hv hwd hdw
  rw [correct_estimate hn (by omega) (by omega) h1 h2]

/-- `udiv64` divides every 64-bit `n` by every nonzero 64-bit `d`, and `divl` does not trap
in either branch. -/
theorem udiv64_eq {n d : Nat} (hn : n < 2 ^ 64) (hd : 0 < d) (hd' : d < 2 ^ 64) :
    udiv64 n d = some (n / d) := by
  rcases Nat.lt_or_ge d (2 ^ 32) with h | h
  · exact udiv64_small hn hd h
  · exact udiv64_large hn h hd'

/-! ## `sdiv64` -/

/-- The `uint64_t` absolute value that `sdiv64` takes of an `int64_t`. -/
theorem absU64_eq {x : Int} (hlo : -2 ^ 63 ≤ x) (hhi : x < 2 ^ 63) :
    (if 0 ≤ x then toU64 x else (2 ^ 64 - toU64 x) % 2 ^ 64) = x.natAbs := by
  unfold toU64
  split <;> omega

theorem toI64_of_range {x : Int} (hlo : -2 ^ 63 ≤ x) (hhi : x < 2 ^ 63) : toI64 x = x := by
  have hm : ((2 ^ 64 : Nat) : Int) = 18446744073709551616 := rfl
  rw [toI64, Int.bmod, hm]
  split <;> omega

theorem toI64_two_pow_63 : toI64 (2 ^ 63) = -2 ^ 63 := by decide

/-- Truncating division by the absolute values, as `sdiv64` computes it. -/
theorem tdiv_eq_natAbs (n d : Int) :
    n.tdiv d = if (n < 0 ↔ d < 0) then ((n.natAbs / d.natAbs : Nat) : Int)
      else -((n.natAbs / d.natAbs : Nat) : Int) := by
  -- where the sign test and the signs of `n` and `d` disagree, one of them is zero
  have hz : ∀ a b : Nat, (a = 0 ∨ b = 0) → ((a / b : Nat) : Int) = 0 := by
    rintro a b (rfl | rfl) <;> simp
  obtain ⟨a, rfl | rfl⟩ := Int.eq_nat_or_neg n <;> obtain ⟨b, rfl | rfl⟩ := Int.eq_nat_or_neg d <;>
    simp only [Int.neg_tdiv, Int.tdiv_neg, ← Int.ofNat_tdiv, Int.natAbs_neg, Int.natAbs_natCast,
      neg_neg] <;>
    split_ifs <;> first | rfl | (have hab := hz a b (by omega); omega)

/-- A quotient of operands of one sign fits in `int64_t`, except `INT64_MIN / -1`. -/
theorem natAbs_div_lt {n d : Int} (hn : -2 ^ 63 ≤ n) (hn' : n < 2 ^ 63) (hd : d ≠ 0)
    (hsign : n < 0 ↔ d < 0) (hov : ¬(n = -2 ^ 63 ∧ d = -1)) :
    n.natAbs / d.natAbs < 2 ^ 63 := by
  rcases (show d.natAbs = 1 ∨ 2 ≤ d.natAbs by omega) with h | h
  · rw [h, Nat.div_one]; omega
  · calc n.natAbs / d.natAbs ≤ n.natAbs / 2 := Nat.div_le_div_left h (by norm_num)
      _ < 2 ^ 63 := by omega

/-- `__divdi3` divides with truncation toward zero on every pair of `int64_t` but
`(INT64_MIN, -1)`. -/
theorem divdi3_eq {n d : Int} (hn : -2 ^ 63 ≤ n) (hn' : n < 2 ^ 63) (hd : -2 ^ 63 ≤ d)
    (hd' : d < 2 ^ 63) (hd0 : d ≠ 0) (hov : ¬(n = -2 ^ 63 ∧ d = -1)) :
    divdi3 n d = some (n.tdiv d) := by
  rw [divdi3, sdiv64, absU64_eq hn hn', absU64_eq hd hd', udiv64_eq (by omega) (by omega) (by omega),
    Option.map_some, tdiv_eq_natAbs]
  have hq : n.natAbs / d.natAbs ≤ 2 ^ 63 := le_trans (Nat.div_le_self _ _) (by omega)
  split_ifs with hsign
  · have hlt := natAbs_div_lt hn hn' hd0 hsign hov
    generalize n.natAbs / d.natAbs = q at hlt ⊢
    rw [toI64_of_range (by omega) (by omega)]
  · -- of different signs, `INT64_MIN / 1` negates `2^63`, which wraps back to `INT64_MIN`
    generalize n.natAbs / d.natAbs = q at hq ⊢
    rcases Nat.lt_or_ge q (2 ^ 63) with hlt | hge
    · rw [toI64_of_range (x := (q : Int)) (by omega) (by omega),
        toI64_of_range (x := -(q : Int)) (by omega) (by omega)]
    · rw [show q = 2 ^ 63 by omega]
      simp only [Nat.cast_pow, Nat.cast_ofNat, toI64_two_pow_63, neg_neg]

/-! ## The remainders -/

/-- `__umoddi3` gives the remainder reduced to 32 bits. -/
theorem umoddi3_eq {n d : Nat} (hn : n < 2 ^ 64) (hd : 0 < d) (hd' : d < 2 ^ 64) :
    umoddi3 n d = some (n % d % 2 ^ 32) := by
  rw [umoddi3, umod64, udiv64_eq hn hd hd', Option.map_some,
    sub64_of_le (Nat.mul_div_le n d) hn, ← Nat.mod_eq_sub_mul_div]

/-- `__moddi3` gives the remainder of truncating division reduced to `int32_t`. -/
theorem moddi3_eq {n d : Int} (hn : -2 ^ 63 ≤ n) (hn' : n < 2 ^ 63) (hd : -2 ^ 63 ≤ d)
    (hd' : d < 2 ^ 63) (hd0 : d ≠ 0) (hov : ¬(n = -2 ^ 63 ∧ d = -1)) :
    moddi3 n d = some (Int.bmod (n.tmod d) (2 ^ 32)) := by
  have hq : sdiv64 n d = some (n.tdiv d) := divdi3_eq hn hn' hd hd' hd0 hov
  -- the remainder is smaller than `|d| ≤ 2^63`, so the `int64_t` subtraction does not wrap
  have hr : (n.tmod d).natAbs < d.natAbs := by
    rw [Int.natAbs_tmod]; exact Nat.mod_lt _ (by omega)
  rw [moddi3, smod64, hq, Option.map_some, ← Int.tmod_def, toI64_of_range (by omega) (by omega)]

theorem umoddi3_truncates_remainder :
    umoddi3 (2 ^ 32) (2 ^ 32 + 1) = some 0 ∧ 2 ^ 32 % (2 ^ 32 + 1) = 2 ^ 32 ∧
      moddi3 (2 ^ 32) (2 ^ 32 + 1) = some 0 ∧ Int.tmod (2 ^ 32) (2 ^ 32 + 1) = 2 ^ 32 := by
  refine ⟨?_, by norm_num, ?_, by decide⟩
  · rw [umoddi3_eq (by norm_num) (by norm_num) (by norm_num)]
    norm_num
  · rw [moddi3_eq (by norm_num) (by norm_num) (by norm_num) (by norm_num) (by norm_num)
      (by norm_num)]
    decide

end Pintos.Arithmetic
