import Mathlib.Analysis.SpecialFunctions.Log.Basic
import Mathlib.Analysis.SpecialFunctions.Sqrt
import Mathlib.Data.List.GetD
import Mathlib.Tactic
import Multifidelity.Scalar.Basic

/-!
# Exact scalars

The extended real line with a NaN. An operation on real numbers that has a value is exact: there
is no rounding and no overflow. The infinities and the NaN follow the rules of floating-point
numbers, with a single zero that counts as positive.

## Main definitions

* `ExactReal`: real numbers, two infinities and a NaN
* `instScalarExactReal`: their arithmetic

## Main results

* `not_div_lt_zero`, `mul_le_mul_of_pos`: signs and order of quotients and products
* `isPositiveFinite_iff`: what budgets, tolerances and costs are accepted
* `total_real`, `averageCount_of_ne_nil`: sums and averages of finite scalars
-/

namespace Multifidelity

/-- A real number, an infinity, or a NaN. -/
inductive ExactReal where
  /-- A real number. -/
  | real (value : ℝ)
  /-- Positive infinity. -/
  | posInf
  /-- Negative infinity. -/
  | negInf
  /-- No number. -/
  | nan

namespace ExactReal

/-- The real number that a scalar is, zero if it is none. -/
def toReal : ExactReal → ℝ
  | real x => x
  | posInf | negInf | nan => 0

/-! ## The operations -/

/-- The infinity with the sign of a real number, a NaN for zero. -/
noncomputable def infinite (x : ℝ) : ExactReal :=
  if 0 < x then posInf else if x < 0 then negInf else nan

/-- The scalar with the opposite sign. -/
protected noncomputable def neg : ExactReal → ExactReal
  | real x => real (-x)
  | posInf => negInf
  | negInf => posInf
  | nan => nan

/-- The sum, a NaN for opposite infinities. -/
protected noncomputable def add : ExactReal → ExactReal → ExactReal
  | real x, real y => real (x + y)
  | real _, posInf | posInf, real _ | posInf, posInf => posInf
  | real _, negInf | negInf, real _ | negInf, negInf => negInf
  | _, _ => nan

/-- The product, a NaN for zero times an infinity. -/
protected noncomputable def mul : ExactReal → ExactReal → ExactReal
  | real x, real y => real (x * y)
  | real x, posInf | posInf, real x => infinite x
  | real x, negInf | negInf, real x => infinite (-x)
  | posInf, posInf | negInf, negInf => posInf
  | posInf, negInf | negInf, posInf => negInf
  | _, _ => nan

/-- The quotient. A divisor of zero gives an infinity, or a NaN if the dividend is zero too. -/
protected noncomputable def div : ExactReal → ExactReal → ExactReal
  | real x, real y => if y = 0 then infinite x else real (x / y)
  | real _, posInf | real _, negInf => real 0
  | posInf, real y => if 0 ≤ y then posInf else negInf
  | negInf, real y => if 0 ≤ y then negInf else posInf
  | _, _ => nan

/-- The order of the extended real line. A NaN is below nothing. -/
protected def lt : ExactReal → ExactReal → Prop
  | real x, real y => x < y
  | real _, posInf | negInf, real _ | negInf, posInf => True
  | _, _ => False

/-- The order of the extended real line. A NaN is not even below itself. -/
protected def le : ExactReal → ExactReal → Prop
  | real x, real y => x ≤ y
  | real _, posInf | negInf, real _ | negInf, posInf | posInf, posInf | negInf, negInf => True
  | _, _ => False

/-- The square root. -/
protected noncomputable def sqrt : ExactReal → ExactReal
  | real x => if x < 0 then nan else real (√x)
  | posInf => posInf
  | _ => nan

/-- The exponential function. -/
protected noncomputable def exp : ExactReal → ExactReal
  | real x => real (Real.exp x)
  | posInf => posInf
  | negInf => real 0
  | nan => nan

/-- The natural logarithm. -/
protected noncomputable def log : ExactReal → ExactReal
  | real x => if x < 0 then nan else if x = 0 then negInf else real (Real.log x)
  | posInf => posInf
  | _ => nan

/-- A real function, extended by the identity. -/
def lift (f : ℝ → ℝ) : ExactReal → ExactReal
  | real x => real (f x)
  | x => x

/-- The nearest integer, a half goes away from zero. -/
noncomputable def nearest (x : ℝ) : ℝ :=
  if 0 ≤ x then (⌊x + 1 / 2⌋ : ℤ) else (⌈x - 1 / 2⌉ : ℤ)

/-- The integral part of a scalar in the range of a count. -/
protected noncomputable def toCount? : ExactReal → Option ℕ
  | real x => if -1 < x ∧ x < maxCount + 1 then some ⌊x⌋₊ else none
  | _ => none

end ExactReal

open ExactReal in
open Classical in
/-- Exact scalars. A positive real number is above any other one divided by enough powers of
two. -/
noncomputable instance instScalarExactReal : Scalar ExactReal where
  zero := real 0
  one := real 1
  add := ExactReal.add
  sub x y := ExactReal.add x (ExactReal.neg y)
  mul := ExactReal.mul
  div := ExactReal.div
  neg := ExactReal.neg
  lt := ExactReal.lt
  le := ExactReal.le
  beq x y := decide (x = y ∧ x ≠ nan)
  ofScientific mantissa exponentSign exponent := real (OfScientific.ofScientific mantissa
    exponentSign exponent)
  decLt _ _ := Classical.propDecidable _
  decLe _ _ := Classical.propDecidable _
  ofCount n := real n
  toCount? := ExactReal.toCount?
  isNaN x := decide (x = nan)
  isFinite x := decide (∃ y, x = real y)
  infinity := posInf
  sqrt := ExactReal.sqrt
  exp := ExactReal.exp
  log := ExactReal.log
  ceil := lift fun x => (⌈x⌉ : ℤ)
  round := lift nearest
  halvings
    | real x, real y => ⌊x / y⌋₊ + 1
    | _, _ => 0

namespace ExactReal

/-! ## Arithmetic on real numbers -/

@[simp] theorem zero_eq : (0 : ExactReal) = real 0 := rfl

@[simp] theorem one_eq : (1 : ExactReal) = real 1 := rfl

@[simp] theorem ofScientific_eq (mantissa : ℕ) (exponentSign : Bool) (exponent : ℕ) :
    (OfScientific.ofScientific mantissa exponentSign exponent : ExactReal) =
      real (OfScientific.ofScientific mantissa exponentSign exponent) := rfl

@[simp] theorem ofCount_eq (n : ℕ) : (Scalar.ofCount n : ExactReal) = real n := rfl

@[simp] theorem infinity_eq : (Scalar.infinity : ExactReal) = posInf := rfl

@[simp] theorem real_add (x y : ℝ) : real x + real y = real (x + y) := rfl

@[simp] theorem real_sub (x y : ℝ) : real x - real y = real (x - y) :=
  congrArg real (sub_eq_add_neg x y).symm

@[simp] theorem real_mul (x y : ℝ) : real x * real y = real (x * y) := rfl

@[simp] theorem real_neg (x : ℝ) : -real x = real (-x) := rfl

theorem real_div_eq (x y : ℝ) :
    real x / real y = if y = 0 then infinite x else real (x / y) := rfl

@[simp] theorem real_div {x y : ℝ} (hy : y ≠ 0) : real x / real y = real (x / y) := by
  rw [real_div_eq, if_neg hy]

@[simp] theorem real_div_zero (x : ℝ) : real x / real 0 = infinite x := by
  rw [real_div_eq, if_pos rfl]

@[simp] theorem real_div_posInf (x : ℝ) : real x / posInf = real 0 := rfl

@[simp] theorem infinite_zero : infinite 0 = nan := by simp [infinite]

theorem posInf_mul_zero : posInf * real 0 = nan := infinite_zero

theorem infinite_of_pos {x : ℝ} (hx : 0 < x) : infinite x = posInf := if_pos hx

theorem real_mul_posInf {x : ℝ} (hx : 0 < x) : real x * posInf = posInf := infinite_of_pos hx

theorem one_mul_eq (x : ExactReal) : 1 * x = x := by
  cases x with
  | real x => rw [one_eq, real_mul, one_mul]
  | posInf => exact real_mul_posInf one_pos
  | negInf => exact (if_neg (by norm_num)).trans (if_pos (by norm_num))
  | nan => rfl

@[simp] theorem real_lt_real {x y : ℝ} : real x < real y ↔ x < y := Iff.rfl

@[simp] theorem real_le_real {x y : ℝ} : real x ≤ real y ↔ x ≤ y := Iff.rfl

@[simp] theorem real_lt_posInf (x : ℝ) : real x < posInf := trivial

@[simp] theorem real_le_posInf (x : ℝ) : real x ≤ posInf := trivial

@[simp] theorem not_posInf_lt (x : ExactReal) : ¬ posInf < x := fun h => by cases x <;> exact h

@[simp] theorem not_nan_lt (x : ExactReal) : ¬ nan < x := fun h => by cases x <;> exact h

@[simp] theorem not_lt_nan (x : ExactReal) : ¬ x < nan := fun h => by cases x <;> exact h

@[simp] theorem not_nan_le (x : ExactReal) : ¬ nan ≤ x := fun h => by cases x <;> exact h

@[simp] theorem not_le_nan (x : ExactReal) : ¬ x ≤ nan := fun h => by cases x <;> exact h

protected theorem add_comm (x y : ExactReal) : x + y = y + x := by
  cases x <;> cases y <;> first
    | rfl
    | exact congrArg real (add_comm _ _)

protected theorem add_assoc (x y z : ExactReal) : x + y + z = x + (y + z) := by
  cases x <;> cases y <;> cases z <;> first
    | rfl
    | exact congrArg real (add_assoc _ _ _)

/-- Summands can be added in any order, infinities and NaNs included. -/
protected theorem add_right_comm (x y z : ExactReal) : x + y + z = x + z + y := by
  rw [ExactReal.add_assoc, ExactReal.add_comm y z, ExactReal.add_assoc]

/-- What is not below a real number is a larger one or positive infinity. -/
theorem real_le_iff {x : ℝ} {y : ExactReal} :
    real x ≤ y ↔ y = posInf ∨ ∃ z, x ≤ z ∧ y = real z := by
  cases y with
  | real z => simp
  | posInf => simp
  | negInf => simp [show ¬ real x ≤ negInf from id]
  | nan => simp

protected theorem le_trans {x y z : ExactReal} (hxy : x ≤ y) (hyz : y ≤ z) : x ≤ z := by
  cases x <;> cases y <;> cases z <;> first
    | trivial
    | exact hxy.elim
    | exact hyz.elim
    | exact (real_le_real.mp hxy).trans (real_le_real.mp hyz)

/-- What is not below something is no NaN, and thus at most itself. -/
theorem le_self_of_le {x y : ExactReal} (h : x ≤ y) : y ≤ y := by
  cases y with
  | real y => exact real_le_real.mpr le_rfl
  | posInf => trivial
  | negInf => trivial
  | nan => exact (not_le_nan x h).elim

protected theorem le_of_lt {x y : ExactReal} (h : x < y) : x ≤ y := by
  cases x <;> cases y <;> first
    | trivial
    | exact h.elim
    | exact (real_lt_real.mp h).le

protected theorem lt_of_lt_of_le {x y z : ExactReal} (hxy : x < y) (hyz : y ≤ z) : x < z := by
  cases x <;> cases y <;> cases z <;> first
    | trivial
    | exact hxy.elim
    | exact hyz.elim
    | exact (real_lt_real.mp hxy).trans_le (real_le_real.mp hyz)

protected theorem lt_of_le_of_lt {x y z : ExactReal} (hxy : x ≤ y) (hyz : y < z) : x < z := by
  cases x <;> cases y <;> cases z <;> first
    | trivial
    | exact hxy.elim
    | exact hyz.elim
    | exact (real_le_real.mp hxy).trans_lt (real_lt_real.mp hyz)

/-- A sum of two scalars that are not negative is at least each of them. -/
theorem le_add_of_nonneg {x y : ExactReal} (hx : 0 ≤ x) (hy : 0 ≤ y) : x ≤ x + y ∧ y ≤ x + y := by
  rcases real_le_iff.mp hx with rfl | ⟨s, hs, rfl⟩
  · rcases real_le_iff.mp hy with rfl | ⟨t, ht, rfl⟩
    · exact ⟨trivial, trivial⟩
    · exact ⟨trivial, trivial⟩
  · rcases real_le_iff.mp hy with rfl | ⟨t, ht, rfl⟩
    · exact ⟨trivial, trivial⟩
    · exact ⟨real_le_real.mpr (by linarith), real_le_real.mpr (by linarith)⟩

/-- Scalars that are at most themselves are no NaN, and those are ordered. -/
protected theorem le_of_not_lt {x y : ExactReal} (hx : x ≤ x) (hy : y ≤ y) (h : ¬ x < y) :
    y ≤ x := by
  cases x <;> cases y <;> first
    | trivial
    | exact hx.elim
    | exact hy.elim
    | exact (h trivial).elim
    | exact not_lt.mp (real_lt_real.not.mp h)

theorem not_lt_of_le {x y : ExactReal} (h : x ≤ y) : ¬ y < x := by
  intro hlt
  cases x <;> cases y <;> first
    | exact h.elim
    | exact hlt.elim
    | exact not_lt.mpr (real_le_real.mp h) (real_lt_real.mp hlt)

protected theorem le_antisymm {x y : ExactReal} (hxy : x ≤ y) (hyx : y ≤ x) : x = y := by
  cases x <;> cases y <;> first
    | rfl
    | exact hxy.elim
    | exact hyx.elim
    | exact congrArg real (le_antisymm (real_le_real.mp hxy) (real_le_real.mp hyx))

protected theorem lt_irrefl (x : ExactReal) : ¬ x < x :=
  fun h => not_lt_of_le (ExactReal.le_of_lt h) h

/-! ## Signs -/

theorem not_lt_zero_iff {x : ExactReal} :
    ¬ x < 0 ↔ x = nan ∨ x = posInf ∨ ∃ z, 0 ≤ z ∧ x = real z := by
  cases x with
  | real z => simp
  | posInf => simp
  | negInf => simp [show negInf < real 0 from trivial]
  | nan => simp

theorem not_infinite_lt_zero {x : ℝ} (h : 0 ≤ x) : ¬ infinite x < 0 := by
  rcases h.eq_or_lt with rfl | hpos
  · rw [infinite_zero]
    exact not_nan_lt 0
  · rw [infinite_of_pos hpos]
    exact not_posInf_lt 0

/-- A sum of scalars that are not negative is not negative. -/
theorem not_add_lt_zero {x y : ExactReal} (hx : ¬ x < 0) (hy : ¬ y < 0) : ¬ x + y < 0 := by
  rcases not_lt_zero_iff.mp hx with rfl | rfl | ⟨a, ha, rfl⟩
  · cases y <;> exact not_nan_lt 0
  · rcases not_lt_zero_iff.mp hy with rfl | rfl | ⟨b, hb, rfl⟩
    · exact not_nan_lt 0
    · exact not_posInf_lt 0
    · exact not_posInf_lt 0
  · rcases not_lt_zero_iff.mp hy with rfl | rfl | ⟨b, hb, rfl⟩
    · exact not_nan_lt 0
    · exact not_posInf_lt 0
    · exact not_lt_of_le (real_le_real.mpr (add_nonneg ha hb))

/-- A product of scalars that are not negative is not negative. -/
theorem not_mul_lt_zero {x y : ExactReal} (hx : ¬ x < 0) (hy : ¬ y < 0) : ¬ x * y < 0 := by
  rcases not_lt_zero_iff.mp hx with rfl | rfl | ⟨a, ha, rfl⟩
  · cases y <;> exact not_nan_lt 0
  · rcases not_lt_zero_iff.mp hy with rfl | rfl | ⟨b, hb, rfl⟩
    · exact not_nan_lt 0
    · exact not_posInf_lt 0
    · exact not_infinite_lt_zero hb
  · rcases not_lt_zero_iff.mp hy with rfl | rfl | ⟨b, hb, rfl⟩
    · exact not_nan_lt 0
    · exact not_infinite_lt_zero ha
    · exact not_lt_of_le (real_le_real.mpr (mul_nonneg ha hb))

/-- A quotient of scalars that are not negative is not negative. -/
theorem not_div_lt_zero {x y : ExactReal} (hx : ¬ x < 0) (hy : ¬ y < 0) : ¬ x / y < 0 := by
  rcases not_lt_zero_iff.mp hx with rfl | rfl | ⟨a, ha, rfl⟩
  · cases y <;> exact not_nan_lt 0
  · rcases not_lt_zero_iff.mp hy with rfl | rfl | ⟨b, hb, rfl⟩
    · exact not_nan_lt 0
    · exact not_nan_lt 0
    · have hposInf : posInf / real b = posInf := if_pos hb
      rw [hposInf]
      exact not_posInf_lt 0
  · rcases not_lt_zero_iff.mp hy with rfl | rfl | ⟨b, hb, rfl⟩
    · exact not_nan_lt 0
    · exact not_lt_of_le (real_le_real.mpr le_rfl)
    · rw [real_div_eq]
      split
      · exact not_infinite_lt_zero ha
      · exact not_lt_of_le (real_le_real.mpr (div_nonneg ha hb))

theorem zero_lt_iff {x : ExactReal} : 0 < x ↔ x = posInf ∨ ∃ z, 0 < z ∧ x = real z := by
  cases x with
  | real z => simp
  | posInf => simp
  | negInf => simp [show ¬ real 0 < negInf from id]
  | nan => simp

theorem pos_of_lt_infinite {k x : ℝ} (h : real k < infinite x) : 0 < x := by
  unfold infinite at h
  split at h
  · assumption
  · split at h
    · exact h.elim
    · exact h.elim

/-- A product with a scalar that is not negative is above a count only if both factors are
positive. -/
theorem pos_of_lt_mul {k : ℝ} (hk : 0 ≤ k) {x y : ExactReal} (hy : ¬ y < 0)
    (h : real k < x * y) : 0 < x ∧ 0 < y := by
  cases x with
  | real x =>
    cases y with
    | real y =>
      have hpos : 0 < x * y := hk.trans_lt (real_lt_real.mp h)
      have hle : 0 ≤ y := not_lt.mp hy
      have hx : 0 < x := pos_of_mul_pos_left hpos hle
      exact ⟨real_lt_real.mpr hx, real_lt_real.mpr (pos_of_mul_pos_right hpos hx.le)⟩
    | posInf => exact ⟨real_lt_real.mpr (pos_of_lt_infinite h), trivial⟩
    | negInf => exact absurd trivial hy
    | nan => exact h.elim
  | posInf =>
    cases y with
    | real y => exact ⟨trivial, real_lt_real.mpr (pos_of_lt_infinite h)⟩
    | posInf => exact ⟨trivial, trivial⟩
    | negInf => exact absurd trivial hy
    | nan => exact h.elim
  | negInf =>
    cases y with
    | real y => exact absurd (real_lt_real.mpr (neg_pos.mp (pos_of_lt_infinite h))) hy
    | posInf => exact h.elim
    | negInf => exact absurd trivial hy
    | nan => exact h.elim
  | nan => exact h.elim

/-- A multiple by a positive scalar is positive only if the other factor is. -/
theorem pos_of_mul_pos {x y : ExactReal} (hx : 0 < x) (h : 0 < x * y) : 0 < y := by
  rcases zero_lt_iff.mp hx with rfl | ⟨x, hx, rfl⟩
  · cases y with
    | real y => exact pos_of_lt_infinite h
    | posInf => trivial
    | negInf => exact h.elim
    | nan => exact h.elim
  · cases y with
    | real y => exact real_lt_real.mpr (pos_of_mul_pos_right (real_lt_real.mp h) hx.le)
    | posInf => trivial
    | negInf => exact absurd (pos_of_lt_infinite h) (by linarith)
    | nan => exact h.elim

/-- Multiplication by a positive scalar keeps the order of positive ones. -/
theorem mul_le_mul_of_pos {x y z : ExactReal} (hx : 0 < x) (hle : x ≤ y) (hz : 0 < z) :
    x * z ≤ y * z := by
  have hposInf : ∀ {w : ExactReal}, 0 < w → posInf * w = posInf := by
    intro w hw
    rcases zero_lt_iff.mp hw with rfl | ⟨w, hw, rfl⟩
    · rfl
    · exact infinite_of_pos hw
  rcases zero_lt_iff.mp hx with rfl | ⟨x, hx, rfl⟩
  · -- nothing else is above infinity
    cases y with
    | posInf =>
      rw [hposInf hz]
      trivial
    | real y => exact hle.elim
    | negInf => exact hle.elim
    | nan => exact hle.elim
  · rcases real_le_iff.mp hle with rfl | ⟨y, hy, rfl⟩
    · rw [hposInf hz]
      rcases zero_lt_iff.mp hz with rfl | ⟨z, hz, rfl⟩
      · rw [real_mul_posInf hx]
        trivial
      · exact real_le_posInf _
    · rcases zero_lt_iff.mp hz with rfl | ⟨z, hz, rfl⟩
      · rw [real_mul_posInf hx, real_mul_posInf (hx.trans_le hy)]
        trivial
      · exact real_le_real.mpr (mul_le_mul_of_nonneg_right hy hz.le)

/-- What is below a multiple of a scalar is below that of a larger one. -/
theorem lt_mul_of_le {k : ℝ} (hk : 0 ≤ k) {x y z : ExactReal} (hz : ¬ z < 0) (hle : x ≤ y)
    (h : real k < x * z) : real k < y * z := by
  obtain ⟨hx, hz⟩ := pos_of_lt_mul hk hz h
  exact ExactReal.lt_of_lt_of_le h (mul_le_mul_of_pos hx hle hz)

/-! ## Upper bounds -/

theorem not_real_lt_iff {b : ℝ} {x : ExactReal} :
    ¬ real b < x ↔ x = nan ∨ x = negInf ∨ ∃ z, z ≤ b ∧ x = real z := by
  cases x with
  | real z => simp
  | posInf => simp
  | negInf => simp [show ¬ real b < negInf from id]
  | nan => simp

/-- A sum is not above the sum of the bounds. -/
theorem not_lt_add {a b : ℝ} {x y : ExactReal} (hx : ¬ real a < x) (hy : ¬ real b < y) :
    ¬ real (a + b) < x + y := by
  rcases not_real_lt_iff.mp hx with rfl | rfl | ⟨z, hz, rfl⟩
  · cases y <;> exact not_lt_nan _
  · rcases not_real_lt_iff.mp hy with rfl | rfl | ⟨w, hw, rfl⟩
    · exact not_lt_nan _
    · exact id
    · exact id
  · rcases not_real_lt_iff.mp hy with rfl | rfl | ⟨w, hw, rfl⟩
    · exact not_lt_nan _
    · exact id
    · exact not_lt_of_le (real_le_real.mpr (add_le_add hz hw))

/-- A multiple of a scalar that is not above one is not above the factor. -/
theorem not_lt_mul {factor : ℝ} (hfactor : 0 ≤ factor) {x : ExactReal} (hx : ¬ 1 < x) :
    ¬ real factor < real factor * x := by
  rcases not_real_lt_iff.mp hx with rfl | rfl | ⟨z, hz, rfl⟩
  · exact not_lt_nan _
  · intro hlt
    have hneg : 0 < -factor := pos_of_lt_infinite hlt
    linarith
  · exact not_lt_of_le (real_le_real.mpr (mul_le_of_le_one_right hfactor hz))

/-- What is not above one does not leave a negative part of one. -/
theorem not_one_sub_lt_zero {x : ExactReal} (hx : ¬ 1 < x) : ¬ 1 - x < 0 := by
  rcases not_real_lt_iff.mp hx with rfl | rfl | ⟨z, hz, rfl⟩
  · exact not_nan_lt 0
  · exact not_posInf_lt 0
  · rw [one_eq, real_sub]
    exact not_lt_of_le (real_le_real.mpr (sub_nonneg.mpr hz))

/-! ## Classification -/

theorem beq_iff (x y : ExactReal) : (x == y) = true ↔ x = y ∧ x ≠ nan := by
  simp [BEq.beq]

theorem beq_real (x y : ℝ) : (real x == real y) = true ↔ x = y := by
  simp [beq_iff]

@[simp] theorem isNaN_iff (x : ExactReal) : Scalar.isNaN x = true ↔ x = nan :=
  @decide_eq_true_iff _ (Classical.propDecidable _)

@[simp] theorem isNaN_real (x : ℝ) : Scalar.isNaN (real x) = false := by
  rw [← Bool.not_eq_true, isNaN_iff]
  simp

/-- A scalar that is no NaN is at most itself. -/
theorem le_self_of_not_isNaN {x : ExactReal} (h : Scalar.isNaN x = false) : x ≤ x := by
  cases x with
  | real x => exact real_le_real.mpr le_rfl
  | posInf => trivial
  | negInf => trivial
  | nan => exact absurd ((isNaN_iff nan).mpr rfl) (by simp [h])

theorem isFinite_iff (x : ExactReal) : Scalar.isFinite x = true ↔ ∃ y, x = real y :=
  @decide_eq_true_iff _ (Classical.propDecidable _)

@[simp] theorem isFinite_real (x : ℝ) : Scalar.isFinite (real x) = true :=
  (isFinite_iff _).mpr ⟨x, rfl⟩

@[simp] theorem isFinite_nan : Scalar.isFinite nan = false := by
  rw [← Bool.not_eq_true, isFinite_iff]
  simp

@[simp] theorem isFinite_posInf : Scalar.isFinite posInf = false := by
  rw [← Bool.not_eq_true, isFinite_iff]
  simp

@[simp] theorem filter_isFinite_real (x : ℝ) :
    (some (real x)).filter Scalar.isFinite = some (real x) := by
  simp [Option.filter]

@[simp] theorem filter_isFinite_posInf : (some posInf).filter Scalar.isFinite = none := by
  simp [Option.filter]

/-- Budgets, tolerances and costs are accepted if they are positive real numbers. -/
theorem isPositiveFinite_iff {x : ExactReal} :
    Scalar.isPositiveFinite x = true ↔ ∃ y : ℝ, 0 < y ∧ x = real y := by
  simp only [Scalar.isPositiveFinite, Bool.and_eq_true, isFinite_iff, decide_eq_true_eq, zero_eq]
  constructor
  · rintro ⟨⟨y, rfl⟩, hy⟩
    exact ⟨y, hy, rfl⟩
  · rintro ⟨y, hy, rfl⟩
    exact ⟨⟨y, rfl⟩, hy⟩

@[simp] theorem larger_real (x y : ℝ) :
    Scalar.larger (real x) (real y) = real (max x y) := by
  unfold Scalar.larger
  by_cases h : x < y
  · simp [h, max_eq_right h.le]
  · simp [h, max_eq_left (not_lt.mp h)]

@[simp] theorem smaller_real (x y : ℝ) :
    Scalar.smaller (real x) (real y) = real (min x y) := by
  unfold Scalar.smaller
  by_cases h : y < x
  · simp [h, min_eq_right h.le]
  · simp [h, min_eq_left (not_lt.mp h)]

theorem larger_eq_or (x y : ExactReal) : Scalar.larger x y = x ∨ Scalar.larger x y = y := by
  unfold Scalar.larger
  split
  · exact Or.inr rfl
  · split
    · exact Or.inr rfl
    · exact Or.inl rfl

/-- A scalar that is raised to a real number is not below it, even if it is a NaN. -/
theorem le_larger_real (x : ExactReal) (y : ℝ) : real y ≤ Scalar.larger x (real y) := by
  unfold Scalar.larger
  cases x with
  | real x => by_cases h : x < y <;> simp [h, not_lt.mp]
  | posInf => simp
  | negInf => simp [show negInf < real y from trivial]
  | nan => simp

theorem le_larger_left {x y : ExactReal} (hx : x ≤ x) : x ≤ Scalar.larger x y := by
  unfold Scalar.larger
  split
  · rename_i hnan
    rw [(isNaN_iff x).mp hnan] at hx
    exact (not_nan_le nan hx).elim
  · split
    · exact ExactReal.le_of_lt ‹_›
    · exact hx

theorem le_larger_right {x y : ExactReal} (hx : x ≤ x) (hy : y ≤ y) : y ≤ Scalar.larger x y := by
  unfold Scalar.larger
  split
  · exact hy
  · split
    · exact hy
    · exact ExactReal.le_of_not_lt hx hy ‹_›

/-- The larger one of two scalars is not negative if the second one is positive. -/
theorem not_larger_lt_zero (x : ExactReal) {y : ExactReal} (hy : 0 < y) :
    ¬ Scalar.larger x y < 0 := by
  unfold Scalar.larger
  split
  · exact not_lt_of_le (ExactReal.le_of_lt hy)
  · split
    · exact not_lt_of_le (ExactReal.le_of_lt hy)
    · rename_i hnot
      intro hneg
      exact hnot (ExactReal.lt_of_lt_of_le hneg (ExactReal.le_of_lt hy))

theorem sqrt_real {x : ℝ} (hx : 0 ≤ x) : Scalar.sqrt (real x) = real (√x) :=
  if_neg (not_lt.mpr hx)

@[simp] theorem exp_real (x : ℝ) : Scalar.exp (real x) = real (Real.exp x) := rfl

theorem log_real {x : ℝ} (hx : 0 < x) : Scalar.log (real x) = real (Real.log x) := by
  change (if x < 0 then nan else if x = 0 then negInf else real (Real.log x)) = _
  rw [if_neg (not_lt.mpr hx.le), if_neg hx.ne']

@[simp] theorem log_posInf : Scalar.log posInf = posInf := rfl

@[simp] theorem ceil_real (x : ℝ) : Scalar.ceil (real x) = real (⌈x⌉ : ℤ) := rfl

/-- A natural number in the range of counts is its own integral part. -/
theorem toCount?_natCast (n : ℕ) :
    Scalar.toCount? (real n) = if n ≤ maxCount then some n else none := by
  change (if -1 < (n : ℝ) ∧ (n : ℝ) < maxCount + 1 then some ⌊(n : ℝ)⌋₊ else none) = _
  -- only the upper end of the range matters to a natural number
  have hneg : (-1 : ℝ) < n := lt_of_lt_of_le (by norm_num) n.cast_nonneg
  have hlt : (n : ℝ) < maxCount + 1 ↔ n ≤ maxCount := by
    rw [← Nat.cast_add_one, Nat.cast_lt, Nat.lt_succ_iff]
  simp [hneg, hlt]

/-! ## Lists of real numbers -/

/-- Finite scalars are the images of real numbers. -/
theorem exists_map_real {values : List ExactReal}
    (h : ∀ value ∈ values, Scalar.isFinite value = true) :
    ∃ xs : List ℝ, values = xs.map real := by
  induction values with
  | nil => exact ⟨[], rfl⟩
  | cons value values ih =>
    obtain ⟨x, rfl⟩ := (isFinite_iff value).mp (h value (by simp))
    obtain ⟨xs, rfl⟩ := ih fun v hv => h v (by simp [hv])
    exact ⟨x :: xs, rfl⟩

/-- Scalars between zero and real numbers are real numbers. -/
theorem exists_map_real_of_le {values : List ExactReal} {ys : List ℝ}
    (hvalues : ∀ value ∈ values, 0 ≤ value)
    (h : List.Forall₂ (fun value y => value ≤ real y) values ys) :
    ∃ xs : List ℝ, values = xs.map real ∧ List.Forall₂ (· ≤ ·) xs ys := by
  induction h with
  | nil => exact ⟨[], rfl, .nil⟩
  | @cons value y _ _ hle _ ih =>
    obtain ⟨hvalue, hrest⟩ := List.forall_mem_cons.mp hvalues
    obtain ⟨xs, rfl, hxs⟩ := ih hrest
    rcases real_le_iff.mp hvalue with rfl | ⟨x, -, rfl⟩
    · exact hle.elim
    · exact ⟨x :: xs, rfl, .cons (real_le_real.mp hle) hxs⟩

theorem foldl_add_real (start : ℝ) (xs : List ℝ) :
    (xs.map real).foldl (· + ·) (real start) = real (start + xs.sum) := by
  induction xs generalizing start with
  | nil => simp
  | cons x xs ih => simp [ih, add_assoc]

@[simp] theorem total_real (xs : List ℝ) : total (xs.map real) = real xs.sum := by
  simp [total, foldl_add_real]

theorem average_real {xs : List ℝ} (h : xs ≠ []) :
    average (xs.map real) = real (xs.sum / xs.length) := by
  have hlen : (xs.length : ℝ) ≠ 0 := by simpa using h
  simp [average, hlen]

theorem total_perm {xs ys : List ExactReal} (h : xs.Perm ys) : total xs = total ys :=
  h.foldl_eq' (fun x _ y _ sum => ExactReal.add_right_comm sum x y) 0

/-- The sum of infinities of one sign is that infinity, and a NaN stays one. -/
theorem total_replicate {n : ℕ} (hn : n ≠ 0) {x : ExactReal} (hzero : 0 + x = x)
    (hself : x + x = x) : total (List.replicate n x) = x := by
  obtain ⟨m, rfl⟩ := Nat.exists_eq_succ_of_ne_zero hn
  rw [total, List.replicate_succ, List.foldl_cons, hzero]
  induction m with
  | zero => rfl
  | succ m ih => rw [List.replicate_succ, List.foldl_cons, hself, ih (Nat.succ_ne_zero m)]

/-- The average of equal scalars is each of them, infinities and NaNs included. -/
theorem average_replicate_self {n : ℕ} (hn : n ≠ 0) (x : ExactReal) :
    average (List.replicate n x) = x := by
  have hpos : (0 : ℝ) < n := Nat.cast_pos.mpr (Nat.pos_of_ne_zero hn)
  cases x with
  | real x =>
    rw [← List.map_replicate, average_real (by simpa using hn), List.sum_replicate,
      List.length_replicate, nsmul_eq_mul, mul_div_cancel_left₀ x hpos.ne']
  | posInf =>
    rw [average, total_replicate hn rfl rfl, List.length_replicate]
    exact if_pos hpos.le
  | negInf =>
    rw [average, total_replicate hn rfl rfl, List.length_replicate]
    exact if_pos hpos.le
  | nan =>
    rw [average, total_replicate hn rfl rfl]
    rfl

theorem average_nil : average ([] : List ExactReal) = nan := by
  simp [average, total]

theorem averageCount_of_ne_nil {counts : List ℕ} (h : counts ≠ []) :
    (averageCount counts : ExactReal) = real ((counts.sum : ℕ) / counts.length) := by
  have hmap : counts.map (Scalar.ofCount : ℕ → ExactReal) =
      (counts.map (Nat.cast : ℕ → ℝ)).map real := by
    simp [Function.comp_def]
  rw [averageCount, hmap, average_real (by simpa using h), Nat.cast_list_sum, List.length_map]

/-- A sum of scalars that are not negative is at least each of them. -/
theorem le_foldl_add {values : List ExactReal} (hvalues : ∀ value ∈ values, 0 ≤ value)
    {start : ExactReal} (hstart : 0 ≤ start) :
    start ≤ values.foldl (· + ·) start ∧
      ∀ value ∈ values, value ≤ values.foldl (· + ·) start := by
  induction values generalizing start with
  | nil => exact ⟨le_self_of_le hstart, fun value hvalue => absurd hvalue List.not_mem_nil⟩
  | cons first rest ih =>
    have hfirst := hvalues first List.mem_cons_self
    obtain ⟨hleft, hright⟩ := le_add_of_nonneg hstart hfirst
    obtain ⟨hsum, hrest⟩ := ih (fun value hvalue => hvalues value (List.mem_cons_of_mem _ hvalue))
      (ExactReal.le_trans hstart hleft)
    refine ⟨ExactReal.le_trans hleft hsum, fun value hvalue => ?_⟩
    rcases List.mem_cons.mp hvalue with rfl | hvalue
    · exact ExactReal.le_trans hright hsum
    · exact hrest value hvalue

/-- An average of scalars that are not negative is not negative. -/
theorem not_average_lt_zero {values : List ExactReal} (h : ∀ value ∈ values, ¬ value < 0) :
    ¬ average values < 0 := by
  have hfold : ∀ start : ExactReal, ¬ start < 0 → ¬ values.foldl (· + ·) start < 0 := by
    induction values with
    | nil => exact fun _ hstart => hstart
    | cons first rest ih =>
      intro start hstart
      exact ih (fun value hvalue => h value (List.mem_cons_of_mem first hvalue)) _
        (not_add_lt_zero hstart (h first List.mem_cons_self))
  exact not_div_lt_zero (hfold 0 (not_lt_of_le (real_le_real.mpr le_rfl)))
    (not_lt_of_le (real_le_real.mpr (Nat.cast_nonneg _)))

/-- A total is not above the sum of the bounds. -/
theorem not_lt_total {β : Type} {values : List β} {value : β → ExactReal} {bound : β → ℝ}
    (h : ∀ i ∈ values, ¬ real (bound i) < value i) :
    ¬ real (values.map bound).sum < total (values.map value) := by
  have hfold : ∀ (start : ExactReal) (b : ℝ), ¬ real b < start →
      ¬ real (b + (values.map bound).sum) < (values.map value).foldl (· + ·) start := by
    induction values with
    | nil => simp
    | cons first rest ih =>
      intro start b hstart
      rw [List.map_cons, List.map_cons, List.sum_cons, List.foldl_cons, ← add_assoc]
      exact ih (fun i hi => h i (List.mem_cons_of_mem first hi)) _ _
        (not_lt_add hstart (h first List.mem_cons_self))
  have htotal := hfold 0 0 (not_lt_of_le (real_le_real.mpr le_rfl))
  rwa [zero_add] at htotal

/-- An average of scalars that are not negative is infinite if one of them is. -/
theorem average_eq_posInf {values : List ExactReal} (hvalues : ∀ value ∈ values, 0 ≤ value)
    (hmem : posInf ∈ values) : average values = posInf := by
  have hle : posInf ≤ total values := (le_foldl_add hvalues (real_le_real.mpr le_rfl)).2 posInf hmem
  have htotal : total values = posInf := by
    generalize total values = sum at hle
    cases sum with
    | posInf => rfl
    | real t => exact hle.elim
    | negInf => exact hle.elim
    | nan => exact hle.elim
  rw [average, htotal]
  exact if_pos (Nat.cast_nonneg _)

/-- The average of equal counts is that count. -/
theorem averageCount_replicate {q : ℕ} (hq : q ≠ 0) (n : ℕ) :
    (averageCount (List.replicate q n) : ExactReal) = real n := by
  have hq' : (q : ℝ) ≠ 0 := Nat.cast_ne_zero.mpr hq
  rw [averageCount_of_ne_nil (by simpa using hq)]
  congr 1
  simp [hq']

end ExactReal

end Multifidelity
