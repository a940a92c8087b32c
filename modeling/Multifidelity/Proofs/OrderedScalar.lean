import Mathlib
import Multifidelity.Proofs.ExactReal
import Multifidelity.Scalar.Binary64

/-!
# Scalars in order

Comparisons do not round. Apart from a NaN, which compares with nothing, scalars are in a linear
order up to the two signs of zero, and to take zero away changes nothing. Exact scalars are like
this, and so are binary64 numbers: what follows from these laws holds for numbers that are rounded.

## Main definitions

* `OrderedScalar`: the laws
* `Binary64.place`: where on the number line an unpacked binary64 number lies

## Main results

* `Binary64.compare_eq`: comparisons of binary64 numbers are those of their places
* `Binary64.pack_unpack`: a binary64 number is packed again as it was
* `instOrderedScalarExactReal`, `instOrderedScalarFloat`: scalars that satisfy the laws
-/

namespace Multifidelity

/-- Scalars whose comparisons are those of a number line with a NaN apart from it. -/
class OrderedScalar (α : Type) [Scalar α] : Prop where
  isNaN_left {x y : α} : x ≤ y → Scalar.isNaN x = false
  isNaN_right {x y : α} : x ≤ y → Scalar.isNaN y = false
  le_total {x y : α} : Scalar.isNaN x = false → Scalar.isNaN y = false → x ≤ y ∨ y ≤ x
  le_trans {x y z : α} : x ≤ y → y ≤ z → x ≤ z
  lt_iff {x y : α} : x < y ↔ x ≤ y ∧ ¬ y ≤ x
  beq_iff {x y : α} : (x == y) = true ↔ x ≤ y ∧ y ≤ x
  sub_zero (x : α) : x - 0 = x

namespace OrderedScalar

variable {α : Type} [Scalar α] [OrderedScalar α] {x y z : α}

theorem le_of_lt (h : x < y) : x ≤ y :=
  (lt_iff.mp h).1

theorem not_le_of_lt (h : x < y) : ¬ y ≤ x :=
  (lt_iff.mp h).2

theorem le_self (h : Scalar.isNaN x = false) : x ≤ x :=
  (le_total h h).elim id id

theorem lt_of_not_le (hx : Scalar.isNaN x = false) (hy : Scalar.isNaN y = false) (h : ¬ y ≤ x) :
    x < y :=
  lt_iff.mpr ⟨(le_total hx hy).resolve_right h, h⟩

theorem le_of_not_lt (hx : Scalar.isNaN x = false) (hy : Scalar.isNaN y = false) (h : ¬ y < x) :
    x ≤ y := by
  by_contra hle
  exact h (lt_of_not_le hy hx hle)

theorem lt_of_lt_of_le (hxy : x < y) (hyz : y ≤ z) : x < z := by
  refine lt_iff.mpr ⟨le_trans (le_of_lt hxy) hyz, fun hzx => ?_⟩
  exact not_le_of_lt hxy (le_trans hyz hzx)

end OrderedScalar

/-! ## Exact scalars -/

namespace ExactReal

theorem isNaN_eq_false_of_le {x y : ExactReal} (h : x ≤ y) :
    Scalar.isNaN x = false ∧ Scalar.isNaN y = false := by
  rw [← Bool.not_eq_true, ← Bool.not_eq_true, isNaN_iff, isNaN_iff]
  constructor
  · rintro rfl
    exact not_nan_le _ h
  · rintro rfl
    exact not_le_nan _ h

protected theorem lt_iff (x y : ExactReal) : x < y ↔ x ≤ y ∧ ¬ y ≤ x := by
  constructor
  · intro h
    exact ⟨ExactReal.le_of_lt h, fun hle => not_lt_of_le hle h⟩
  · rintro ⟨hle, hnot⟩
    by_contra hlt
    exact hnot (ExactReal.le_of_not_lt (le_self_of_not_isNaN (isNaN_eq_false_of_le hle).1)
      (le_self_of_not_isNaN (isNaN_eq_false_of_le hle).2) hlt)

end ExactReal

open ExactReal in
instance instOrderedScalarExactReal : OrderedScalar ExactReal where
  isNaN_left h := (isNaN_eq_false_of_le h).1
  isNaN_right h := (isNaN_eq_false_of_le h).2
  le_total {x y} hx hy := by
    by_cases h : x < y
    · exact Or.inl (ExactReal.le_of_lt h)
    · exact Or.inr (ExactReal.le_of_not_lt (le_self_of_not_isNaN hx) (le_self_of_not_isNaN hy) h)
  le_trans := ExactReal.le_trans
  lt_iff := ExactReal.lt_iff _ _
  beq_iff {x y} := by
    rw [beq_iff, Ne, ← isNaN_iff, Bool.not_eq_true]
    constructor
    · rintro ⟨rfl, h⟩
      exact ⟨le_self_of_not_isNaN h, le_self_of_not_isNaN h⟩
    · rintro ⟨hxy, hyx⟩
      exact ⟨ExactReal.le_antisymm hxy hyx, (isNaN_eq_false_of_le hxy).1⟩
  sub_zero x := by
    cases x with
    | real x => rw [zero_eq, real_sub, sub_zero]
    | posInf | negInf | nan => rfl

/-! ## Binary64 numbers -/

namespace Binary64

open Float.Model Float.Model.UnpackedFloat

/-- Where a number lies: its sign and kind first, then the exponent, then the mantissa. -/
def place : UnpackedFloat → ℤ ×ₗ ℤ ×ₗ ℤ
  | .infinity .negative => toLex (-2, toLex (0, 0))
  | .finite .negative mantissa exponent _ => toLex (-1, toLex (-exponent, -mantissa))
  | .finite .positive mantissa exponent _ => toLex (1, toLex (exponent, mantissa))
  | .infinity .positive => toLex (2, toLex (0, 0))
  | _ => toLex (0, toLex (0, 0))

theorem compare_natCast (m n : ℕ) : compare (m : ℤ) (n : ℤ) = compare m n := by
  rw [← cmp_eq_compare, ← cmp_eq_compare]
  exact Nat.strictMono_cast.cmp_map_eq m n

theorem compare_neg (x y : ℤ) : compare (-x) (-y) = (compare x y).swap := by
  rw [← cmp_eq_compare, ← cmp_eq_compare, cmp_swap]
  exact StrictAnti.cmp_map_eq (fun _ _ => neg_lt_neg) x y

/-- Two numbers compare like their places. -/
theorem compare_eq {a b : UnpackedFloat} (ha : a.isNaN = false) (hb : b.isNaN = false) :
    a.compare b = some (compare (place a) (place b)) := by
  cases a with
  | notANumber => cases ha
  | infinity s =>
    cases b with
    | notANumber => cases hb
    | infinity t => cases s <;> cases t <;> rfl
    | zero t => cases s <;> rfl
    | finite t => cases s <;> cases t <;> rfl
  | zero s =>
    cases b with
    | notANumber => cases hb
    | infinity t => cases t <;> rfl
    | zero t => rfl
    | finite t => cases t <;> rfl
  | finite s m e =>
    cases b with
    | notANumber => cases hb
    | infinity t => cases s <;> cases t <;> rfl
    | zero t => cases s <;> rfl
    | finite t n f =>
      -- only numbers of one sign are compared by their exponents and mantissas
      cases s <;> cases t
      case negative.negative =>
        show _ = some ((compare (-e) (-f)).then (compare (-(m : ℤ)) (-(n : ℤ))))
        rw [compare_neg, compare_neg, compare_natCast, ← Ordering.swap_then]
        rfl
      case positive.positive =>
        show _ = some ((compare e f).then (compare (m : ℤ) (n : ℤ)))
        rw [compare_natCast]
        rfl
      all_goals rfl

theorem compare_of_isNaN {a b : UnpackedFloat} (h : a.isNaN = true ∨ b.isNaN = true) :
    a.compare b = none := by
  cases a with
  | notANumber => rfl
  | _ =>
    cases b with
    | notANumber => rfl
    | _ => rcases h with h | h <;> cases h

theorem compare_eq_some_iff {a b : UnpackedFloat} {ordering : Ordering} :
    a.compare b = some ordering ↔
      a.isNaN = false ∧ b.isNaN = false ∧ compare (place a) (place b) = ordering := by
  by_cases h : a.isNaN = true ∨ b.isNaN = true
  · rw [compare_of_isNaN h]
    simp only [reduceCtorEq, false_iff, not_and]
    intro ha hb
    simp [ha, hb] at h
  · simp only [not_or, Bool.not_eq_true] at h
    rw [compare_eq h.1 h.2]
    simp [h]

theorem lt_iff (x y : Float) :
    x < y ↔ Scalar.isNaN x = false ∧ Scalar.isNaN y = false ∧
      place x.toModel.unpack < place y.toModel.unpack := by
  have hlt : x < y ↔ x.toModel.unpack.compare y.toModel.unpack = some .lt := by
    rw [← beq_iff_eq]
    exact decide_eq_true_iff
  rw [hlt, compare_eq_some_iff, compare_lt_iff_lt]
  rfl

theorem beq_iff (x y : Float) :
    (x == y) = true ↔ Scalar.isNaN x = false ∧ Scalar.isNaN y = false ∧
      place x.toModel.unpack = place y.toModel.unpack := by
  have hbeq : (x == y) = true ↔ x.toModel.unpack.compare y.toModel.unpack = some .eq := by
    show (x.toModel.unpack.compare y.toModel.unpack == some .eq) = true ↔ _
    exact beq_iff_eq
  rw [hbeq, compare_eq_some_iff, compare_eq_iff_eq]
  rfl

/-- To be at most another number is to compare as less or as equal. -/
theorem le_iff (x y : Float) :
    x ≤ y ↔ Scalar.isNaN x = false ∧ Scalar.isNaN y = false ∧
      place x.toModel.unpack ≤ place y.toModel.unpack := by
  have hle : x ≤ y ↔ x < y ∨ (x == y) = true := by
    have hany : x ≤ y ↔
        (x.toModel.unpack.compare y.toModel.unpack).any Ordering.isLE = true := decide_eq_true_iff
    have hlt : x < y ↔ (x.toModel.unpack.compare y.toModel.unpack == some .lt) = true :=
      decide_eq_true_iff
    have hbeq : (x == y) = (x.toModel.unpack.compare y.toModel.unpack == some .eq) := rfl
    rw [hany, hlt, hbeq]
    rcases x.toModel.unpack.compare y.toModel.unpack with _ | _ | _ | _ <;> decide
  rw [hle, lt_iff, beq_iff, le_iff_lt_or_eq]
  tauto

/-! ### Packing -/

theorem toBitVec_ofBitVec (v : BitVec 1) : (Sign.ofBitVec v).toBitVec = v := by
  revert v
  decide

/-- The sign, the exponent and the mantissa make up the number. -/
theorem packComponents_unpack (b : BitVec Format.binary64.numBits) :
    packComponents .binary64 (Sign.ofBitVec (unpackSign b)) (unpackExponent b)
      (unpackMantissa b) = b := by
  rw [packComponents, toBitVec_ofBitVec]
  refine BitVec.eq_of_getLsbD_eq fun i hi => ?_
  simp only [unpackSign, unpackExponent, unpackMantissa, BitVec.getLsbD_append, BitVec.getLsbD_cast,
    BitVec.getLsbD_extractLsb]
  have hi : i < 64 := hi
  split_ifs with hmantissa hexponent
  · rw [decide_eq_true (by omega), Bool.true_and, Nat.zero_add]
  · rw [decide_eq_true (by omega), Bool.true_and, Nat.add_sub_cancel' (by omega)]
  · obtain rfl : i = 63 := by omega
    rfl

theorem toNat_append_one (m : BitVec 52) : (1#1 ++ m).toNat = 2 ^ 52 + m.toNat := by
  rw [BitVec.toNat_append, ← Nat.shiftLeft_add_eq_or_of_lt m.isLt]
  rfl

/-- The least exponent stands for the numbers without an implicit bit. -/
theorem pack_subnormal (s : Sign) (m : BitVec 52) (hm : 0 < m.toNat) :
    UnpackedFloat.pack .binary64 (.finite s m.toNat (-1074) hm) =
      packComponents .binary64 s 0#11 m := by
  have hlog : m.toNat.log2 < 52 := (Nat.log2_lt hm.ne').mpr m.isLt
  have hbits : m.toNat.log2 + 1 ≠ Format.binary64.mantissaBits := by
    show m.toNat.log2 + 1 ≠ 53
    omega
  have hexponent : ¬ 2 ^ Format.binary64.exponentBits ≤ (-1074 + Format.binary64.exponentBias +
      Format.binary64.mantissaBitsWithoutImplicit : ℤ).toNat + 1 := by decide
  rw [UnpackedFloat.pack]
  dsimp only
  rw [if_neg hexponent, if_neg hbits, BitVec.ofNat_toNat, BitVec.setWidth_eq]

/-- Any other exponent but the largest one stands for the numbers with an implicit bit. -/
theorem pack_normal (s : Sign) (e : BitVec 11) (m : BitVec 52) (hm : 0 < (1#1 ++ m).toNat)
    (hlast : e ≠ -1#11) :
    UnpackedFloat.pack .binary64 (.finite s (1#1 ++ m).toNat (e.toNat - 1075) hm) =
      packComponents .binary64 s e m := by
  have hvalue := toNat_append_one m
  have hbits : (1#1 ++ m).toNat.log2 + 1 = Format.binary64.mantissaBits := by
    have hlog : (1#1 ++ m).toNat.log2 = 52 := by
      rw [Nat.log2_eq_iff hm.ne']
      have hlt := m.isLt
      omega
    rw [hlog]
    rfl
  have hexponent : ((e.toNat - 1075 : ℤ) + Format.binary64.exponentBias +
      Format.binary64.mantissaBitsWithoutImplicit : ℤ).toNat = e.toNat := by
    show ((e.toNat - 1075 : ℤ) + (1023 : ℕ) + (52 : ℕ)).toNat = e.toNat
    omega
  have hlimit : ¬ 2 ^ Format.binary64.exponentBits ≤ e.toNat + 1 := by
    have hne : e.toNat ≠ 2047 := fun h => hlast (BitVec.eq_of_toNat_eq h)
    have hlt := e.isLt
    show ¬ 2 ^ 11 ≤ e.toNat + 1
    omega
  rw [UnpackedFloat.pack]
  dsimp only
  rw [hexponent, if_neg hlimit, if_pos hbits, BitVec.ofNat_toNat, BitVec.setWidth_eq]
  congr 1
  apply BitVec.eq_of_toNat_eq
  rw [BitVec.toNat_ofNat, hvalue, Nat.add_mod_left, Nat.mod_eq_of_lt m.isLt]

/-- A number that is unpacked is packed again as it was. -/
theorem pack_unpack (v : Float.Model) : Float.Model.pack v.unpack = v := by
  obtain ⟨⟨b⟩, hvalid⟩ := v
  have hbits : UnpackedFloat.pack .binary64 (UnpackedFloat.unpack .binary64 b) = b := by
    rw [UnpackedFloat.unpack]
    dsimp only
    split
    · rename_i hlast
      split
      · rename_i hzero
        -- what is not a NaN is put together from its parts
        conv_rhs => rw [← packComponents_unpack b, hlast, hzero]
        rfl
      · rename_i hmantissa
        exact (hvalid.eq_packedNaN hlast hmantissa).symm
    · rename_i hlast
      split
      · rename_i hexponent
        split
        · rename_i hzero
          conv_rhs => rw [← packComponents_unpack b, hexponent, hzero]
          rfl
        · have hleast : ((@unpackExponent .binary64 b).toNat - ((Format.binary64.exponentBias : ℤ) +
              Format.binary64.mantissaBitsWithoutImplicit) + 1 : ℤ) = -1074 := by
            rw [hexponent]
            rfl
          rw [hleast]
          conv_rhs => rw [← packComponents_unpack b, hexponent]
          exact pack_subnormal _ _ _
      · conv_rhs => rw [← packComponents_unpack b]
        exact pack_normal _ _ _ _ hlast
  simp only [Float.Model.pack, Float.Model.unpack, hbits]

theorem sub_zero (x : Float) : x - 0 = x := by
  have hsub : UnpackedFloat.sub .binary64 x.toModel.unpack (.zero .positive) =
      x.toModel.unpack := by
    cases x.toModel.unpack with
    | zero s => cases s <;> rfl
    | notANumber | infinity | finite => rfl
  show Float.ofModel (Float.Model.pack (UnpackedFloat.sub .binary64 x.toModel.unpack
    (.zero .positive))) = x
  rw [hsub, pack_unpack]

end Binary64

instance instOrderedScalarFloat : OrderedScalar Float where
  isNaN_left {x y} h := ((Binary64.le_iff x y).mp h).1
  isNaN_right {x y} h := ((Binary64.le_iff x y).mp h).2.1
  le_total {x y} hx hy := by
    rcases le_total (Binary64.place x.toModel.unpack) (Binary64.place y.toModel.unpack) with h | h
    · exact Or.inl ((Binary64.le_iff x y).mpr ⟨hx, hy, h⟩)
    · exact Or.inr ((Binary64.le_iff y x).mpr ⟨hy, hx, h⟩)
  le_trans {x y z} hxy hyz := by
    obtain ⟨hx, -, hxy⟩ := (Binary64.le_iff x y).mp hxy
    obtain ⟨-, hz, hyz⟩ := (Binary64.le_iff y z).mp hyz
    exact (Binary64.le_iff x z).mpr ⟨hx, hz, hxy.trans hyz⟩
  lt_iff {x y} := by
    refine (Binary64.lt_iff x y).trans ⟨?_, ?_⟩
    · rintro ⟨hx, hy, hlt⟩
      refine ⟨(Binary64.le_iff x y).mpr ⟨hx, hy, hlt.le⟩, fun hge => ?_⟩
      exact hlt.not_ge ((Binary64.le_iff y x).mp hge).2.2
    · rintro ⟨hle, hnot⟩
      obtain ⟨hx, hy, hle⟩ := (Binary64.le_iff x y).mp hle
      refine ⟨hx, hy, lt_of_le_not_ge hle fun hge => ?_⟩
      exact hnot ((Binary64.le_iff y x).mpr ⟨hy, hx, hge⟩)
  beq_iff {x y} := by
    refine (Binary64.beq_iff x y).trans ⟨?_, ?_⟩
    · rintro ⟨hx, hy, heq⟩
      exact ⟨(Binary64.le_iff x y).mpr ⟨hx, hy, heq.le⟩, (Binary64.le_iff y x).mpr ⟨hy, hx, heq.ge⟩⟩
    · rintro ⟨hle, hge⟩
      obtain ⟨hx, hy, hle⟩ := (Binary64.le_iff x y).mp hle
      exact ⟨hx, hy, le_antisymm hle ((Binary64.le_iff y x).mp hge).2.2⟩
  sub_zero := Binary64.sub_zero

end Multifidelity
