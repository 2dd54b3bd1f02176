import GrammarSampler.Proofs.Number.Binary64

/-!
Products that stay in range. A draw from zero to below one times the float of a count has a whole
part that is not negative, and whole numbers below 2 ^ 1023 have a float.
-/
open Float.Model Float.Model.UnpackedFloat
namespace GrammarSampler

namespace Binary64

theorem sign_round (s : Sign) (m : Nat) (e : Int) (a : Accuracy) :
    sign? (roundWithAccuracy Format.binary64 s m e a) = some s := by
  simp only [roundWithAccuracy]
  split <;> rfl

theorem sign_mul (u v : UnpackedFloat) :
    sign? (UnpackedFloat.mul Format.binary64 u v) = none ∨ ∃ s t, sign? u = some s ∧
      sign? v = some t ∧ sign? (UnpackedFloat.mul Format.binary64 u v) = some (s * t) := by
  cases u <;> cases v <;>
    first
    | exact .inl rfl
    | exact .inr ⟨_, _, rfl, rfl, rfl⟩
    | exact .inr ⟨_, _, rfl, rfl, sign_round _ _ _ _⟩

theorem unsigned_mul {u v : UnpackedFloat} (left : Unsigned u) (right : Unsigned v) :
    Unsigned (UnpackedFloat.mul Format.binary64 u v) := by
  intro s found
  rcases sign_mul u v with none | ⟨a, b, first, second, product⟩
  · rw [none] at found
    cases found
  · rw [product, left a first, right b second] at found
    exact (Option.some.inj found).symm

theorem signClear_mul {x y : Float} (left : SignClear x) (right : SignClear y) :
    SignClear (x * y) :=
  signClear_pack (unsigned_mul (unsigned_unpack left) (unsigned_unpack right))

theorem signClear_ofNat (n : Nat) : SignClear (Float.ofNat n) := by
  change SignClear (Float.ofScientific n false 0)
  unfold Float.ofScientific
  split
  · have first : SignClear n.toUInt64.toFloat := by
      refine signClear_pack ?_
      simp only [UnpackedFloat.ofUInt64, UnpackedFloat.ofNat, UnpackedFloat.ofInt,
    UnpackedFloat.normalize]
      split
      · rename_i below
        have := Int.compare_eq_lt.mp below
        omega
      · exact unsigned_of_sign rfl
      · exact unsigned_of_sign (sign_round _ _ _ _)
    have second : SignClear (Float.ofBits 0x3FF0000000000000) := by
      unfold SignClear
      decide
    exact signClear_mul first second
  · refine signClear_pack ?_
    change Unsigned (UnpackedFloat.ofScientific Format.binary64 n 0)
    simp only [UnpackedFloat.ofScientific]
    split
    · exact unsigned_of_sign rfl
    · split
      · exact unsigned_of_sign rfl
      · split
        · exact unsigned_of_sign rfl
        · rw [if_pos (Int.le_refl 0)]
          exact unsigned_mul (unsigned_of_sign rfl) (unsigned_of_sign rfl)

theorem zero_unpack : (0.0 : Float).toModel.unpack = .zero .positive := by rfl

theorem one_unpack : (1.0 : Float).toModel.unpack = .finite .positive (2 ^ 52) (-52) (by decide) := by
  rfl

theorem fits_of_unit {x : Float} (lower : 0.0 ≤ x) (upper : x < 1.0) :
    Fits (-53) x.toModel.unpack := by
  have lower : ((0.0 : Float).toModel.unpack.compare x.toModel.unpack).any (·.isLE) = true  :=
    of_decide_eq_true lower
  have upper : (x.toModel.unpack.compare (1.0 : Float).toModel.unpack == some .lt) = true :=
    of_decide_eq_true upper
  rw [zero_unpack] at lower
  rw [one_unpack] at upper
  cases value : x.toModel.unpack with
  | notANumber => rw [value] at lower; cases lower
  | infinity s =>
    rw [value] at lower upper
    cases s with
    | negative => cases lower
    | positive => cases upper
  | zero s => exact .zero s
  | finite s m e positive =>
    rw [value] at lower upper
    cases s with
    | negative => cases lower
    | positive =>
      obtain ⟨short, normal, place, -⟩ := unpack_finite value
      refine .finite positive short (by omega) ?_
      -- one is 2 ^ 52 at exponent -52, and values compare by exponent first
      have order : (compare e (-52)).then (compare m (2 ^ 52)) = .lt := by
        simpa [UnpackedFloat.compare] using upper
      rcases Ordering.then_eq_lt.mp order with less | ⟨same, less⟩
      · have := Int.compare_eq_lt.mp less
        omega
      · have := Int.compare_eq_eq.mp same
        have := Nat.compare_eq_lt.mp less
        omega

theorem mantissa_shift (em : ExtendedMantissa) (k : Nat) :
    (em >>> k).mantissa = em.mantissa / 2 ^ k := by
  induction k with
  | zero => simp [HShiftRight.hShiftRight, Nat.repeat]
  | succ k ih =>
    have last : (em >>> (k + 1)).mantissa = (em >>> k).mantissa / 2 := rfl
    rw [last, ih, Nat.div_div_eq_div_mul, Nat.pow_succ]

theorem roundedMantissa_le (em : ExtendedMantissa) : em.roundedMantissa ≤ em.mantissa + 1 := by
  obtain ⟨m, r, s⟩ := em
  cases r <;> cases s <;>
    simp [ExtendedMantissa.roundedMantissa, ExtendedMantissa.accuracy, Accuracy.roundToNearestEven]
  omega

theorem div_pow_lt {m k : Nat} (short : m.log2 ≤ 52 + k) : m / 2 ^ k < 2 ^ 53 := by
  rw [Nat.div_lt_iff_lt_mul (Nat.two_pow_pos k), ← Nat.pow_add]
  exact Nat.lt_of_lt_of_le Nat.lt_log2_self (Nat.pow_le_pow_right (by decide) (by omega))

theorem targetExponent_eq (m : Nat) (e : Int) :
    Format.binary64.targetExponent (totalExponent m e) = max (m.log2 + e - 52) (-1074) := by
  simp only [Format.targetExponent, totalExponent, Format.mantissaBits, Format.minExponent]
  omega

theorem shift_mantissa (m : Nat) (e : Int) :
    (shiftToTargetExponent Format.binary64 m e .exact).1.mantissa =
      m / 2 ^ (max (m.log2 + e - 52) (-1074) - e).toNat := by
  rw [shiftToTargetExponent, targetExponent_eq, shiftToExponent, mantissa_shift]
  rfl

theorem shift_exponent (m : Nat) (e : Int) :
    (shiftToTargetExponent Format.binary64 m e .exact).2 = max e (max (m.log2 + e - 52) (-1074)) := by
  rw [shiftToTargetExponent, targetExponent_eq]
  simp only [shiftToExponent]
  omega

theorem shift_mantissa_lt (m : Nat) (e : Int) :
    (shiftToTargetExponent Format.binary64 m e .exact).1.mantissa < 2 ^ 53 := by
  rw [shift_mantissa]
  exact div_pow_lt (by omega)

theorem log2_le {m k : Nat} (small : m < 2 ^ (k + 1)) : m.log2 ≤ k := by
  by_cases zero : m = 0
  · simp [zero]
  · exact Nat.le_of_lt_succ ((Nat.log2_lt zero).mpr small)

theorem fits_round {m : Nat} {e top : Int} (low : e ≤ top) (least : -1074 ≤ top)
    (room : m.log2 + e ≤ top + 52)
    (near : ∀ r, r ≤ m / 2 ^ (max (m.log2 + e - 52) (-1074) - e).toNat + 1 →
      r.log2 + max e (max (m.log2 + e - 52) (-1074)) ≤ top + 52) :
    Fits top (roundWithAccuracy Format.binary64 .positive m e .exact) := by
  have place := shift_exponent m e
  have rounded := roundedMantissa_le (shiftToTargetExponent Format.binary64 m e .exact).1
  rw [shift_mantissa] at rounded
  unfold roundWithAccuracy
  revert place rounded
  generalize shiftToTargetExponent Format.binary64 m e .exact = first
  obtain ⟨em, f⟩ := first
  intro place rounded
  dsimp only at place rounded ⊢
  have near := near em.roundedMantissa rounded
  generalize em.roundedMantissa = r at near ⊢
  have place' := shift_exponent r f
  have short := shift_mantissa_lt r f
  revert place' short
  generalize shiftToTargetExponent Format.binary64 r f .exact = last
  obtain ⟨em', f'⟩ := last
  intro place' short
  dsimp only at place' short ⊢
  split
  · exact .zero _
  · exact .finite _ short (by omega) (by omega)

theorem fits_round_loose {m : Nat} {e top : Int} (low : e < top) (least : -1074 < top)
    (room : m.log2 + e ≤ top + 51) :
    Fits top (roundWithAccuracy Format.binary64 .positive m e .exact) := by
  refine fits_round (by omega) (by omega) (by omega) fun r near => ?_
  have short : m / 2 ^ (max (m.log2 + e - 52) (-1074) - e).toNat < 2 ^ 53 := div_pow_lt (by omega)
  have bound : r.log2 ≤ 53 := log2_le (by omega)
  omega

theorem fits_round_tight {m : Nat} {e : Int} (small : m ≤ (2 ^ 53 - 1) * (2 ^ 53 - 1))
    (low : e ≤ 918) : Fits 971 (roundWithAccuracy Format.binary64 .positive m e .exact) := by
  have wide : m.log2 ≤ 105 := log2_le (by omega)
  refine fits_round (by omega) (by omega) (by omega) fun r near => ?_
  -- A full shift leaves less than 2 ^ 53 - 1, which rounding up cannot lengthen.
  by_cases long : 53 ≤ (max (m.log2 + e - 52) (-1074) - e).toNat
  · have smaller := @Nat.div_le_div_left (2 ^ 53) _ m (Nat.pow_le_pow_right (by decide) long) (by decide)
    have bound : r.log2 ≤ 52 := log2_le (by omega)
    omega
  · have short : m / 2 ^ (max (m.log2 + e - 52) (-1074) - e).toNat < 2 ^ 53 := div_pow_lt (by omega)
    have bound : r.log2 ≤ 53 := log2_le (by omega)
    omega

theorem mul_positive {m n : Nat} {e f : Int} (hm : 0 < m) (hn : 0 < n) :
    UnpackedFloat.mul Format.binary64 (.finite .positive m e hm) (.finite .positive n f hn) =
      roundWithAccuracy Format.binary64 .positive (m * n) (e + f) .exact := rfl

theorem fits_mul {u v : UnpackedFloat} (left : Fits (-53) u) (right : Fits 971 v) :
    Fits 971 (UnpackedFloat.mul Format.binary64 u v) := by
  cases left with
  | zero s =>
    cases right with
    | zero t => exact .zero _
    | finite => exact .zero _
  | finite _ short _ low =>
    cases right with
    | zero t => exact .zero _
    | finite _ short' _ low' =>
      rw [mul_positive]
      exact fits_round_tight (Nat.mul_le_mul (by omega) (by omega)) (by omega)

theorem toInt_packed {u : UnpackedFloat} (fits : Fits 971 u) :
    ∃ n : Nat, (Number.float (packed u)).toInt = .ok n := by
  rcases ofFloat_packed fits with ⟨negative, value⟩ | ⟨-, significand, exponent, value⟩
  · refine ⟨0, ?_⟩
    simp only [Number.toInt, Number.split, value, ExactValue.truncate, Nat.zero_mul, Nat.zero_div]
    cases negative <;> rfl
  · refine ⟨significand * 2 ^ exponent.toNat / 2 ^ (-exponent).toNat, ?_⟩
    simp [Number.toInt, Number.split, value, ExactValue.truncate]

/-- A draw times a finite value that is not negative has a whole part. -/
theorem toInt_mul {x y : Float} (lower : 0.0 ≤ x) (upper : x < 1.0) (clear : SignClear y)
    (finite : (ExactValue.ofFloat y).isFinite) : ∃ n : Nat, (Number.float (x * y)).toInt = .ok n :=
  toInt_packed (fits_mul (fits_of_unit lower upper) (fits_unpack clear finite))

theorem log2_shiftLeft_le (n k : Nat) : (n <<< k).log2 ≤ n.log2 + k := by
  refine log2_le ?_
  rw [Nat.shiftLeft_eq, Nat.add_right_comm, Nat.pow_add]
  exact Nat.mul_lt_mul_of_pos_right Nat.lt_log2_self (Nat.two_pow_pos k)

theorem fits_ofUInt64 (n : UInt64) : Fits 12 (UnpackedFloat.ofUInt64 Format.binary64 n) := by
  have small := n.toNat_lt
  simp only [UnpackedFloat.ofUInt64, UnpackedFloat.ofNat, UnpackedFloat.ofInt,
    UnpackedFloat.normalize]
  split
  · rename_i below
    have := Int.compare_eq_lt.mp below
    omega
  · exact .zero _
  · simp only [UnpackedFloat.round, decreaseExponent, targetExponent_eq, Int.toNat_natCast]
    have short := log2_le (k := 63) small
    have wide := log2_shiftLeft_le n.toNat (0 - max (n.toNat.log2 + 0 - 52 : Int) (-1074)).toNat
    exact fits_round_loose (by omega) (by decide) (by omega)

theorem fits_ofScientific {n : Nat} (short : n.log2 ≤ 1022) :
    Fits 971 (UnpackedFloat.ofScientific Format.binary64 n 0) := by
  have wide := log2_shiftLeft_le n 53
  simp only [UnpackedFloat.ofScientific]
  split
  · exact .zero _
  · split
    · rename_i above
      exact absurd above (by decide)
    · split
      · exact .zero _
      · rw [if_pos (Int.le_refl 0)]
        rw [mul_positive, Int.toNat_zero, Nat.pow_zero, Nat.mul_one, Int.add_zero]
        refine fits_round_loose (by decide) (by decide) ?_
        change ((n <<< 53).log2 : Int) + (-53) ≤ _
        omega

theorem isFinite_packed {u : UnpackedFloat} (fits : Fits 971 u) :
    (ExactValue.ofFloat (packed u)).isFinite = true := by
  rcases ofFloat_packed fits with ⟨_, value⟩ | ⟨-, _, _, value⟩ <;> rw [value] <;> rfl

theorem fits_mul_one {u : UnpackedFloat} (fits : Fits 12 u) :
    Fits 971 (UnpackedFloat.mul Format.binary64 u (.finite .positive (2 ^ 52) (-52) (by decide))) := by
  cases fits with
  | zero s => exact .zero _
  | finite _ short _ low =>
    rw [mul_positive]
    exact fits_round_tight (Nat.mul_le_mul (by omega) (by decide)) (by omega)

theorem isFinite_ofNat {n : Nat} (short : n.log2 ≤ 1022) :
    (ExactValue.ofFloat (Float.ofNat n)).isFinite = true := by
  change (ExactValue.ofFloat (Float.ofScientific n false 0)).isFinite = true
  unfold Float.ofScientific
  split
  · have one : (Float.ofBits 0x3FF0000000000000).toModel.unpack =
        .finite .positive (2 ^ 52) (-52) (by decide) := by rfl
    have whole := fits_unpack_packed (fits_ofUInt64 n.toUInt64) (by decide)
    change (ExactValue.ofFloat (packed (UnpackedFloat.mul Format.binary64
      (packed (UnpackedFloat.ofUInt64 Format.binary64 n.toUInt64)).toModel.unpack
      (Float.ofBits 0x3FF0000000000000).toModel.unpack))).isFinite = true
    rw [one]
    exact isFinite_packed (fits_mul_one whole)
  · exact isFinite_packed (fits_ofScientific short)

end Binary64

namespace Number
open Binary64

theorem toFloat_natCast (n : Nat) : (int n).toFloat =
    if (ExactValue.ofFloat (Float.ofNat n)).isFinite then .ok (Float.ofNat n)
    else .error .tooLargeForFloat := rfl

theorem toFloat_of_log2 {n : Nat} (short : n.log2 ≤ 1022) : ∃ x, (int n).toFloat = .ok x :=
  ⟨Float.ofNat n, by rw [toFloat_natCast, if_pos (isFinite_ofNat short)]⟩

theorem toInt_mul_count {draw whole : Float} {n : Nat} (lower : 0.0 ≤ draw) (upper : draw < 1.0)
    (count : (int n).toFloat = .ok whole) : ∃ k : Nat, (float (draw * whole)).toInt = .ok k := by
  rw [toFloat_natCast] at count
  split at count
  · rename_i finite
    cases count
    exact toInt_mul lower upper (signClear_ofNat n) finite
  · cases count

end Number

end GrammarSampler
