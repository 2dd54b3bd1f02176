import GrammarSampler.Number.Basic
import Mathlib

/-!
Binary64 values, packed and unpacked. The values of interest are in range: neither infinite nor
undefined, and negative only as negative zero.
-/
open Float.Model Float.Model.UnpackedFloat
namespace GrammarSampler.Binary64

theorem toNat_packComponents (s : Sign) (e : BitVec 11) (m : BitVec 52) :
    (packComponents Format.binary64 s e m).toNat =
      s.toBitVec.toNat * 2 ^ 63 + e.toNat * 2 ^ 52 + m.toNat := by
  unfold packComponents
  rw [BitVec.toNat_append, BitVec.toNat_append]
  rw [← Nat.shiftLeft_add_eq_or_of_lt m.isLt, ← Nat.shiftLeft_add_eq_or_of_lt e.isLt]
  simp only [Nat.shiftLeft_eq]
  omega

theorem toNat_unpackExponent (b : BitVec 64) :
    (@unpackExponent Format.binary64 b).toNat = b.toNat / 2 ^ 52 % 2 ^ 11 := by
  simp [unpackExponent, Nat.shiftRight_eq_div_pow]

theorem toNat_unpackSign (b : BitVec 64) :
    (@unpackSign Format.binary64 b).toNat = b.toNat / 2 ^ 63 := by
  have bound := b.isLt
  simp [unpackSign, Nat.shiftRight_eq_div_pow]
  omega

def bits (x : Float) : Nat := x.toBits.toNat

def SignClear (x : Float) : Prop := bits x < 2 ^ 63

def packed (u : UnpackedFloat) : Float := .ofModel (Float.Model.pack u)

def sign? : UnpackedFloat → Option Sign
  | .notANumber => none
  | .infinity s | .zero s | .finite s _ _ _ => some s

def Unsigned (u : UnpackedFloat) : Prop := ∀ s, sign? u = some s → s = .positive

theorem unsigned_of_sign {u : UnpackedFloat} (plus : sign? u = some .positive) : Unsigned u := by
  intro s found
  exact Option.some.inj (found.symm.trans plus)

theorem signClear_pack {u : UnpackedFloat} (plus : Unsigned u) :
    SignClear (packed u) := by
  have clear : ∀ (e : BitVec 11) (m : BitVec 52),
      (packComponents Format.binary64 .positive e m).toNat < 2 ^ 63 := by
    intro e m
    rw [toNat_packComponents]
    have := e.isLt
    have := m.isLt
    simp only [Sign.toBitVec, BitVec.toNat_ofNat]
    omega
  change (UnpackedFloat.pack Format.binary64 u).toNat < 2 ^ 63
  cases u with
  | notANumber => exact clear _ _
  | infinity s => cases plus s rfl; exact clear _ _
  | zero s => cases plus s rfl; exact clear _ _
  | finite s m e positive =>
    cases plus s rfl
    simp only [UnpackedFloat.pack]
    split
    · exact clear _ _
    · split <;> exact clear _ _

theorem unsigned_unpack {x : Float} (clear : SignClear x) : Unsigned x.toModel.unpack := by
  have sign : Sign.ofBitVec (@unpackSign Format.binary64 x.toModel.toBits.toBitVec) = .positive := by
    have zero : @unpackSign Format.binary64 x.toModel.toBits.toBitVec = 0#1 := by
      apply BitVec.eq_of_toNat_eq
      rw [toNat_unpackSign]
      exact Nat.div_eq_of_lt clear
    rw [zero]
    rfl
  intro s found
  simp only [Float.Model.unpack, UnpackedFloat.unpack] at found
  split at found
  · split at found
    · exact sign ▸ (Option.some.inj found).symm
    · cases found
  · split at found
    · split at found
      · exact sign ▸ (Option.some.inj found).symm
      · exact sign ▸ (Option.some.inj found).symm
    · exact sign ▸ (Option.some.inj found).symm

/-- Zero of any sign, or a positive value with a significand of 53 bits and a bounded exponent. -/
inductive Fits (top : Int) : UnpackedFloat → Prop where
  | zero (s : Sign) : Fits top (.zero s)
  | finite {m : Nat} {e : Int} (positive : 0 < m) (short : m < 2 ^ 53) (least : -1074 ≤ e)
      (low : e ≤ top) : Fits top (.finite .positive m e positive)

theorem toNat_append_one (m : BitVec 52) : (1#1 ++ m).toNat = 2 ^ 52 + m.toNat := by
  rw [BitVec.toNat_append, ← Nat.shiftLeft_add_eq_or_of_lt m.isLt]
  simp [Nat.shiftLeft_eq]

theorem unpack_finite {x : Float} {s : Sign} {m : Nat} {e : Int} {positive : 0 < m}
    (found : x.toModel.unpack = .finite s m e positive) :
    m < 2 ^ 53 ∧ (e = -1074 ∨ 2 ^ 52 ≤ m) ∧
      e = max (bits x / 2 ^ 52 % 2 ^ 11 : Nat) 1 - 1075 ∧ e ≤ 971 := by
  rw [show bits x / 2 ^ 52 % 2 ^ 11 = _ from (toNat_unpackExponent x.toModel.toBits.toBitVec).symm]
  have range := (@unpackExponent Format.binary64 x.toModel.toBits.toBitVec).isLt
  have short := (@unpackMantissa Format.binary64 x.toModel.toBits.toBitVec).isLt
  change _ < 2 ^ 11 at range
  change _ < 2 ^ 52 at short
  simp only [Float.Model.unpack, UnpackedFloat.unpack] at found
  split at found
  · split at found <;> cases found
  · rename_i ordinary
    have below : (@unpackExponent Format.binary64 x.toModel.toBits.toBitVec).toNat ≠ 2047 :=
      fun same => ordinary (BitVec.eq_of_toNat_eq same)
    split at found
    · rename_i least
      rw [least] at found
      split at found
      · cases found
      · cases found
        rw [least]
        exact ⟨Nat.lt_trans short (by decide), .inl (by decide), by decide, by decide⟩
    · rename_i more
      have above : (@unpackExponent Format.binary64 x.toModel.toBits.toBitVec).toNat ≠ 0 :=
        fun same => more (BitVec.eq_of_toNat_eq same)
      cases found
      rw [toNat_append_one]
      refine ⟨by omega, .inr (Nat.le_add_right _ _), ?_⟩
      change ((@unpackExponent Format.binary64 x.toModel.toBits.toBitVec).toNat : Int) - 1075 = _ ∧
        ((@unpackExponent Format.binary64 x.toModel.toBits.toBitVec).toNat : Int) - 1075 ≤ 971
      omega

theorem unpack_special {x : Float}
    (special : x.toModel.unpack = .notANumber ∨ ∃ s, x.toModel.unpack = .infinity s) :
    (ExactValue.ofFloat x).isFinite = false := by
  have full : @unpackExponent Format.binary64 x.toModel.toBits.toBitVec = -1#11 := by
    by_contra ordinary
    simp only [Float.Model.unpack, UnpackedFloat.unpack] at special
    rw [if_neg ordinary] at special
    split at special
    · split at special <;> rcases special with h | ⟨s, h⟩ <;> cases h
    · rcases special with h | ⟨s, h⟩ <;> cases h
  have field := toNat_unpackExponent x.toModel.toBits.toBitVec
  rw [full] at field
  unfold ExactValue.ofFloat
  simp only [show x.toBits.toNat / 2 ^ 52 % 2 ^ 11 = 2047 from field.symm, if_true]
  split <;> rfl

theorem fits_unpack {x : Float} (clear : SignClear x)
    (finite : (ExactValue.ofFloat x).isFinite) : Fits 971 x.toModel.unpack := by
  have plus := unsigned_unpack clear
  cases value : x.toModel.unpack with
  | notANumber => simp [unpack_special (.inl value)] at finite
  | infinity s => simp [unpack_special (.inr ⟨s, value⟩)] at finite
  | zero s => exact .zero s
  | finite s m e positive =>
    rw [value] at plus
    cases plus s rfl
    obtain ⟨short, -, place, low⟩ := unpack_finite value
    exact .finite positive short (by omega) low

theorem exponent_packComponents (s : Sign) (e : BitVec 11) (m : BitVec 52) :
    (packComponents Format.binary64 s e m).toNat / 2 ^ 52 % 2 ^ 11 = e.toNat := by
  have := e.isLt
  have := m.isLt
  rw [toNat_packComponents]
  omega

theorem exponent_packed {s : Sign} {m : Nat} {e : Int} (positive : 0 < m) (low : e ≤ 971) :
    bits (packed (.finite s m e positive)) / 2 ^ 52 % 2 ^ 11 ≤ (e + 1075).toNat := by
  change (UnpackedFloat.pack Format.binary64 _).toNat / 2 ^ 52 % 2 ^ 11 ≤ _
  simp only [UnpackedFloat.pack]
  rw [if_neg (by simp [Format.exponentBias]; omega)]
  split
  · rw [exponent_packComponents, BitVec.toNat_ofNat]
    simp [Format.exponentBias]
    omega
  · rw [exponent_packComponents]
    exact Nat.zero_le _

theorem ofFloat_packed_zero (s : Sign) :
    ∃ negative, ExactValue.ofFloat (packed (.zero s)) = .finite negative 0 (-1074) := by
  cases s
  · exact ⟨true, by decide⟩
  · exact ⟨false, by decide⟩

theorem ofFloat_of_clear {x : Float} (clear : SignClear x)
    (ordinary : bits x / 2 ^ 52 % 2 ^ 11 ≠ 2047) :
    ∃ significand exponent, ExactValue.ofFloat x = .finite false significand exponent := by
  have sign : decide (2 ^ 63 ≤ x.toBits.toNat) = false := decide_eq_false (Nat.not_le.mpr clear)
  unfold bits at ordinary
  unfold ExactValue.ofFloat
  simp only [sign]
  rw [if_neg ordinary]
  split <;> exact ⟨_, _, rfl⟩

theorem ofFloat_packed {u : UnpackedFloat} (fits : Fits 971 u) :
    (∃ negative, ExactValue.ofFloat (packed u) = .finite negative 0 (-1074)) ∨
      SignClear (packed u) ∧
        ∃ significand exponent, ExactValue.ofFloat (packed u) = .finite false significand exponent := by
  cases fits with
  | zero s => exact .inl (ofFloat_packed_zero s)
  | @finite m e positive short least low =>
    have clear := signClear_pack (unsigned_of_sign (u := .finite .positive m e positive) rfl)
    have place := exponent_packed (s := .positive) positive low
    exact .inr ⟨clear, ofFloat_of_clear clear (by omega)⟩

theorem fits_unpack_packed {u : UnpackedFloat} {top : Int} (fits : Fits top u) (low : top ≤ 971) :
    Fits top (packed u).toModel.unpack := by
  cases fits with
  | zero s => cases s <;> exact .zero _
  | @finite m e positive short least below =>
    have clear := signClear_pack (unsigned_of_sign (u := .finite .positive m e positive) rfl)
    have place := @exponent_packed .positive m e positive (by omega)
    obtain ⟨_, _, finite⟩ := ofFloat_of_clear clear (by omega)
    have whole := fits_unpack clear (by rw [finite]; rfl)
    revert whole
    cases value : (packed (.finite .positive m e positive)).toModel.unpack with
    | notANumber => intro whole; cases whole
    | infinity t => intro whole; cases whole
    | zero t => intro _; exact .zero t
    | finite t n f above =>
      intro whole
      cases whole with
      | finite _ narrow lowest _ =>
        have shape := unpack_finite value
        exact .finite above narrow lowest (by omega)

end GrammarSampler.Binary64
