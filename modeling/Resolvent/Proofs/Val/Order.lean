import Mathlib
import Resolvent.Val.Basic

/-!
# Comparing integers

The order of integers is exact, but their equality is that of doubles.
-/

open Float.Model Float.Model.UnpackedFloat

namespace Resolvent.Real

/-- The quotient of `n` by a power of two, rounded to the nearer whole number and halfway to the
even one. -/
def halfEven (n k : Nat) : Nat :=
  let below := n / 2 ^ k
  let rest := n % 2 ^ k * 2
  below + if rest < 2 ^ k then 0 else if rest = 2 ^ k then below % 2 else 1

/-- The nearest natural number with at most 53 significant bits, of two as near the one with an even
last bit. -/
def nearestNat (n : Nat) : Nat := halfEven n (n.log2 - 52) * 2 ^ (n.log2 - 52)

/-- The nearest integer that is a double. -/
def nearest (n : Int) : Int := n.sign * nearestNat n.natAbs

variable {m n k x : Nat} {e : Int} {s : Sign}

lemma halfEven_zero (n : Nat) : halfEven n 0 = n := by simp [halfEven, Nat.mod_one]

lemma nearestNat_of_le (h : n ≤ 2 ^ 53) : nearestNat n = n := by
  rcases h.eq_or_lt with rfl | h
  · decide
  · have hlog : n.log2 - 52 = 0 := by
      rcases n.eq_zero_or_pos with rfl | hn
      · simp
      · have := (Nat.log2_lt hn.ne').2 h
        omega
    simp [nearestNat, hlog, halfEven_zero]

lemma nearest_of_le {n : Int} (h : n.natAbs ≤ 2 ^ 53) : nearest n = n := by
  rw [nearest, nearestNat_of_le h, Int.sign_mul_natAbs]

/-! ## Rounding a mantissa -/

lemma shiftRight_succ (em : ExtendedMantissa) (k : Nat) :
    em >>> (k + 1) = (em >>> k).shiftRightOne := rfl

lemma shiftRight_exact (n k : Nat) :
    (ExtendedMantissa.mk n false false >>> k).mantissa = n / 2 ^ k ∧
    ((ExtendedMantissa.mk n false false >>> k).roundBit ||
    (ExtendedMantissa.mk n false false >>> k).stickyBit) = (n % 2 ^ k != 0) := by
  induction k with
  | zero => simp [HShiftRight.hShiftRight, Nat.repeat, Nat.mod_one]
  | succ k ih =>
    obtain ⟨hm, hbits⟩ := ih
    simp only [shiftRight_succ, ExtendedMantissa.shiftRightOne, hm, hbits, Nat.div_div_eq_div_mul,
      ← Nat.pow_succ, Nat.mod_pow_succ]
    rcases Nat.mod_two_eq_zero_or_one (n / 2 ^ k) with h | h <;> simp [h]

lemma roundedMantissa_shiftRight (n k : Nat) :
    (ExtendedMantissa.mk n false false >>> k).roundedMantissa = halfEven n k := by
  cases k with
  | zero => simp [HShiftRight.hShiftRight, Nat.repeat, halfEven_zero,
      ExtendedMantissa.roundedMantissa, ExtendedMantissa.accuracy, Accuracy.roundToNearestEven]
  | succ k =>
    obtain ⟨hm, hbits⟩ := shiftRight_exact n k
    have hlt : n % 2 ^ k < 2 ^ k := Nat.mod_lt _ (Nat.two_pow_pos k)
    have hhalf : halfEven n (k + 1) = n / 2 ^ k / 2 +
        if n % 2 ^ k + 2 ^ k * (n / 2 ^ k % 2) < 2 ^ k then 0
        else if n % 2 ^ k + 2 ^ k * (n / 2 ^ k % 2) = 2 ^ k then n / 2 ^ k / 2 % 2 else 1 := by
      rw [halfEven, Nat.mod_pow_succ, Nat.div_div_eq_div_mul]
      simp only [Nat.pow_succ, Nat.mul_lt_mul_right two_pos, Nat.mul_left_inj two_ne_zero]
    rw [hhalf, shiftRight_succ, ExtendedMantissa.shiftRightOne,
      ExtendedMantissa.roundedMantissa, hm, hbits]
    -- The last bit that goes tells the half, and the bits below it whether there is more.
    have hsticky : (n % 2 ^ k != 0) = decide (n % 2 ^ k ≠ 0) := by rw [decide_not]; rfl
    rw [hsticky]
    by_cases h' : n % 2 ^ k = 0 <;> rcases Nat.mod_two_eq_zero_or_one (n / 2 ^ k) with h | h <;>
      simp [h, h', hlt, ExtendedMantissa.accuracy, Accuracy.roundToNearestEven]

lemma halfEven_bounds (h : m.log2 = 52 + k) : 2 ^ 52 ≤ halfEven m k ∧ halfEven m k ≤ 2 ^ 53 := by
  have hm : m ≠ 0 := by rintro rfl; simp at h; omega
  have hlow : 2 ^ 52 ≤ m / 2 ^ k := by
    rw [Nat.le_div_iff_mul_le (Nat.two_pow_pos k), ← Nat.pow_add, ← h]
    exact Nat.log2_self_le hm
  have hhigh : m / 2 ^ k < 2 ^ 53 := by
    rw [Nat.div_lt_iff_lt_mul (Nat.two_pow_pos k), ← Nat.pow_add, show 53 + k = m.log2 + 1 by omega]
    exact Nat.lt_log2_self
  have hround : halfEven m k ≤ m / 2 ^ k + 1 := by
    unfold halfEven
    dsimp only
    split
    · omega
    · split <;> omega
  have hround' : m / 2 ^ k ≤ halfEven m k := by simp [halfEven]
  omega

lemma shiftToTargetExponent_exact (h : m.log2 = 52 + k) (he : -1074 ≤ e) :
    shiftToTargetExponent .binary64 m e .exact = (ExtendedMantissa.mk m false false >>> k,
    e + k) := by
  have hk : (Format.binary64.targetExponent (totalExponent m e) - e).toNat = k := by
    simp only [Format.targetExponent, totalExponent, Format.mantissaBits, Format.minExponent, h]
    omega
  rw [shiftToTargetExponent, shiftToExponent, hk]
  rfl

lemma roundWithAccuracy_exact (h : m.log2 = 52 + k) (he : -1074 ≤ e) :
    ∃ m' e' hm', roundWithAccuracy .binary64 s m e .exact = .finite s m' e' hm' ∧ m'.log2 = 52 ∧
      (e' = e + k ∨ e' = e + k + 1) ∧ m' * 2 ^ (e' - e).toNat = halfEven m k * 2 ^ k := by
  obtain ⟨hlow, hhigh⟩ := halfEven_bounds h
  simp only [roundWithAccuracy, shiftToTargetExponent_exact h he, roundedMantissa_shiftRight]
  rcases hhigh.lt_or_eq with hlt | heq
  · have hlog : (halfEven m k).log2 = 52 := (Nat.log2_eq_iff (by omega)).2 ⟨hlow, hlt⟩
    have hne : (ExtendedMantissa.mk (halfEven m k) false false >>> 0).mantissa ≠ 0 :=
      show halfEven m k ≠ 0 by omega
    simp only [shiftToTargetExponent_exact (k := 0) hlog (show -1074 ≤ e + k by omega), hne]
    refine ⟨_, _, Nat.pos_of_ne_zero hne, rfl, hlog, .inl (by simp), ?_⟩
    rw [show (e + k + (0 : Nat) - e).toNat = k by omega]
    rfl
  · have hlog : (halfEven m k).log2 = 53 := by rw [heq, Nat.log2_two_pow]
    have hhalf : (ExtendedMantissa.mk (halfEven m k) false false >>> 1).mantissa = 2 ^ 52 := by
      rw [heq]; rfl
    have hne : (ExtendedMantissa.mk (halfEven m k) false false >>> 1).mantissa ≠ 0 := by
      rw [hhalf]; decide
    simp only [shiftToTargetExponent_exact (k := 1) hlog (show -1074 ≤ e + k by omega), hne]
    refine ⟨_, _, Nat.pos_of_ne_zero hne, rfl, by rw [hhalf, Nat.log2_two_pow], .inr rfl, ?_⟩
    rw [hhalf, heq, show (e + k + (1 : Nat) - e).toNat = k + 1 by omega]
    ring

lemma log2_mul_two_pow (hn : n ≠ 0) (k : Nat) : (n * 2 ^ k).log2 = n.log2 + k := by
  rw [Nat.log2_eq_iff (by positivity), add_right_comm, pow_add, pow_add _ (_ + 1)]
  exact ⟨Nat.mul_le_mul_right _ (Nat.log2_self_le hn),
    Nat.mul_lt_mul_of_pos_right Nat.lt_log2_self (Nat.two_pow_pos k)⟩

lemma eq_of_mul_two_pow {m' k' : Nat} (hm : m.log2 = 52) (hm' : m'.log2 = 52)
    (h : m * 2 ^ k = m' * 2 ^ k') : m = m' ∧ k = k' := by
  have hne : m ≠ 0 := by rintro rfl; simp at hm
  have hne' : m' ≠ 0 := by rintro rfl; simp at hm'
  have hlog := congrArg Nat.log2 h
  rw [log2_mul_two_pow hne, log2_mul_two_pow hne', hm, hm', Nat.add_left_cancel_iff] at hlog
  subst hlog
  exact ⟨Nat.eq_of_mul_eq_mul_right (Nat.two_pow_pos k) h, rfl⟩

/-- The mantissa of 53 bits and the exponent of a positive number, in units of `2 ^ -52`. -/
structure Scaled (m : Nat) (e : Int) (x : Nat) : Prop where
  log2_eq : m.log2 = 52
  low : -52 ≤ e
  value : m * 2 ^ (e + 52).toNat = x

lemma Scaled.eq_iff {m' x' : Nat} {e' : Int} (h : Scaled m e x) (h' : Scaled m' e' x') :
    m = m' ∧ e = e' ↔ x = x' := by
  rw [← h.value, ← h'.value]
  refine ⟨fun ⟨hm, he⟩ => by rw [hm, he], fun hval => ?_⟩
  obtain ⟨rfl, hk⟩ := eq_of_mul_two_pow h.log2_eq h'.log2_eq hval
  have := h.low
  have := h'.low
  exact ⟨rfl, by omega⟩

lemma Scaled.pos (h : Scaled m e x) : 0 < x := by
  have hm : 0 < m := Nat.pos_of_ne_zero (by rintro rfl; simpa using h.log2_eq)
  rw [← h.value]
  positivity

lemma ofNat_binary64 (hn : n ≠ 0) (hlt : n < 2 ^ 64) :
    ∃ m e hm, UnpackedFloat.ofNat .binary64 n = .finite .positive m e hm ∧ e ≤ 12 ∧
    Scaled m e (nearestNat n * 2 ^ 52) := by
  have hL : n.log2 < 64 := (Nat.log2_lt hn).2 hlt
  have hgt : compare (n : Int) 0 = .gt := Int.compare_eq_gt.2 (by omega)
  obtain ⟨d, hd⟩ : ∃ d, d = 52 - n.log2 := ⟨_, rfl⟩
  obtain ⟨k, hk⟩ : ∃ k, k = n.log2 - 52 := ⟨_, rfl⟩
  have hshift : (0 - Format.binary64.targetExponent (totalExponent n 0)).toNat = d := by
    simp only [Format.targetExponent, totalExponent, Format.mantissaBits, Format.minExponent]
    omega
  have hlog : (n * 2 ^ d).log2 = 52 + k := by rw [log2_mul_two_pow hn]; omega
  -- Either no bit is added or none is shifted out.
  have hround : halfEven (n * 2 ^ d) k = halfEven n k * 2 ^ d := by
    rcases Nat.le_total 52 n.log2 with h | h
    · simp [show d = 0 by omega]
    · simp [show k = 0 by omega, halfEven_zero]
  obtain ⟨m, e, hm, heq, hlog, he, hval⟩ :=
    roundWithAccuracy_exact (s := .positive) (e := 0 - (d : Int)) hlog (by omega)
  refine ⟨m, e, hm, ?_, by omega, hlog, by omega, ?_⟩
  · simpa only [UnpackedFloat.ofNat, UnpackedFloat.ofInt, UnpackedFloat.normalize, hgt,
      Int.toNat_natCast, UnpackedFloat.round, decreaseExponent, hshift, Nat.shiftLeft_eq] using heq
  · calc m * 2 ^ (e + 52).toNat = m * 2 ^ (e - (0 - (d : Int))).toNat * 2 ^ (52 - d) := by
          rw [mul_assoc, ← pow_add, show (e + 52).toNat =
            (e - (0 - (d : Int))).toNat + (52 - d) by omega]
      _ = halfEven n k * 2 ^ k * (2 ^ d * 2 ^ (52 - d)) := by rw [hval, hround]; ring
      _ = nearestNat n * 2 ^ 52 := by
        rw [← pow_add, show d + (52 - d) = 52 by omega, nearestNat, hk]

lemma unpack_pack {hm : 0 < m} (h : Scaled m e x) (hhigh : e ≤ 12) :
    (Float.Model.pack (.finite s m e hm)).unpack = .finite s m e hm := by
  obtain ⟨hlog, hlow, -⟩ := h
  obtain ⟨hlo, hhi⟩ := (Nat.log2_eq_iff hm.ne').1 hlog
  obtain ⟨b, hb⟩ : ∃ b : Nat, b = e + 1075 := ⟨(e + 1075).toNat, by omega⟩
  have hbiased : (e + Format.binary64.exponentBias + (52 : Nat)).toNat = b := by
    simp only [Format.exponentBias]
    omega
  have hexp : (BitVec.ofNat 11 b).toNat = b := Nat.mod_eq_of_lt (by omega)
  have hmant : (1#1 ++ BitVec.ofNat 52 m).toNat = m := by
    rw [BitVec.toNat_append, ← Nat.shiftLeft_add_eq_or_of_lt (BitVec.isLt _)]
    simp only [Nat.shiftLeft_eq]
    change 1 * 2 ^ 52 + m % 2 ^ 52 = m
    omega
  have hzero : BitVec.ofNat 11 b ≠ 0#11 := fun h => by
    have := congrArg BitVec.toNat h
    rw [hexp] at this
    simp at this
    omega
  have hones : BitVec.ofNat 11 b ≠ -1#11 := fun h => by
    have := congrArg BitVec.toNat h
    rw [hexp] at this
    simp at this
    omega
  simp only [Float.Model.unpack, Float.Model.pack, UnpackedFloat.pack, hbiased, hlog,
    Format.mantissaBits,
    show ¬ 2 ^ 11 ≤ b + 1 by omega, UnpackedFloat.unpack, unpackMantissa_packComponents,
    unpackExponent_packComponents,
    unpackSign_packComponents, Sign.ofBitVec_toBitVec, hzero, hones, ↓reduceIte]
  have hback : (b : Int) - (Format.binary64.exponentBias + (52 : Nat)) = e := by
    simp only [Format.exponentBias]
    omega
  simp only [hmant, hexp, hback]

inductive Stands : UnpackedFloat → Int → Prop
  | zero : Stands (.zero .positive) 0
  | positive {m x : Nat} {e : Int} {hm : 0 < m} : Scaled m e x → Stands (.finite .positive m e hm) x
  | negative {m x : Nat} {e : Int} {hm : 0 < m} : Scaled m e x →
      Stands (.finite .negative m e hm) (-x)

lemma Stands.beq_iff {u v : UnpackedFloat} {x y : Int} (hx : Stands u x) (hy : Stands v y) :
    u.beq v = true ↔ x = y := by
  rw [beq_iff_ne_notANumber_and_eq]
  cases hx with
  | zero =>
    cases hy with
    | zero => simp
    | positive hy | negative hy => have := hy.pos; simp; omega
  | positive hx =>
    have := hx.pos
    cases hy with
    | zero | negative => simp; omega
    | positive hy => simp [hx.eq_iff hy]
  | negative hx =>
    have := hx.pos
    cases hy with
    | zero | positive => simp; omega
    | negative hy => simp [hx.eq_iff hy]

lemma stands_ofInt64 (n : Int64) :
    Stands (ofInt64 n).toModel.unpack (nearest n.toInt * 2 ^ 52) := by
  rcases eq_or_ne n 0 with rfl | hn
  · have hzero : (ofInt64 0).toModel.unpack = .zero .positive :=
      @unpack_packedZero .binary64 .positive
    exact .zero
  have hne : n.toInt.natAbs ≠ 0 := by simpa [← Int64.toInt_inj] using hn
  have hlt : n.toInt.natAbs < 2 ^ 64 := by
    have := n.le_toInt
    have := n.toInt_lt
    omega
  obtain ⟨m, e, hm, heq, hhigh, hscaled⟩ := ofNat_binary64 hne hlt
  have hmagnitude : (UInt64.ofNat n.toInt.natAbs).toFloat.toModel =
    Float.Model.pack (.finite .positive m e hm) := by
    rw [← heq]
    change Float.Model.pack (UnpackedFloat.ofNat .binary64 (UInt64.ofNat n.toInt.natAbs).toNat) = _
    rw [UInt64.toNat_ofNat_of_lt' hlt]
  unfold ofInt64 nearest
  split
  · next hneg =>
    have hsign : n.toInt.sign = -1 := Int.sign_eq_neg_one_of_neg (Int64.lt_iff_toInt_lt.1 hneg)
    have hunpack : (-(UInt64.ofNat n.toInt.natAbs).toFloat).toModel.unpack =
      .finite .negative m e hm := by
      change (Float.Model.pack (Float.Model.unpack _).neg).unpack = _
      rw [hmagnitude, unpack_pack hscaled hhigh]
      exact unpack_pack hscaled hhigh
    rw [hunpack, hsign]
    simpa using Stands.negative hscaled
  · next hneg =>
    have hsign : n.toInt.sign = 1 := by
      rw [Int64.lt_iff_toInt_lt, Int64.toInt_zero] at hneg
      exact Int.sign_eq_one_of_pos (by omega)
    rw [hmagnitude, unpack_pack hscaled hhigh, hsign]
    simpa using Stands.positive hscaled

lemma ofInt64_beq_iff (a b : Int64) : (ofInt64 a == ofInt64 b) = true ↔
    nearest a.toInt = nearest b.toInt :=
  ((stands_ofInt64 a).beq_iff (stands_ofInt64 b)).trans (Int.mul_eq_mul_right_iff (by decide))

end Resolvent.Real

namespace Resolvent.Val

/-- One of the three holds, and only one. -/
def ExactlyOne (p q r : Prop) : Prop := p ∧ ¬ q ∧ ¬ r ∨ ¬ p ∧ q ∧ ¬ r ∨ ¬ p ∧ ¬ q ∧ r

lemma equal_int_iff (a b : Int64) : (int a).equal (int b) = true ↔
    Real.nearest a.toInt = Real.nearest b.toInt := by
  rw [← Real.ofInt64_beq_iff]
  simp [equal, number?]

/-- Two integers are exactly one of less, equal and greater if they are the same or have different
nearest numbers, and not otherwise. Up to `2 ^ 53` they always are. -/
theorem trichotomy_iff (a b : Int64) :
    (ExactlyOne ((int a).less? (int b) = some true) ((int a).equal (int b) = true)
    ((int b).less? (int a) = some true) ↔ a = b ∨ Real.nearest a.toInt ≠ Real.nearest b.toInt) ∧
    (a.toInt.natAbs ≤ 2 ^ 53 → b.toInt.natAbs ≤ 2 ^ 53 →
      ExactlyOne ((int a).less? (int b) = some true) ((int a).equal (int b) = true)
      ((int b).less? (int a) = some true)) := by
  have hexact : ExactlyOne ((int a).less? (int b) = some true) ((int a).equal (int b) = true)
    ((int b).less? (int a) = some true) ↔ a = b ∨ Real.nearest a.toInt ≠ Real.nearest b.toInt := by
    simp only [ExactlyOne, equal_int_iff, less?, Option.some.injEq, decide_eq_true_eq,
      Int64.lt_iff_toInt_lt, ← Int64.toInt_inj]
    rcases lt_trichotomy a.toInt b.toInt with h | h | h
    · simp [h, h.ne, h.le]
    · simp [h]
    · simp [h, h.ne', h.le]
  refine ⟨hexact, fun ha hb => hexact.2 ?_⟩
  rw [Real.nearest_of_le ha, Real.nearest_of_le hb, ← Int64.toInt_inj]
  exact eq_or_ne _ _

/-- The last integer that is told from its neighbour below. -/
theorem trichotomy_limit : let a : Int64 := 9007199254740992
    let b : Int64 := 9007199254740991
    a.toInt.natAbs ≤ 2 ^ 53 ∧ b.toInt.natAbs ≤ 2 ^ 53 ∧
      ExactlyOne ((int a).less? (int b) = some true) ((int a).equal (int b) = true)
      ((int b).less? (int a) = some true) := by
  intro a b
  have ha : a.toInt.natAbs ≤ 2 ^ 53 := by decide
  have hb : b.toInt.natAbs ≤ 2 ^ 53 := by decide
  exact ⟨ha, hb, (trichotomy_iff a b).2 ha hb⟩

/-- It is not told from its neighbour above: it is less, and it is equal. -/
theorem less_and_equal : let a : Int64 := 9007199254740992
    let b : Int64 := 9007199254740993
    (int a).less? (int b) = some true ∧ (int a).equal (int b) = true := by
  intro a b
  exact ⟨by decide, (equal_int_iff a b).2 (by decide)⟩

end Resolvent.Val
