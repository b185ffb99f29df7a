import Reckon.Number.Binary64
import Mathlib

/-!
# Whole numbers as floats

A float has room for 53 bits, so it can be any whole number below `2 ^ 53` in size, and sums and
products of such floats are exact for as long as they stay below that bound. `Binary64.Holds x n`
says that the float `x` is the whole number `n`.

Arithmetic on floats unpacks its operands into a sign, a mantissa and an exponent, works on those,
rounds and packs. A whole number is unpacked in one way only (`Binary64.shape`): its mantissa is
shifted up until it is full. Rounding brings any scaling of a whole number into that shape and loses
nothing, and a full mantissa survives packing. The rest follows from these two facts.

Main results: `Binary64.holds_ofInt`, `Binary64.Holds.add`, `Binary64.Holds.mul`,
`Binary64.holds_iff_beq` and `Binary64.roundToInt32_of_beq`.
-/

namespace Reckon

namespace Binary64

open Float.Model Float.Model.UnpackedFloat

variable {s t : Sign} {m n l k : Nat} {e : Int} {x y : Float} {a b : Int}

/-! ## The shape of a whole number -/

/-- The bits of a mantissa that a whole number leaves free. -/
def spare (n : Nat) : Nat := 52 - n.log2

/-- What a float that is a whole number is unpacked into. -/
def shape (s : Sign) (n : Nat) : UnpackedFloat :=
  if h : n = 0 then .zero s else .finite s (n * 2 ^ spare n) (-spare n) (by positivity)

/-- Zero keeps its sign and has no mantissa. -/
theorem shape_zero (s : Sign) : shape s 0 = .zero s := dif_pos rfl

/-- Any other whole number has its mantissa shifted up until it is full. -/
theorem shape_of_ne_zero (hn : n ≠ 0) :
    shape s n = .finite s (n * 2 ^ spare n) (-spare n) (by positivity) := dif_neg hn

theorem shape_ne_notANumber : shape s n ≠ .notANumber := by
  unfold shape
  split <;> nofun

/-- Each factor of two adds a bit. -/
theorem log2_mul_two_pow (hn : n ≠ 0) (k : Nat) : (n * 2 ^ k).log2 = n.log2 + k := by
  rw [Nat.log2_eq_iff (by positivity)]
  constructor
  · rw [pow_add]
    exact Nat.mul_le_mul_right _ (Nat.log2_self_le hn)
  · rw [show n.log2 + k + 1 = n.log2 + 1 + k by omega, pow_add]
    exact Nat.mul_lt_mul_of_pos_right Nat.lt_log2_self (by positivity)

/-- The mantissa of a whole number is full. -/
theorem log2_shape (hn : n ≠ 0) (hSmall : n < 2 ^ 53) : (n * 2 ^ spare n).log2 = 52 := by
  have hLog : n.log2 < 53 := (Nat.log2_lt hn).2 hSmall
  rw [log2_mul_two_pow hn, spare]
  omega

/-! ## Signs -/

/-- The sign of a whole number. Zero counts as positive. -/
def signOf (n : Int) : Sign := if n < 0 then .negative else .positive

/-- A sign put on the size of a whole number gives it back. -/
theorem apply_signOf (n : Int) : (signOf n).apply n.natAbs = n := by
  unfold signOf
  split <;> simp only [Sign.apply] <;> omega

/-- The opposite sign gives the opposite number. -/
@[simp] theorem apply_neg (s : Sign) (n : Int) : (-s).apply n = -s.apply n := by
  cases s
  · exact (neg_neg n).symm
  · rfl

/-- The sign of a product is the product of the signs. -/
@[simp] theorem apply_mul (s t : Sign) (a b : Int) :
    (s * t).apply (a * b) = s.apply a * t.apply b := by
  cases s <;> cases t
  -- in the order of the signs: both negative, the first, the second, neither
  · exact (neg_mul_neg a b).symm
  · exact (neg_mul a b).symm
  · exact (mul_neg a b).symm
  · rfl

@[simp] theorem natAbs_apply (s : Sign) (m : Nat) : (s.apply m).natAbs = m := by
  cases s <;> simp [Sign.apply]

theorem apply_zero (s : Sign) : s.apply 0 = 0 := by
  cases s <;> rfl

/-- A sign goes past a factor that is not negative. -/
theorem apply_mul_natCast (s : Sign) (m k : Nat) :
    s.apply ((m * k : Nat) : Int) = s.apply m * k := by
  cases s <;> simp [Sign.apply]

/-! ## Rounding -/

/-- Zeros that are shifted out leave no trace of rounding behind. -/
theorem shiftRight_mul_two_pow (m k : Nat) :
    (⟨m * 2 ^ k, false, false⟩ : ExtendedMantissa) >>> k = ⟨m, false, false⟩ := by
  induction k generalizing m with
  | zero => simp [HShiftRight.hShiftRight, Nat.repeat]
  | succ k ih =>
    -- the zero in front goes out last, so one factor of two is kept for the outermost shift
    have hDouble : m * 2 ^ (k + 1) = m * 2 * 2 ^ k := by ring
    rw [hDouble]
    change ((⟨m * 2 * 2 ^ k, false, false⟩ : ExtendedMantissa) >>> k).shiftRightOne = _
    rw [ih]
    simp [ExtendedMantissa.shiftRightOne]

/-- Cutting to the precision of a float takes the zeros behind a full mantissa off, and raises the
exponent by as many. -/
theorem shiftToTargetExponent_full (hFull : m.log2 = 52) (he : -1074 ≤ e) :
    shiftToTargetExponent .binary64 (m * 2 ^ k) (e - k) .exact = (⟨m, false, false⟩, e) := by
  -- the exponent that is aimed at is the one at which 53 bits are left, since `m` has that many
  have hm : m ≠ 0 := by
    rintro rfl
    simp at hFull
  have hTarget : Format.binary64.targetExponent (totalExponent (m * 2 ^ k) (e - k)) = e := by
    simp only [Format.targetExponent, totalExponent, log2_mul_two_pow hm, hFull]
    simp [Format.mantissaBits, Format.minExponent]
    omega
  simp only [shiftToTargetExponent, hTarget, shiftToExponent,
    show (e - (e - (k : Int))).toNat = k by omega]
  rw [show e - (k : Int) + k = e by omega]
  exact congrArg (·, e) (shiftRight_mul_two_pow m k)

/-- Rounding takes off the zeros behind a full mantissa, and does nothing else. -/
theorem roundWithAccuracy_full (hFull : m.log2 = 52) (he : -1074 ≤ e) (hm : 0 < m) :
    roundWithAccuracy .binary64 s (m * 2 ^ k) (e - k) .exact = .finite s m e hm := by
  -- a second shift makes room for a carry, but there has been none
  have hAgain : shiftToTargetExponent .binary64 m e .exact = (⟨m, false, false⟩, e) := by
    simpa using shiftToTargetExponent_full (k := 0) hFull he
  simp only [roundWithAccuracy, shiftToTargetExponent_full hFull he,
    ExtendedMantissa.roundedMantissa, ExtendedMantissa.accuracy, Accuracy.roundToNearestEven,
    hAgain, hm.ne', ↓reduceDIte]

/-- A whole number that is scaled up far enough is rounded to its shape, even when no zeros are put
behind it. -/
theorem roundWithAccuracy_whole (hn : n ≠ 0) (hSmall : n < 2 ^ 53) (hScale : spare n ≤ k) :
    roundWithAccuracy .binary64 s (n * 2 ^ k) (-k) .exact = shape s n := by
  -- the mantissa is full, with `d` zeros behind it
  obtain ⟨d, rfl⟩ : ∃ d, k = spare n + d := ⟨k - spare n, by omega⟩
  have hExponent : -((spare n + d : Nat) : Int) = -spare n - d := by omega
  have hLow : -1074 ≤ -(spare n : Int) := by
    unfold spare
    omega
  rw [pow_add, ← mul_assoc, hExponent, shape_of_ne_zero hn]
  exact roundWithAccuracy_full (log2_shape hn hSmall) hLow (by positivity)

/-- **Rounding is exact on whole numbers**, however they are scaled. -/
theorem round_whole (hn : n ≠ 0) (hSmall : n < 2 ^ 53) :
    UnpackedFloat.round .binary64 s (n * 2 ^ k) (-k) = shape s n := by
  have hLog : n.log2 < 53 := (Nat.log2_lt hn).2 hSmall
  have hTarget :
      Format.binary64.targetExponent (totalExponent (n * 2 ^ k) (-k)) = -spare n := by
    simp only [Format.targetExponent, totalExponent, log2_mul_two_pow hn, spare]
    simp [Format.mantissaBits, Format.minExponent]
    omega
  -- as many zeros as the scaling lacks are put behind the number before it is cut
  obtain ⟨d, hd⟩ : ∃ d : Nat, (-(k : Int) - -spare n).toNat = d := ⟨_, rfl⟩
  simp only [UnpackedFloat.round, decreaseExponent, hTarget]
  rw [hd, Nat.shiftLeft_eq, mul_assoc, ← pow_add,
    show -(k : Int) - d = -((k + d : Nat) : Int) by omega]
  exact roundWithAccuracy_whole hn hSmall (by omega)

/-- A scaled whole number of either sign is brought into its shape. -/
theorem normalize_whole {n : Int} (hSmall : n.natAbs < 2 ^ 53) :
    UnpackedFloat.normalize .binary64 (n * 2 ^ k) (-k) .positive = shape (signOf n) n.natAbs := by
  -- the sign is looked up by comparing with zero, so there is one case for each outcome
  rcases lt_trichotomy n 0 with hNegative | rfl | hPositive
  · have hLess : compare (n * 2 ^ k) 0 = .lt :=
      Int.compare_eq_lt.2 (mul_neg_of_neg_of_pos hNegative (by positivity))
    have hSize : (-(n * 2 ^ k)).toNat = n.natAbs * 2 ^ k := by
      rw [← neg_mul, show -n = n.natAbs by omega]
      exact Int.toNat_natCast _
    rw [UnpackedFloat.normalize, hLess, signOf, if_pos hNegative]
    simp only [hSize]
    exact round_whole (by omega) hSmall
  · simp [UnpackedFloat.normalize, signOf, shape_zero]
  · have hGreater : compare (n * 2 ^ k) 0 = .gt := Int.compare_eq_gt.2 (by positivity)
    have hSize : (n * 2 ^ k).toNat = n.natAbs * 2 ^ k := by
      conv_lhs => rw [show n = n.natAbs by omega]
      exact Int.toNat_natCast _
    rw [UnpackedFloat.normalize, hGreater, signOf, if_neg (by omega)]
    simp only [hSize]
    exact round_whole (by omega) hSmall

/-! ## Packing -/

/-- The leading bit of a full mantissa is not stored, and is put back. -/
theorem toNat_one_append (v : BitVec 52) : (1#1 ++ v).toNat = 2 ^ 52 + v.toNat := by
  rw [BitVec.toNat_append, ← Nat.shiftLeft_add_eq_or_of_lt v.isLt]
  rfl

/-- A full mantissa survives packing. -/
theorem unpack_pack_full (hFull : m.log2 = 52) (hm : 0 < m) (hLow : -1074 ≤ e) (hHigh : e < 971) :
    (pack (.finite s m e hm)).unpack = .finite s m e hm := by
  obtain ⟨hAtLeast, hBelow⟩ := (Nat.log2_eq_iff hm.ne').1 hFull
  obtain ⟨biased, rfl⟩ : ∃ biased : Nat, e = (biased : Int) - 1075 :=
    ⟨(e + 1075).toNat, by omega⟩
  have hBiased : ((biased : Int) - 1075 + Format.binary64.exponentBias +
      Format.binary64.mantissaBitsWithoutImplicit).toNat = biased := by
    simp [Format.exponentBias]
    omega
  -- the exponent keeps clear of the lowest and the highest pattern, which mean something else
  have hBits : (BitVec.ofNat 11 biased).toNat = biased := Nat.mod_eq_of_lt (by omega)
  have hNotZero : BitVec.ofNat 11 biased ≠ 0#11 := fun hZero => by
    have hSame := congrArg BitVec.toNat hZero
    rw [hBits, BitVec.toNat_ofNat] at hSame
    omega
  have hNotOnes : BitVec.ofNat 11 biased ≠ -1#11 := fun hOnes => by
    have hSame := congrArg BitVec.toNat hOnes
    rw [hBits] at hSame
    simp at hSame
    omega
  have hMantissa : (1#1 ++ BitVec.ofNat 52 m).toNat = m := by
    rw [toNat_one_append, BitVec.toNat_ofNat]
    omega
  have hPack : (pack (.finite s m (biased - 1075) hm)).toBits.toBitVec =
      packComponents .binary64 s (BitVec.ofNat 11 biased) (BitVec.ofNat 52 m) := by
    simp only [Float.Model.pack, UnpackedFloat.pack, hFull, hBiased]
    rw [if_neg (by norm_num; omega), if_pos (by decide)]
  rw [Float.Model.unpack, hPack, UnpackedFloat.unpack]
  simp only [unpackExponent_packComponents, unpackMantissa_packComponents,
    unpackSign_packComponents, Sign.ofBitVec_toBitVec, if_neg hNotZero, if_neg hNotOnes, hMantissa,
    hBits]
  congr 1

/-- The shape of a whole number survives packing, whichever sign zero has. -/
theorem unpack_pack_shape (hSmall : n < 2 ^ 53) : (pack (shape s n)).unpack = shape s n := by
  by_cases hn : n = 0
  · subst hn
    cases s <;> rfl
  · rw [shape_of_ne_zero hn]
    exact unpack_pack_full (log2_shape hn hSmall) (by positivity)
      (by unfold spare; omega) (by unfold spare; omega)

/-! ## Floats that are whole numbers -/

/-- Whether a float is a whole number below `2 ^ 53` in size. Zero may have either sign. -/
def Holds (x : Float) (n : Int) : Prop :=
  ∃ (s : Sign) (m : Nat), m < 2 ^ 53 ∧ x.toModel.unpack = shape s m ∧ s.apply m = n

/-- What is packed from the shape of a whole number is that number. -/
theorem holds_pack (hSmall : m < 2 ^ 53) : Holds (.ofModel (pack (shape s m))) (s.apply m) :=
  ⟨s, m, hSmall, unpack_pack_shape hSmall, rfl⟩

/-- Both zeros hold zero. -/
theorem holds_zero (s : Sign) : Holds (.ofModel (pack (.zero s))) 0 := by
  have hPack := holds_pack (s := s) (m := 0) (by decide)
  rw [shape_zero] at hPack
  cases s <;> exact hPack

/-! ## Arithmetic -/

/-- **Negation is exact.** -/
theorem Holds.neg (hx : Holds x a) : Holds (-x) (-a) := by
  obtain ⟨s, m, hSmall, hUnpack, rfl⟩ := hx
  have hNeg : (shape s m).neg = shape (-s) m := by
    unfold shape
    split <;> rfl
  change Holds (.ofModel (pack x.toModel.unpack.neg)) (-s.apply m)
  rw [hUnpack, hNeg, ← apply_neg]
  exact holds_pack hSmall

/-- Shapes are multiplied by multiplying the numbers they are the shapes of. -/
theorem mul_shape (hSmall : m * l < 2 ^ 53) :
    UnpackedFloat.mul .binary64 (shape s m) (shape t l) = shape (s * t) (m * l) := by
  by_cases hm : m = 0
  · by_cases hl : l = 0 <;> simp [shape, hm, hl, UnpackedFloat.mul]
  by_cases hl : l = 0
  · simp [shape, hm, hl, UnpackedFloat.mul]
  -- the product has at least as many bits as both have together, so it is scaled up far enough
  have hLog : m.log2 + l.log2 ≤ (m * l).log2 := by
    rw [Nat.le_log2 (by positivity), pow_add]
    exact Nat.mul_le_mul (Nat.log2_self_le hm) (Nat.log2_self_le hl)
  have hMantissa : m * 2 ^ spare m * (l * 2 ^ spare l) = m * l * 2 ^ (spare m + spare l) := by
    rw [pow_add]
    ring
  have hExponent : -(spare m : Int) + -(spare l : Int) = -((spare m + spare l : Nat) : Int) := by
    omega
  rw [shape_of_ne_zero hm, shape_of_ne_zero hl, UnpackedFloat.mul, hMantissa, hExponent]
  exact roundWithAccuracy_whole (by positivity) hSmall (by unfold spare; omega)

/-- **Multiplication is exact** as long as the product fits the mantissa. -/
theorem Holds.mul (hx : Holds x a) (hy : Holds y b) (hSmall : (a * b).natAbs < 2 ^ 53) :
    Holds (x * y) (a * b) := by
  obtain ⟨s, m, -, hs, rfl⟩ := hx
  obtain ⟨t, l, -, ht, rfl⟩ := hy
  have hProduct : m * l < 2 ^ 53 := by simpa [Int.natAbs_mul] using hSmall
  change Holds (.ofModel (pack (UnpackedFloat.mul .binary64 x.toModel.unpack y.toModel.unpack))) _
  rw [hs, ht, mul_shape hProduct, ← apply_mul, ← Nat.cast_mul]
  exact holds_pack hProduct

/-- A finer scale puts zeros behind the mantissa. -/
theorem decreaseExponent_whole {k' : Nat} (hLe : k ≤ k') :
    decreaseExponent (m * 2 ^ k) (-k) (-k') = (m * 2 ^ k', -(k' : Int)) := by
  have hShift : (-(k : Int) - -(k' : Int)).toNat = k' - k := by omega
  simp only [decreaseExponent, hShift, Nat.shiftLeft_eq, mul_assoc, ← pow_add]
  rw [show k + (k' - k) = k' by omega, show -(k : Int) - ((k' - k : Nat) : Int) = -k' by omega]

/-- Two whole numbers are brought to the scale of the finer one before they are added. -/
theorem add_shape (hm : m ≠ 0) (hl : l ≠ 0) (hSmall : (s.apply m + t.apply l).natAbs < 2 ^ 53) :
    UnpackedFloat.add .binary64 (shape s m) (shape t l) =
      shape (signOf (s.apply m + t.apply l)) (s.apply m + t.apply l).natAbs := by
  have hFiner : min (-(spare m : Int)) (-(spare l : Int)) =
      -((max (spare m) (spare l) : Nat) : Int) := by omega
  rw [shape_of_ne_zero hm, shape_of_ne_zero hl, UnpackedFloat.add]
  simp only [hFiner, decreaseExponent_whole (le_max_left (spare m) (spare l)),
    decreaseExponent_whole (le_max_right (spare m) (spare l)), apply_mul_natCast, ← add_mul]
  exact_mod_cast normalize_whole hSmall

/-- **Addition is exact** as long as the sum fits the mantissa. -/
theorem Holds.add (hx : Holds x a) (hy : Holds y b) (hSmall : (a + b).natAbs < 2 ^ 53) :
    Holds (x + y) (a + b) := by
  obtain ⟨s, m, hm, hs, rfl⟩ := hx
  obtain ⟨t, l, hl, ht, rfl⟩ := hy
  -- a zero leaves the other operand as it is, with whatever sign
  suffices hSum : ∃ (u : Sign) (n : Nat),
      UnpackedFloat.add .binary64 (shape s m) (shape t l) = shape u n ∧ n < 2 ^ 53 ∧
        u.apply n = s.apply m + t.apply l by
    obtain ⟨u, n, hAdd, hn, hValue⟩ := hSum
    change Holds (.ofModel (pack (UnpackedFloat.add .binary64 x.toModel.unpack y.toModel.unpack))) _
    rw [hs, ht, hAdd, ← hValue]
    exact holds_pack hn
  rcases eq_or_ne m 0 with rfl | hm0 <;> rcases eq_or_ne l 0 with rfl | hl0
  · cases s <;> cases t <;> exact ⟨_, 0, rfl, by decide, by decide⟩
  · exact ⟨t, l, by simp [shape, hl0, UnpackedFloat.add], hl, by simp [apply_zero]⟩
  · exact ⟨s, m, by simp [shape, hm0, UnpackedFloat.add], hm, by simp [apply_zero]⟩
  · exact ⟨_, _, add_shape hm0 hl0 hSmall, hSmall, apply_signOf _⟩

/-! ## Whole numbers made into floats -/

/-- A natural number below `2 ^ 53` is made into a float without loss. -/
theorem holds_ofNat (hSmall : n < 2 ^ 53) : Holds (.ofNat n) n := by
  -- a literal is a mantissa times a power of ten, which is one here
  have hOne : Holds (.ofBits 0x3FF0000000000000) 1 := ⟨.positive, 1, by decide, rfl, rfl⟩
  have hProduct : Float.ofNat n = n.toUInt64.toFloat * .ofBits 0x3FF0000000000000 := by
    change Float.ofScientific n false 0 = _
    rw [Float.ofScientific, dif_pos ⟨hSmall, by decide⟩]
    rfl
  have hShape : UnpackedFloat.ofUInt64 .binary64 n.toUInt64 = shape .positive n := by
    have hBits : n.toUInt64.toNat = n := Nat.mod_eq_of_lt (by omega)
    have hRound := normalize_whole (n := n) (k := 0) hSmall
    rw [signOf, if_neg (by omega)] at hRound
    rw [UnpackedFloat.ofUInt64, UnpackedFloat.ofNat, UnpackedFloat.ofInt, hBits]
    simpa using hRound
  have hCast : Holds n.toUInt64.toFloat n := by
    change Holds (.ofModel (pack (UnpackedFloat.ofUInt64 .binary64 n.toUInt64))) n
    rw [hShape]
    exact holds_pack hSmall
  rw [hProduct]
  simpa using hCast.mul hOne (by simpa using hSmall)

/-- **Every whole number below `2 ^ 53` in size is a float.** -/
theorem holds_ofInt (hSmall : a.natAbs < 2 ^ 53) : Holds (.ofInt a) a := by
  cases a with
  | ofNat n => exact holds_ofNat hSmall
  | negSucc n => exact (holds_ofNat hSmall).neg

/-! ## Comparison -/

/-- A float is one whole number at most. -/
theorem Holds.unique (hx : Holds x a) (hx' : Holds x b) : a = b := by
  obtain ⟨s, m, -, hs, rfl⟩ := hx
  obtain ⟨t, l, -, ht, rfl⟩ := hx'
  rw [hs] at ht
  rcases eq_or_ne m 0 with rfl | hm <;> rcases eq_or_ne l 0 with rfl | hl
  · cases s <;> cases t <;> rfl
  · rw [shape_zero, shape_of_ne_zero hl] at ht
    cases ht
  · rw [shape_zero, shape_of_ne_zero hm] at ht
    cases ht
  · rw [shape_of_ne_zero hm, shape_of_ne_zero hl] at ht
    injection ht with hSign hMantissa hExponent
    have hSpare : spare m = spare l := by omega
    rw [hSpare] at hMantissa
    rw [hSign, Nat.eq_of_mul_eq_mul_right (by positivity) hMantissa]

/-- What compares equal to a whole number is that number. -/
theorem Holds.of_beq (hSame : x == y) (hy : Holds y a) : Holds x a := by
  -- unequal floats that compare equal are the two zeros
  have hPositive : Holds 0 0 := holds_zero .positive
  have hNegative : Holds (-0) 0 := holds_zero .negative
  rcases Float.beq_iff_ne_nan_and_eq.1 hSame with ⟨-, -, rfl | ⟨rfl, rfl⟩ | ⟨rfl, rfl⟩⟩
  · exact hy
  · rwa [hy.unique hNegative]
  · rwa [hy.unique hPositive]

/-- Two floats that are the same whole number compare equal, even when they are zeros of opposite
signs. -/
theorem Holds.beq (hx : Holds x a) (hy : Holds y a) : x == y := by
  obtain ⟨s, m, -, hs, rfl⟩ := hx
  obtain ⟨t, l, -, ht, hSame⟩ := hy
  obtain rfl : l = m := by simpa using congrArg Int.natAbs hSame
  change x.toModel.unpack.beq y.toModel.unpack
  rw [hs, ht, beq_iff_ne_notANumber_and_eq]
  refine ⟨shape_ne_notANumber, shape_ne_notANumber, ?_⟩
  rcases eq_or_ne l 0 with rfl | hl
  · simp only [shape_zero]
    cases s <;> cases t <;> simp
  · have hSign : t = s := by
      cases s <;> cases t <;> simp [Sign.apply] at hSame ⊢ <;> omega
    exact .inl (by rw [hSign])

/-- A float is a whole number when it compares equal to it. -/
theorem holds_iff_beq (hSmall : a.natAbs < 2 ^ 53) : Holds x a ↔ x == .ofInt a :=
  ⟨fun hx => hx.beq (holds_ofInt hSmall), fun hSame => .of_beq hSame (holds_ofInt hSmall)⟩

/-! ## Exact values -/

/-- The exponent that is unpacked is bits 52 to 62. -/
theorem toNat_unpackExponent (bits : BitVec 64) :
    (@unpackExponent .binary64 bits).toNat = bits.toNat / 2 ^ 52 % 2 ^ 11 := by
  rw [unpackExponent_def, BitVec.extractLsb'_toNat, Nat.shiftRight_eq_div_pow]

/-- The mantissa that is unpacked is the lowest 52 bits. -/
theorem toNat_unpackMantissa (bits : BitVec 64) :
    (@unpackMantissa .binary64 bits).toNat = bits.toNat % 2 ^ 52 := by
  rw [unpackMantissa_def, BitVec.extractLsb'_toNat, Nat.shiftRight_eq_div_pow, pow_zero,
    Nat.div_one]

/-- The sign that is unpacked is the highest bit. -/
theorem ofBitVec_unpackSign (bits : BitVec 64) :
    Sign.ofBitVec (@unpackSign .binary64 bits) = .negative ↔
      bits.toNat / 2 ^ 63 = 1 := by
  have hBound := bits.isLt
  have hBit : @unpackSign .binary64 bits = 0#1 ↔ bits.toNat / 2 ^ 63 = 0 := by
    rw [← BitVec.toNat_inj, unpackSign_def, BitVec.extractLsb'_toNat, Nat.shiftRight_eq_div_pow]
    norm_num
    omega
  simp only [Sign.ofBitVec, hBit]
  split <;> simp <;> omega

/-- The exact value of a float has the mantissa and the exponent that arithmetic works on. -/
theorem ofFloat_of_unpack {hm : 0 < m} (h : x.toModel.unpack = .finite s m e hm) :
    Dyadic.ofFloat x = ⟨s == .negative, m, e⟩ := by
  change UnpackedFloat.unpack .binary64 x.toModel.toBits.toBitVec = _ at h
  have hBits : x.toBits.toNat = x.toModel.toBits.toBitVec.toNat := rfl
  generalize x.toModel.toBits.toBitVec = bits at h hBits
  have hNegative : (x.toBits.toNat / 2 ^ 63 == 1) =
      (Sign.ofBitVec (@unpackSign .binary64 bits) == .negative) := by
    rw [Bool.eq_iff_iff, beq_iff_eq, beq_iff_eq, ofBitVec_unpackSign, hBits]
  -- the value is read with divisions and remainders, which are the three fields of the bits
  have hFraction := toNat_unpackMantissa bits
  have hExponent := toNat_unpackExponent bits
  rw [← hBits] at hFraction hExponent
  have hFull := toNat_one_append (@unpackMantissa .binary64 bits)
  rw [hFraction] at hFull
  unfold UnpackedFloat.unpack at h
  dsimp only at h
  unfold Dyadic.ofFloat
  simp only [Nat.pow_eq]
  split at h
  -- the highest exponent stands for the infinities and for what is not a number
  · split at h <;> cases h
  split at h
  · -- the lowest exponent, where no leading bit is implied
    rename_i hZero
    have hLowest : x.toBits.toNat / 2 ^ 52 % 2 ^ 11 = 0 := by
      rw [← hExponent, hZero]
      rfl
    split at h
    · cases h
    · injection h with hs hm he
      rw [if_pos hLowest, hNegative, ← hs, ← hm, ← he, hFraction]
      simp [hZero, Format.exponentBias]
  -- everywhere else a leading bit is put in front of the fraction
  · rename_i hNotZero
    have hHigher : x.toBits.toNat / 2 ^ 52 % 2 ^ 11 ≠ 0 := by
      rw [← hExponent]
      exact fun hZero => hNotZero (BitVec.eq_of_toNat_eq hZero)
    injection h with hs hm he
    rw [if_neg hHigher, hNegative, ← hs, ← hm, ← he, hFull, hExponent]
    simp [Format.exponentBias]
    omega

theorem magnitude_zero {d : Dyadic} (hZero : d.mantissa = 0) : d.magnitude = (0, false) := by
  unfold Dyadic.magnitude
  split <;> simp [hZero]

/-- The zeros that a negative exponent takes off leave nothing to be rounded. -/
theorem magnitude_mul_two_pow {negative : Bool} :
    Dyadic.magnitude ⟨negative, m * 2 ^ k, -k⟩ = (m, false) := by
  cases k with
  | zero => simp [Dyadic.magnitude]
  | succ k =>
    rw [show -((k + 1 : Nat) : Int) = .negSucc k from rfl]
    simp [Dyadic.magnitude, Nat.pow_eq]

/-- The exact value of a whole number is that number, with no fraction. Only the sign of zero is
open. -/
theorem Holds.magnitude (hx : Holds x a) :
    (Dyadic.ofFloat x).magnitude = (a.natAbs, false) ∧
      (a ≠ 0 → (Dyadic.ofFloat x).negative = decide (a < 0)) := by
  obtain ⟨s, m, hSmall, hUnpack, rfl⟩ := hx
  rcases eq_or_ne m 0 with rfl | hm
  · -- zero is unpacked without an exponent, so its bits are looked at
    have hRepacked : x = .ofModel (pack x.toModel.unpack) := (Float.ofBits_toBits x).symm
    have hZero : (Dyadic.ofFloat x).mantissa = 0 := by
      rw [hRepacked, hUnpack]
      cases s <;> rfl
    rw [natAbs_apply]
    exact ⟨magnitude_zero hZero, fun hNotZero => absurd (apply_zero s) hNotZero⟩
  · rw [shape_of_ne_zero hm] at hUnpack
    rw [ofFloat_of_unpack hUnpack, magnitude_mul_two_pow, natAbs_apply]
    refine ⟨rfl, fun _ => ?_⟩
    cases s
    · exact (decide_eq_true (by simp only [Sign.apply]; omega)).symm
    · exact (decide_eq_false (by simp only [Sign.apply]; omega)).symm

/-- There is nothing to be rounded in a whole number. -/
theorem Holds.round (hx : Holds x a) (r : Rounding) : (Dyadic.ofFloat x).round r = a := by
  obtain ⟨hSize, hNegative⟩ := hx.magnitude
  simp only [Dyadic.round, hSize, Bool.false_and]
  rcases eq_or_ne a 0 with rfl | ha
  · simp
  · simp only [hNegative ha, decide_eq_true_eq, Bool.false_eq_true, ↓reduceIte]
    split <;> omega

/-- **A whole number is what it is rounded to**, in every direction, up to the bounds of the 32-bit
integers. -/
theorem Holds.roundToInt32 (hx : Holds x a) (r : Rounding) : roundToInt32 r x = clampInt32 a := by
  -- the two values that are no numbers at all are asked for first
  have hFinite : x.isNaN = false ∧ x.isInf = false := by
    obtain ⟨s, m, -, hUnpack, -⟩ := hx
    change x.toModel.unpack.isNaN = false ∧ x.toModel.unpack.isInf = false
    rw [hUnpack, shape]
    split <;> exact ⟨rfl, rfl⟩
  simp only [Reckon.roundToInt32, hFinite.1, hFinite.2, hx.round, Bool.false_eq_true, ↓reduceIte]

/-! ## 32-bit integers -/

variable {value : Int32}

/-- A 32-bit integer leaves much of a mantissa free. -/
theorem natAbs_toInt_lt (value : Int32) : value.toInt.natAbs < 2 ^ 53 := by
  have hLow := Int32.le_toInt value
  have hHigh := Int32.toInt_lt value
  omega

/-- What compares equal to a 32-bit integer is that integer. -/
theorem holds_of_beq_toInt (h : x == .ofInt value.toInt) : Holds x value.toInt :=
  (holds_iff_beq (natAbs_toInt_lt value)).2 h

/-- A 32-bit integer is within its own bounds. -/
theorem clampInt32_toInt (value : Int32) : clampInt32 value.toInt = value := by
  have hLow := Int32.le_toInt value
  have hHigh := Int32.toInt_lt value
  have hMin : Int32.minValue.toInt = -2 ^ 31 := rfl
  have hMax : Int32.maxValue.toInt = 2 ^ 31 - 1 := rfl
  rw [clampInt32, if_neg (by omega), if_neg (by omega), Int32.ofInt_toInt]

/-- **A float that is a 32-bit integer is rounded to that integer.** -/
theorem roundToInt32_of_beq (h : x == .ofInt value.toInt) (r : Rounding) :
    roundToInt32 r x = value := by
  rw [(holds_of_beq_toInt h).roundToInt32, clampInt32_toInt]

end Binary64

end Reckon
