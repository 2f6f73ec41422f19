import SmallC.Proofs.Numbers.Board

/-! Numbers of double precision: how they compare, which of them an integer is, and what they are worth. -/

namespace SmallC

open Float.Model

namespace Binary64

/-- How two numbers of double precision stand to each other. -/
def order (left right : BitVec 64) : Standing :=
  match (UnpackedFloat.unpack .binary64 left).compare (UnpackedFloat.unpack .binary64 right) with
  | some .lt => .less
  | some .eq => .equal
  | some .gt => .greater
  | none => .unordered

/-- The number of double precision that is nearest to an integer. -/
def whole (value : Int) : BitVec 64 :=
  UnpackedFloat.pack .binary64 (UnpackedFloat.ofInt .binary64 value)

/-- The number that is kept for a spelling in decimal digits. -/
def spelled? (spelling : String) : Option (BitVec 64) :=
  spelling.toNat?.map fun (value : Nat) => whole value

/-- What an unpacked number is worth, unless it is infinite or no number. -/
def worth? : UnpackedFloat → Option ℚ
  | .finite sign mantissa exponent _ => some (sign.apply mantissa * 2 ^ exponent)
  | .zero _ => some 0
  | .infinity _ | .notANumber => none

/-- What a number is worth, unless it is infinite or no number. -/
def value? (number : BitVec 64) : Option ℚ := worth? (UnpackedFloat.unpack .binary64 number)

variable {mantissa : Nat} {sign : UnpackedFloat.Sign} {exponent : Int}

/-- Shifting by as many bits raises the highest one. -/
theorem log2_shiftLeft (positive : 0 < mantissa) (bits : Nat) :
    (mantissa <<< bits).log2 = mantissa.log2 + bits := by
  -- The powers of two on both sides of the mantissa are shifted with it.
  have shifted : 0 < mantissa <<< bits := Nat.shiftLeft_pos_iff.mpr positive
  rw [Nat.log2_eq_iff shifted.ne', Nat.shiftLeft_eq, Nat.add_right_comm, Nat.pow_add, Nat.pow_add]
  have below := Nat.log2_self_le positive.ne'
  have above : mantissa < 2 ^ (mantissa.log2 + 1) := Nat.lt_log2_self
  exact ⟨Nat.mul_le_mul_right _ below, Nat.mul_lt_mul_of_pos_right above (Nat.two_pow_pos bits)⟩

/-- A small mantissa has all of its bits when it is shifted as far as it goes. -/
theorem log2_raised (positive : 0 < mantissa) (small : mantissa < 2 ^ 53) :
    (mantissa <<< (52 - mantissa.log2)).log2 = 52 := by
  have few : mantissa.log2 < 53 := (Nat.log2_lt positive.ne').mpr small
  rw [log2_shiftLeft positive]
  omega

/-- A mantissa that has all of its bits stays where it is. -/
theorem targetExponent_full (full : mantissa.log2 = 52) (low : -1074 ≤ exponent) :
    Format.targetExponent .binary64 (totalExponent mantissa exponent) = exponent := by
  -- There are as many bits as the format keeps, so the exponent is where the format wants it.
  simp only [totalExponent, Format.targetExponent, Format.mantissaBits, Format.minExponent, full]
  omega

/-- A mantissa that has all of its bits is rounded to itself. -/
theorem roundWithAccuracy_full (full : mantissa.log2 = 52) (low : -1074 ≤ exponent)
    (positive : 0 < mantissa) :
    UnpackedFloat.roundWithAccuracy .binary64 sign mantissa exponent .exact =
      .finite sign mantissa exponent positive := by
  -- Neither shift has anything to do.
  have still : UnpackedFloat.shiftToTargetExponent .binary64 mantissa exponent .exact =
      (⟨mantissa, false, false⟩, exponent) := by
    simp only [UnpackedFloat.shiftToTargetExponent, UnpackedFloat.shiftToExponent,
      targetExponent_full full low, Int.sub_self]
    exact Prod.ext rfl (Int.add_zero exponent)
  have rounded : UnpackedFloat.ExtendedMantissa.roundedMantissa ⟨mantissa, false, false⟩ = mantissa :=
    rfl
  simp only [UnpackedFloat.roundWithAccuracy, still, rounded, dif_neg positive.ne']

/-- A small integer is rounded to itself, with a mantissa that has all of its bits. -/
theorem round_small (positive : 0 < mantissa) (small : mantissa < 2 ^ 53) :
    UnpackedFloat.round .binary64 sign mantissa 0 =
      .finite sign (mantissa <<< (52 - mantissa.log2)) (mantissa.log2 - 52)
        (Nat.shiftLeft_pos_iff.mpr positive) := by
  -- The mantissa is raised as far as it goes, and there is nothing left to round.
  have few : mantissa.log2 < 53 := (Nat.log2_lt positive.ne').mpr small
  have target : Format.targetExponent .binary64 (totalExponent mantissa 0) = mantissa.log2 - 52 := by
    simp only [totalExponent, Format.targetExponent, Format.mantissaBits, Format.minExponent]
    omega
  have raised : UnpackedFloat.decreaseExponent mantissa 0 (mantissa.log2 - 52) =
      (mantissa <<< (52 - mantissa.log2), (mantissa.log2 : Int) - 52) := by
    have amount : (0 - ((mantissa.log2 : Int) - 52)).toNat = 52 - mantissa.log2 := by omega
    have least : (0 : Int) - ((52 - mantissa.log2 : Nat) : Int) = mantissa.log2 - 52 := by omega
    rw [UnpackedFloat.decreaseExponent, amount, least]
  simp only [UnpackedFloat.round, target, raised]
  exact roundWithAccuracy_full (log2_raised positive small) (by omega) _

/-- The sign is unpacked as it was packed. -/
theorem unpackSign_packComponents {format : Format} (biased : BitVec format.exponentBits)
    (bits : BitVec format.mantissaBitsWithoutImplicit) :
    UnpackedFloat.unpackSign (UnpackedFloat.packComponents format sign biased bits) =
      sign.toBitVec := by
  -- The sign is the topmost bit, above the exponent and the mantissa.
  ext index inside
  obtain rfl : index = 0 := by omega
  have above : ¬ format.mantissaBitsWithoutImplicit + format.exponentBits <
      format.mantissaBitsWithoutImplicit := by omega
  simp [UnpackedFloat.unpackSign, UnpackedFloat.packComponents, BitVec.getLsbD_append,
    BitVec.getElem_append, above]

/-- A number with all bits of its mantissa is packed without the highest one. -/
theorem pack_full {biased : Nat} (full : mantissa.log2 = 52) (same : (biased : Int) = exponent + 1075)
    (high : exponent ≤ 0) (positive : 0 < mantissa) :
    UnpackedFloat.pack .binary64 (.finite sign mantissa exponent positive) =
      UnpackedFloat.packComponents .binary64 sign (BitVec.ofNat 11 biased)
        (BitVec.ofNat 52 mantissa) := by
  -- The exponent is counted from the highest bit of the mantissa on, and it is not that of infinity.
  have bias : Format.exponentBias .binary64 = 1023 := rfl
  have raised : (exponent + (1023 : Nat) + (52 : Nat)).toNat = biased := by omega
  have finite : ¬ 2 ^ 11 ≤ biased + 1 := by omega
  simp only [UnpackedFloat.pack, bias, raised, finite, if_false, full, Format.mantissaBits, if_true]

/-- The highest bit of a mantissa that has all of its bits is put back. -/
theorem toNat_full (full : mantissa.log2 = 52) (positive : 0 < mantissa) :
    (1#1 ++ BitVec.ofNat 52 mantissa).toNat = mantissa := by
  -- What is below the highest bit is what remains modulo its power.
  have least := (Nat.log2_eq_iff positive.ne').mp full
  have low : mantissa % 2 ^ 52 < 2 ^ 52 := Nat.mod_lt _ (by decide)
  rw [BitVec.toNat_append, BitVec.toNat_ofNat mantissa, ← Nat.shiftLeft_add_eq_or_of_lt low,
    Nat.shiftLeft_eq]
  show 1 * 2 ^ 52 + mantissa % 2 ^ 52 = mantissa
  omega

/-- A number with all bits of its mantissa is unpacked as it was packed. -/
theorem unpack_pack (full : mantissa.log2 = 52) (low : -1074 ≤ exponent) (high : exponent ≤ 0)
    (positive : 0 < mantissa) :
    UnpackedFloat.unpack .binary64 (UnpackedFloat.pack .binary64
      (.finite sign mantissa exponent positive)) = .finite sign mantissa exponent positive := by
  have bias : Format.exponentBias .binary64 = 1023 := rfl
  obtain ⟨biased, same⟩ : ∃ biased : Nat, (biased : Int) = exponent + 1075 :=
    ⟨(exponent + 1075).toNat, by omega⟩
  have kept : (BitVec.ofNat 11 biased).toNat = biased := by
    rw [BitVec.toNat_ofNat]
    omega
  -- All bits and no bits of the exponent would stand for something else.
  have differs (number : Nat) (apart : biased ≠ number % 2 ^ 11) :
      BitVec.ofNat 11 biased ≠ BitVec.ofNat 11 number := by
    intro equal
    rw [← kept, equal, BitVec.toNat_ofNat] at apart
    exact apart rfl
  have ones : BitVec.ofNat 11 biased ≠ -1#11 := differs 2047 (by omega)
  have zeros : BitVec.ofNat 11 biased ≠ 0#11 := differs 0 (by omega)
  rw [pack_full full same high]
  simp only [UnpackedFloat.unpack, UnpackedFloat.unpackExponent_packComponents,
    UnpackedFloat.unpackMantissa_packComponents, if_neg ones, if_neg zeros, kept,
    toNat_full full positive, unpackSign_packComponents, bias]
  congr 1
  · cases sign <;> rfl
  · omega

/-- A small integer with a sign is worth what it is. -/
theorem value?_round (positive : 0 < mantissa) (small : mantissa < 2 ^ 53) :
    value? (UnpackedFloat.pack .binary64 (UnpackedFloat.round .binary64 sign mantissa 0)) =
      some (sign.apply mantissa : ℚ) := by
  have few : mantissa.log2 < 53 := (Nat.log2_lt positive.ne').mpr small
  -- The exponent takes the shift of the mantissa back.
  have back : (2 : ℚ) ^ (52 - mantissa.log2) * 2 ^ ((mantissa.log2 : Int) - 52) = 1 := by
    have cancels : ((52 - mantissa.log2 : Nat) : Int) + (mantissa.log2 - 52) = 0 := by omega
    rw [← zpow_natCast, ← zpow_add₀ (by decide), cancels, zpow_zero]
  rw [round_small positive small, value?, unpack_pack (log2_raised positive small) (by omega) (by omega),
    worth?, Nat.shiftLeft_eq]
  cases sign with
  | negative =>
    simp only [UnpackedFloat.Sign.apply]
    push_cast
    rw [neg_mul, mul_assoc, back, mul_one]
  | positive =>
    simp only [UnpackedFloat.Sign.apply]
    push_cast
    rw [mul_assoc, back, mul_one]

/-- A small integer is worth what it is. -/
theorem value?_whole {value : Int} (small : value.natAbs < 2 ^ 53) :
    value? (whole value) = some (value : ℚ) := by
  -- The sign and the absolute value are rounded apart, and zero is packed as it is.
  rw [whole, UnpackedFloat.ofInt, UnpackedFloat.normalize]
  rcases lt_trichotomy value 0 with negative | rfl | positive
  · have back : -((-value).toNat : Int) = value := by omega
    rw [compare_lt_iff_lt.mpr negative, value?_round (by omega) (by omega)]
    exact congrArg (fun value : Int => some (value : ℚ)) back
  · rfl
  · have back : (value.toNat : Int) = value := by omega
    rw [compare_gt_iff_gt.mpr positive, value?_round (by omega) (by omega)]
    exact congrArg (fun value : Int => some (value : ℚ)) back

/-- A number spelled in decimal digits is worth what the digits say. -/
theorem spelled?_toString (value : Nat) : spelled? (toString value) = some (whole value) := by
  have read : (toString value).toNat? = some value := Nat.toNat?_repr value
  rw [spelled?, read, Option.map_some]

end Binary64

/-- Numbers of double precision; nothing else is needed. -/
def doubles : Numerics := ⟨Binary64.order, Binary64.whole, fun _ _ => none⟩

end SmallC
