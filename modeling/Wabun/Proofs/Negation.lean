import Mathlib

/-!
Changing the sign of a number twice gives the number back, bit by bit. The
sign is one bit of the encoding, and a change of sign leaves the exponent and
the mantissa as they are. There is only one encoding of what is not a number.
-/

namespace Wabun.Negation

open Float.Model Float.Model.UnpackedFloat

theorem ofBitVec_toBitVec (sign : Sign) : Sign.ofBitVec sign.toBitVec = sign := by
  cases sign <;> rfl

theorem toBitVec_ofBitVec (bit : BitVec 1) : (Sign.ofBitVec bit).toBitVec = bit := by
  unfold Sign.ofBitVec
  split
  · next hzero =>
      rw [hzero]
      rfl
  · next hone =>
      have hbit : bit = 1#1 := by
        apply BitVec.eq_of_toNat_eq
        have hlt : bit.toNat < 2 := bit.isLt
        have hne : bit.toNat ≠ 0 := fun h => hone (BitVec.eq_of_toNat_eq h)
        change bit.toNat = 1
        omega
      rw [hbit]
      rfl

theorem unpackSign_packComponents {spec : Format} (sign : Sign)
    (exponent : BitVec spec.exponentBits) (mantissa : BitVec spec.mantissaBitsWithoutImplicit) :
    unpackSign (packComponents spec sign exponent mantissa) = sign.toBitVec := by
  ext i hi
  obtain rfl : i = 0 := by omega
  simp [unpackSign, packComponents, BitVec.getLsbD_append, BitVec.getElem_append]

theorem packComponents_unpack (bits : BitVec Format.binary64.numBits) :
    packComponents .binary64 (.ofBitVec (unpackSign bits)) (unpackExponent bits)
      (unpackMantissa bits) = bits := by
  ext i hi
  have hwidth : i < 64 := hi
  simp only [packComponents, toBitVec_ofBitVec, unpackSign, unpackExponent, unpackMantissa,
    BitVec.getElem_append, BitVec.getElem_cast, BitVec.extractLsb, BitVec.getElem_extractLsb']
  by_cases hmantissa : i < 52
  · simp [hmantissa, BitVec.getLsbD_eq_getElem hi]
  by_cases hexponent : i - 52 < 11
  · have hplace : 52 + (i - 52) = i := by omega
    simp [hmantissa, hexponent, hplace, BitVec.getLsbD_eq_getElem hi]
  · obtain rfl : i = 63 := by omega
    simp [BitVec.getLsbD_eq_getElem hi]

theorem toNat_one_append {width : Nat} (mantissa : BitVec width) :
    (1#1 ++ mantissa).toNat = 2 ^ width + mantissa.toNat := by
  rw [BitVec.toNat_append, ← Nat.shiftLeft_add_eq_or_of_lt mantissa.isLt]
  simp [Nat.shiftLeft_eq]

theorem pack_subnormal (sign : Sign) {mantissa : BitVec 52} (hpositive : 0 < mantissa.toNat) :
    UnpackedFloat.pack .binary64 (.finite sign mantissa.toNat
      (((0#11).toNat : Int) - (Format.binary64.exponentBias + 52) + 1) hpositive) =
        packComponents .binary64 sign 0#11 mantissa := by
  have hlog : mantissa.toNat.log2 < 52 :=
    (Nat.log2_lt (Nat.ne_of_gt hpositive)).mpr mantissa.isLt
  have hwidth : ¬ mantissa.toNat.log2 + 1 = Format.binary64.mantissaBits := by
    change ¬ mantissa.toNat.log2 + 1 = 53
    omega
  simp only [UnpackedFloat.pack]
  rw [if_neg (by decide), if_neg hwidth, BitVec.ofNat_toNat, BitVec.setWidth_eq]

theorem pack_normal (sign : Sign) {exponent : BitVec 11} {mantissa : BitVec 52}
    (hfinite : exponent ≠ -1#11) (hpositive : 0 < (1#1 ++ mantissa).toNat) :
    UnpackedFloat.pack .binary64 (.finite sign (1#1 ++ mantissa).toNat
      ((exponent.toNat : Int) - (Format.binary64.exponentBias + 52)) hpositive) =
        packComponents .binary64 sign exponent mantissa := by
  have hlt := mantissa.isLt
  have hlog : (1#1 ++ mantissa).toNat.log2 = 52 := by
    rw [toNat_one_append, Nat.log2_eq_iff (by omega)]
    omega
  have hexponent : ((exponent.toNat : Int) - (Format.binary64.exponentBias + 52) +
      Format.binary64.exponentBias + (52 : Nat)).toNat = exponent.toNat := by
    omega
  have hsmall : ¬ 2 ^ 11 ≤ exponent.toNat + 1 := by
    intro hlarge
    apply hfinite
    apply BitVec.eq_of_toNat_eq
    have hbound := exponent.isLt
    change exponent.toNat = 2047
    omega
  have hmantissa : BitVec.ofNat 52 (1#1 ++ mantissa).toNat = mantissa := by
    apply BitVec.eq_of_toNat_eq
    rw [BitVec.toNat_ofNat, toNat_one_append, Nat.add_mod_left, Nat.mod_eq_of_lt hlt]
  have hwidth : (1#1 ++ mantissa).toNat.log2 + 1 = Format.binary64.mantissaBits := by
    rw [hlog]
    rfl
  simp only [UnpackedFloat.pack]
  rw [if_pos hwidth, hexponent, if_neg hsmall, hmantissa, BitVec.ofNat_toNat, BitVec.setWidth_eq]

theorem pack_neg_unpack (sign : Sign) {exponent : BitVec 11} {mantissa : BitVec 52}
    (h : exponent = -1#11 → mantissa = 0#52) :
    UnpackedFloat.pack .binary64
      (UnpackedFloat.unpack .binary64 (packComponents .binary64 sign exponent mantissa)).neg =
        packComponents .binary64 (-sign) exponent mantissa := by
  simp only [UnpackedFloat.unpack, unpackMantissa_packComponents, unpackExponent_packComponents,
    unpackSign_packComponents, ofBitVec_toBitVec]
  split
  · next hinfinite =>
      rw [if_pos (h hinfinite), hinfinite, h hinfinite]
      rfl
  · next hfinite =>
      split
      · next hexponent =>
          subst hexponent
          split
          · next hzero =>
              rw [hzero]
              rfl
          · next hmantissa => exact pack_subnormal (-sign) _
      · next hexponent => exact pack_normal (-sign) hfinite _

theorem unpack_packedNaN :
    UnpackedFloat.unpack .binary64 (packedNaN .binary64) = .notANumber := by
  simp only [UnpackedFloat.unpack, packedNaN, unpackMantissa_packComponents,
    unpackExponent_packComponents]
  rw [if_pos trivial, if_neg (by decide)]

theorem pack_neg_unpack_twice {bits : BitVec Format.binary64.numBits}
    (hvalid : Format.binary64.Valid bits) :
    UnpackedFloat.pack .binary64 (UnpackedFloat.unpack .binary64
      (UnpackedFloat.pack .binary64 (UnpackedFloat.unpack .binary64 bits).neg)).neg = bits := by
  by_cases hnumber : unpackExponent bits = -1#11 → unpackMantissa bits = 0#52
  · have hsign (sign : Sign) : - -sign = sign := by cases sign <;> rfl
    rw [← packComponents_unpack bits, pack_neg_unpack _ hnumber, pack_neg_unpack _ hnumber, hsign]
  · obtain ⟨hexponent, hmantissa⟩ := Classical.not_imp.mp hnumber
    rw [hvalid.eq_packedNaN hexponent hmantissa, unpack_packedNaN]
    change UnpackedFloat.pack .binary64
      (UnpackedFloat.unpack .binary64 (packedNaN .binary64)).neg = _
    rw [unpack_packedNaN]
    rfl

/-- Changing the sign twice changes nothing. -/
theorem neg_neg (x : Float) : - -x = x := by
  obtain ⟨⟨⟨bits⟩, hvalid⟩⟩ := x
  have hbits := pack_neg_unpack_twice hvalid
  change Float.ofModel ⟨⟨UnpackedFloat.pack .binary64 (UnpackedFloat.unpack .binary64
    (UnpackedFloat.pack .binary64 (UnpackedFloat.unpack .binary64 bits).neg)).neg⟩, _⟩ = _
  simp only [hbits]

end Wabun.Negation
