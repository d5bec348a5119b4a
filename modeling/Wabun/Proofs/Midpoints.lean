import Mathlib
import Wabun.Decimal.Layout

/-!
The shortest digits of a number tell it apart from all others. They stand for a decimal
between the midpoints on both sides of the number, where the next smaller and the next larger
number come closer. A midpoint itself belongs to the one of its neighbours that has an even
mantissa. So no decimal belongs to two numbers.
-/

namespace Wabun.Decimal

/-- What a decimal stands for. -/
def Digits.value (d : Digits) : ℚ := d.digits * 10 ^ d.exponent

theorem Digits.value_strip (bound : ℕ) (d : Digits) : (strip bound d).value = d.value := by
  induction bound generalizing d with
  | zero => rfl
  | succ bound ih =>
      rw [strip]
      split
      · next hdivides =>
          have hdigits : (d.digits : ℚ) = 10 * (d.digits / 10 : ℕ) := by
            have hzero := beq_iff_eq.mp hdivides
            exact_mod_cast (show d.digits = 10 * (d.digits / 10) by omega)
          rw [ih, value, value, hdigits, zpow_add₀ (by norm_num), zpow_one]
          ring
      · rfl

namespace Window

/-- The points that a window holds, as the numbers they stand for. -/
def Covers (w : Window) (q : ℚ) : Prop :=
  ∃ point, w.holds point = true ∧ q = point / 10 ^ w.places

theorem holds_of_lt {w : Window} {point : ℕ} (hlower : w.lower < point) (hupper : point < w.upper) :
    w.holds point = true := by
  rw [holds]
  split
  · simp [hlower.le, hupper.le]
  · simp [hlower, hupper]

theorem holds_of_nearest? {w : Window} {tie : Tie} {step count : ℕ}
    (h : w.nearest? tie step = some count) : w.holds (count * step) = true := by
  unfold nearest? at h
  dsimp only at h
  split at h
  · cases h
  · next hbelow _ =>
      cases h
      exact hbelow
  · next _ habove =>
      cases h
      exact habove
  · next hbelow habove =>
      -- Both neighbours round to the value, so either may be the nearer one.
      split at h
      · cases h
        exact hbelow
      · cases h
        exact habove
      · cases h
        exact habove
      · cases h
        split
        · exact hbelow
        · exact habove

theorem covers_search {w : Window} (hvalue : w.holds w.value = true) (tie : Tie) (power : ℕ) :
    w.Covers (w.search tie power).value := by
  induction power with
  | zero =>
      refine ⟨w.value, hvalue, ?_⟩
      rw [search, Digits.value, zpow_neg, zpow_natCast, div_eq_mul_inv]
  | succ power ih =>
      rw [search]
      split
      · next count hcount =>
          refine ⟨_, holds_of_nearest? hcount, ?_⟩
          rw [Digits.value, zpow_sub₀ (by norm_num), zpow_natCast, zpow_natCast, Nat.pow_eq]
          push_cast
          ring
      · exact ih

theorem covers_shortest {w : Window} (hvalue : w.holds w.value = true) (tie : Tie) :
    w.Covers (w.shortest tie).value := by
  rw [shortest, Digits.value_strip]
  exact covers_search hvalue tie _

/-- The midpoint below the value, and the one above it. -/
def low (w : Window) : ℚ := w.lower / 10 ^ w.places

def high (w : Window) : ℚ := w.upper / 10 ^ w.places

theorem Covers.between {w : Window} {q : ℚ} (h : w.Covers q) :
    w.low ≤ q ∧ q ≤ w.high ∧ (w.closed = false → w.low < q ∧ q < w.high) := by
  obtain ⟨point, hpoint, rfl⟩ := h
  have hscale : (0 : ℚ) < 10 ^ w.places := by positivity
  have hbounds : w.lower ≤ point ∧ point ≤ w.upper ∧
      (w.closed = false → w.lower < point ∧ point < w.upper) := by
    unfold holds at hpoint
    split at hpoint
    · next hclosed =>
        obtain ⟨hlower, hupper⟩ : w.lower ≤ point ∧ point ≤ w.upper := by simpa using hpoint
        exact ⟨hlower, hupper, fun hopen => absurd hclosed (by simp [hopen])⟩
    · obtain ⟨hlower, hupper⟩ : w.lower < point ∧ point < w.upper := by simpa using hpoint
      exact ⟨hlower.le, hupper.le, fun _ => ⟨hlower, hupper⟩⟩
  obtain ⟨hlower, hupper, hopen⟩ := hbounds
  refine ⟨?_, ?_, fun hclosed => ⟨?_, ?_⟩⟩
  · exact (div_le_div_iff_of_pos_right hscale).mpr (by exact_mod_cast hlower)
  · exact (div_le_div_iff_of_pos_right hscale).mpr (by exact_mod_cast hupper)
  · exact (div_lt_div_iff_of_pos_right hscale).mpr (by exact_mod_cast (hopen hclosed).1)
  · exact (div_lt_div_iff_of_pos_right hscale).mpr (by exact_mod_cast (hopen hclosed).2)

section Parts

variable (mantissa : ℕ) (exponent : ℤ) (narrow : Bool)

/-- A quarter of the distance to the next larger number is the unit of a window. -/
theorem unit_ofParts :
    ((Nat.pow 2 (exponent - 2).toNat * Nat.pow 5 (2 - exponent).toNat : ℕ) : ℚ) /
      10 ^ (2 - exponent).toNat = 2 ^ (exponent - 2) := by
  have hten : (10 : ℚ) ^ (2 - exponent).toNat =
      2 ^ (2 - exponent).toNat * 5 ^ (2 - exponent).toNat := by
    rw [← mul_pow]
    norm_num
  have hpower : (2 : ℚ) ^ (exponent - 2) =
      2 ^ (exponent - 2).toNat / 2 ^ (2 - exponent).toNat := by
    rw [← zpow_natCast, ← zpow_natCast, ← zpow_sub₀ (by norm_num)]
    congr 1
    omega
  rw [hten, hpower]
  simp only [Nat.pow_eq]
  push_cast
  field_simp

theorem low_ofParts (hpositive : 0 < mantissa) : (ofParts mantissa exponent narrow).low =
    (4 * mantissa - if narrow then 1 else 2) * 2 ^ (exponent - 2) := by
  rw [← unit_ofParts, low]
  have hle : (if narrow then 1 else 2) ≤ 4 * mantissa := by
    split <;> omega
  simp only [ofParts]
  push_cast [Nat.cast_sub hle]
  split <;> ring

theorem high_ofParts :
    (ofParts mantissa exponent narrow).high = (4 * mantissa + 2) * 2 ^ (exponent - 2) := by
  rw [← unit_ofParts, high]
  simp only [ofParts]
  push_cast
  ring

theorem holds_value_ofParts (hpositive : 0 < mantissa) :
    (ofParts mantissa exponent narrow).holds (ofParts mantissa exponent narrow).value = true := by
  have hunit : 0 < Nat.pow 2 (exponent - 2).toNat * Nat.pow 5 (2 - exponent).toNat := by
    simp only [Nat.pow_eq]
    positivity
  have hlower : (4 * mantissa - if narrow then 1 else 2) < 4 * mantissa := by
    split <;> omega
  have hupper : 4 * mantissa < 4 * mantissa + 2 := by omega
  exact holds_of_lt (Nat.mul_lt_mul_of_pos_right hlower hunit)
    (Nat.mul_lt_mul_of_pos_right hupper hunit)

end Parts

section Codes

/-!
Numbers without their sign are encoded by successive natural numbers, so that the next larger
number has the next code.
-/

def mantissa (code : ℕ) : ℕ :=
  if code / 2 ^ 52 = 0 then code % 2 ^ 52 else 2 ^ 52 + code % 2 ^ 52

def exponent (code : ℕ) : ℤ := (max 1 (code / 2 ^ 52) : ℕ) - 1075

/-- Whether a number is the least one of its exponent, and the one before it has a smaller
exponent. -/
def narrow (code : ℕ) : Bool := decide (code % 2 ^ 52 = 0 ∧ 1 < code / 2 ^ 52)

def ofCode (code : ℕ) : Window := .ofParts (mantissa code) (exponent code) (narrow code)

theorem ofBits_eq_ofCode (bits : UInt64) : ofBits bits = ofCode (bits.toNat % 2 ^ 63) := by
  have hfield : ((bits >>> 52) &&& 0x7ff).toNat = bits.toNat % 2 ^ 63 / 2 ^ 52 := by
    have hmask := Nat.and_two_pow_sub_one_eq_mod (bits.toNat / 2 ^ 52) 11
    rw [UInt64.toNat_and, UInt64.toNat_shiftRight, Nat.shiftRight_eq_div_pow]
    refine hmask.trans ?_
    omega
  have hfraction : (bits &&& 0xfffffffffffff).toNat = bits.toNat % 2 ^ 63 % 2 ^ 52 := by
    have hmask := Nat.and_two_pow_sub_one_eq_mod bits.toNat 52
    rw [UInt64.toNat_and]
    refine hmask.trans ?_
    omega
  unfold ofBits ofCode mantissa exponent narrow
  rw [hfield, hfraction]
  generalize bits.toNat % 2 ^ 63 = code
  by_cases hzero : code / 2 ^ 52 = 0
  · have hnarrow : decide (code % 2 ^ 52 = 0 ∧ 1 < 0) = false := by simp
    simp only [hzero, beq_self_eq_true, if_true, hnarrow]
    rfl
  · have hmax : max 1 (code / 2 ^ 52) = code / 2 ^ 52 := by omega
    simp only [hmax, hzero, if_false, beq_iff_eq]
    congr 1
    rw [Bool.eq_iff_iff]
    simp

variable {code : ℕ}

theorem mantissa_pos (hpositive : 0 < code) : 0 < mantissa code := by
  unfold mantissa
  split <;> omega

theorem closed_ofCode (code : ℕ) : (ofCode code).closed = (code % 2 == 0) := by
  have heven : mantissa code % 2 = code % 2 := by
    unfold mantissa
    split <;> omega
  change (mantissa code % 2 == 0) = _
  rw [heven]

/-- The next number has the next mantissa, unless it is twice as far from its next. -/
theorem next_code (code : ℕ) :
    (narrow (code + 1) = false ∧ mantissa (code + 1) = mantissa code + 1 ∧
      exponent (code + 1) = exponent code) ∨
    (narrow (code + 1) = true ∧ 2 * mantissa (code + 1) = mantissa code + 1 ∧
      exponent (code + 1) = exponent code + 1) := by
  unfold narrow mantissa exponent
  by_cases hnarrow : (code + 1) % 2 ^ 52 = 0 ∧ 1 < (code + 1) / 2 ^ 52
  · right
    refine ⟨decide_eq_true hnarrow, ?_, ?_⟩
    · split_ifs <;> omega
    · omega
  · left
    refine ⟨decide_eq_false hnarrow, ?_, ?_⟩
    · split_ifs <;> omega
    · omega

/-- The midpoint above a number is the one below the next. -/
theorem low_ofCode_succ (code : ℕ) : (ofCode (code + 1)).low = (ofCode code).high := by
  rw [ofCode, ofCode, low_ofParts _ _ _ (mantissa_pos (Nat.succ_pos code)), high_ofParts]
  obtain ⟨hnarrow, hmantissa, hexponent⟩ | ⟨hnarrow, hmantissa, hexponent⟩ := next_code code
  · rw [hnarrow, hmantissa, hexponent, if_neg Bool.false_ne_true]
    push_cast
    ring
  · have hdouble : (2 : ℚ) * mantissa (code + 1) = mantissa code + 1 := by exact_mod_cast hmantissa
    have hunit : (2 : ℚ) ^ (exponent code + 1 - 2) = 2 * 2 ^ (exponent code - 2) := by
      rw [show exponent code + 1 - 2 = exponent code - 2 + 1 by ring, zpow_add₀ (by norm_num),
        zpow_one, mul_comm]
    rw [hnarrow, hexponent, if_pos rfl, hunit]
    linear_combination (4 : ℚ) * 2 ^ (exponent code - 2) * hdouble

theorem low_lt_high (hpositive : 0 < code) : (ofCode code).low < (ofCode code).high := by
  rw [ofCode, low_ofParts _ _ _ (mantissa_pos hpositive), high_ofParts]
  have hunit : (0 : ℚ) < 2 ^ (exponent code - 2) := by positivity
  refine mul_lt_mul_of_pos_right ?_ hunit
  split <;> linarith

/-- Larger codes are beyond larger midpoints. -/
theorem low_lt_low {other : ℕ} (hpositive : 0 < code) (hlt : code < other) :
    (ofCode code).low < (ofCode other).low := by
  induction other, hlt using Nat.le_induction with
  | base =>
      rw [low_ofCode_succ]
      exact low_lt_high hpositive
  | succ other hle ih =>
      rw [low_ofCode_succ]
      exact ih.trans (low_lt_high (by omega))

theorem not_covers_of_lt {other : ℕ} {q : ℚ} (hlt : code < other)
    (h : (ofCode code).Covers q) : ¬ (ofCode other).Covers q := by
  intro hother
  obtain ⟨_, hhigh, hopen⟩ := h.between
  obtain ⟨hlow, _, hopen'⟩ := hother.between
  rw [← low_ofCode_succ] at hhigh
  rcases Nat.lt_or_ge (code + 1) other with hbeyond | hnext
  · exact absurd (low_lt_low (Nat.succ_pos code) hbeyond) (not_lt.mpr (hlow.trans hhigh))
  · obtain rfl : other = code + 1 := by omega
    -- The decimal is the midpoint between two neighbours, and only one of them is even.
    rcases Nat.mod_two_eq_zero_or_one code with heven | hodd
    · have hstrict := (hopen' (by rw [closed_ofCode]; simp; omega)).1
      exact absurd hstrict (not_lt.mpr hhigh)
    · have hstrict := (hopen (by rw [closed_ofCode]; simp [hodd])).2
      rw [← low_ofCode_succ] at hstrict
      exact absurd hstrict (not_lt.mpr hlow)

/-- A decimal belongs to one number at most. -/
theorem covers_unique {other : ℕ} {q : ℚ} (h : (ofCode code).Covers q)
    (h' : (ofCode other).Covers q) : code = other := by
  rcases Nat.lt_trichotomy code other with hlt | heq | hlt
  · exact absurd h' (not_covers_of_lt hlt h)
  · exact heq
  · exact absurd h (not_covers_of_lt hlt h')

end Codes

end Window

end Wabun.Decimal
