import Mathlib
import Wabun.Proofs.Midpoints

/-!
The text of a number, read back. A numeral has digits before and behind a point, and an
exponent; what it stands for is found from the text alone. Every layout writes a numeral of
the shortest digits, so two finite numbers with one text are one number, the two zeros told
apart by the sign.
-/

namespace Wabun.Decimal

/-- The digits of a numeral, with a point between them if there are some behind it. -/
def pointed (whole fraction : List Char) : List Char :=
  if fraction.isEmpty then whole else whole ++ '.' :: fraction

/-- The exponent of a numeral, if there is one. -/
def scale (exponent : List Char) : List Char :=
  if exponent.isEmpty then [] else 'e' :: exponent

/-- The value of an exponent, with or without a sign. -/
def exponentOf : List Char → ℤ
  | '-' :: digits => -Nat.ofDigitChars 10 digits 0
  | '+' :: digits => Nat.ofDigitChars 10 digits 0
  | digits => Nat.ofDigitChars 10 digits 0

/-- What a numeral without a sign stands for. -/
def numeralValue (text : List Char) : ℚ :=
  let significand := text.takeWhile (· != 'e')
  let exponent := (text.dropWhile (· != 'e')).drop 1
  let whole := significand.takeWhile (· != '.')
  let fraction := (significand.dropWhile (· != '.')).drop 1
  Nat.ofDigitChars 10 (whole ++ fraction) 0 * 10 ^ (exponentOf exponent - fraction.length)

def AllDigits (text : List Char) : Prop := ∀ c ∈ text, c.isDigit = true

section Reading

variable {whole fraction exponent : List Char}

theorem ne_of_isDigit {c other : Char} (h : c.isDigit = true) (hother : other.isDigit = false) :
    (c != other) = true := by
  rw [bne_iff_ne]
  rintro rfl
  exact absurd h (by simp [hother])

theorem takeWhile_pointed (hwhole : AllDigits whole) :
    (pointed whole fraction).takeWhile (· != '.') = whole ∧
      ((pointed whole fraction).dropWhile (· != '.')).drop 1 = fraction := by
  have hbefore : ∀ c ∈ whole, (c != '.') = true := fun c hc => ne_of_isDigit (hwhole c hc) rfl
  unfold pointed
  split
  · next hempty =>
      have hfraction := List.isEmpty_iff.mp hempty
      have hall := List.takeWhile_eq_self_iff.mpr hbefore
      have hnone := List.dropWhile_eq_nil_iff.mpr hbefore
      rw [hall, hnone, hfraction]
      exact ⟨rfl, rfl⟩
  · rw [List.takeWhile_append_of_pos hbefore, List.dropWhile_append_of_pos hbefore]
    simp

theorem mem_pointed {c : Char} (h : c ∈ pointed whole fraction) :
    c ∈ whole ∨ c = '.' ∨ c ∈ fraction := by
  unfold pointed at h
  split at h
  · exact .inl h
  · simpa using h

/-- A numeral is read back as it was put together. -/
theorem numeralValue_pointed (hwhole : AllDigits whole)
    (hfraction : AllDigits fraction) (exponent : List Char) :
    numeralValue (pointed whole fraction ++ scale exponent) =
      Nat.ofDigitChars 10 (whole ++ fraction) 0 *
        10 ^ (exponentOf exponent - fraction.length) := by
  have hbefore : ∀ c ∈ pointed whole fraction, (c != 'e') = true := by
    intro c hc
    rcases mem_pointed hc with hwhole' | rfl | hfraction'
    · exact ne_of_isDigit (hwhole c hwhole') rfl
    · rfl
    · exact ne_of_isDigit (hfraction c hfraction') rfl
  have hsignificand : (pointed whole fraction ++ scale exponent).takeWhile (· != 'e') =
      pointed whole fraction := by
    rw [List.takeWhile_append_of_pos hbefore]
    unfold scale
    split <;> simp
  have hexponent : ((pointed whole fraction ++ scale exponent).dropWhile (· != 'e')).drop 1 =
      exponent := by
    rw [List.dropWhile_append_of_pos hbefore]
    unfold scale
    split
    · next hempty => simpa using (List.isEmpty_iff.mp hempty).symm
    · simp
  unfold numeralValue
  dsimp only
  rw [hsignificand, hexponent, (takeWhile_pointed hwhole).1, (takeWhile_pointed hwhole).2]

end Reading

namespace AllDigits

variable {text : List Char}

theorem digitChars (n : ℕ) : AllDigits (digitChars n) := fun _ hc =>
  Nat.isDigit_of_mem_toDigits (by norm_num) (le_refl 10) hc

theorem zeros (count : ℕ) : AllDigits (List.replicate count '0') := by
  intro c hc
  rw [List.eq_of_mem_replicate hc]
  rfl

theorem append {other : List Char} (h : AllDigits text) (hother : AllDigits other) :
    AllDigits (text ++ other) :=
  List.forall_mem_append.mpr ⟨h, hother⟩

theorem take (h : AllDigits text) (count : ℕ) : AllDigits (text.take count) :=
  fun c hc => h c (List.mem_of_mem_take hc)

theorem drop (h : AllDigits text) (count : ℕ) : AllDigits (text.drop count) :=
  fun c hc => h c (List.mem_of_mem_drop hc)

end AllDigits

theorem digitChars_ne_nil (n : ℕ) : digitChars n ≠ [] := Nat.toDigits_ne_nil

theorem ofDigitChars_digitChars (n : ℕ) : Nat.ofDigitChars 10 (digitChars n) 0 = n :=
  Nat.ofDigitChars_ten_toDigits

theorem ofDigitChars_append_zeros (digits : List Char) (count : ℕ) :
    Nat.ofDigitChars 10 (digits ++ List.replicate count '0') 0 =
      Nat.ofDigitChars 10 digits 0 * 10 ^ count := by
  rw [Nat.ofDigitChars_append, Nat.ofDigitChars_replicate_zero, Nat.mul_comm]

theorem ofDigitChars_zeros_append (digits : List Char) (count : ℕ) :
    Nat.ofDigitChars 10 (List.replicate count '0' ++ digits) 0 = Nat.ofDigitChars 10 digits 0 := by
  rw [Nat.ofDigitChars_append, Nat.ofDigitChars_replicate_zero, Nat.mul_zero]

/-- A numeral that stands for a decimal: it is read back as the decimal, and begins with a
digit. -/
structure Written (text : List Char) (d : Digits) : Prop where
  value : numeralValue text = d.value
  begins : ∃ c rest, text = c :: rest ∧ c.isDigit = true
  among : ∀ c ∈ text, c.isDigit = true ∨ c ∈ ['.', 'e', '+', '-']

theorem Written.of_parts {whole fraction exponent : List Char} {d : Digits}
    (hwhole : AllDigits whole) (hnonempty : whole ≠ [])
    (hfraction : AllDigits fraction)
    (hexponent : ∀ c ∈ exponent, c.isDigit = true ∨ c ∈ ['+', '-'])
    (hvalue : Nat.ofDigitChars 10 (whole ++ fraction) 0 *
      10 ^ (exponentOf exponent - fraction.length) = d.value) :
    Written (pointed whole fraction ++ scale exponent) d := by
  refine ⟨?_, ?_, fun c hc => ?_⟩
  · rw [numeralValue_pointed hwhole hfraction, hvalue]
  · obtain ⟨first, others, rfl⟩ := List.exists_cons_of_ne_nil hnonempty
    have hbegins : pointed (first :: others) fraction = first :: pointed others fraction := by
      unfold pointed
      split <;> rfl
    exact ⟨first, pointed others fraction ++ scale exponent, by rw [hbegins]; rfl,
      hwhole first List.mem_cons_self⟩
  · rcases List.mem_append.mp hc with hsignificand | hscale
    · rcases mem_pointed hsignificand with hc | rfl | hc
      · exact .inl (hwhole c hc)
      · exact .inr (by simp)
      · exact .inl (hfraction c hc)
    · unfold scale at hscale
      split at hscale
      · exact absurd hscale List.not_mem_nil
      · rcases List.mem_cons.mp hscale with rfl | hc
        · exact .inr (by simp)
        · refine (hexponent c hc).imp_right fun hsign => ?_
          simp only [List.mem_cons, List.not_mem_nil, or_false] at hsign ⊢
          exact .inr (.inr hsign)

theorem Written.of_positional {whole fraction : List Char} {d : Digits}
    (hwhole : AllDigits whole) (hnonempty : whole ≠ [])
    (hfraction : AllDigits fraction)
    (hvalue : Nat.ofDigitChars 10 (whole ++ fraction) 0 * (10 : ℚ) ^ (-fraction.length : ℤ) =
      d.value) :
    Written (pointed whole fraction) d := by
  have hparts : Written (pointed whole fraction ++ scale []) d :=
    .of_parts hwhole hnonempty hfraction (by simp) (by simpa [exponentOf] using hvalue)
  simpa [scale] using hparts

namespace Layout

variable (layout : Layout) (d : Digits)

/-- The three ways to write a decimal without an exponent: all digits before the point, some of
them, or none. -/
theorem positional_eq :
    layout.positional d =
      if 0 ≤ d.exponent then
        pointed (digitChars d.digits ++ List.replicate d.exponent.toNat '0')
          (List.replicate layout.pointZero.toNat '0')
      else if 0 < (digitChars d.digits).length + d.exponent then
        pointed ((digitChars d.digits).take ((digitChars d.digits).length + d.exponent).toNat)
          ((digitChars d.digits).drop ((digitChars d.digits).length + d.exponent).toNat)
      else
        pointed ['0'] (List.replicate (-((digitChars d.digits).length + d.exponent)).toNat '0' ++
          digitChars d.digits) := by
  have hbehind {count : ℕ} (h : count < (digitChars d.digits).length) :
      ((digitChars d.digits).drop count).isEmpty = false := by
    rw [List.isEmpty_eq_false_iff, ne_eq, List.drop_eq_nil_iff]
    omega
  unfold positional
  dsimp only
  split
  · cases layout.pointZero
    · exact List.append_nil _
    · rfl
  · split
    · unfold pointed
      rw [hbehind (by omega)]
      rfl
    · unfold pointed
      rw [List.isEmpty_eq_false_iff.mpr (by simp [digitChars_ne_nil])]
      rfl

theorem written_positional : Written (layout.positional d) d := by
  rw [positional_eq]
  split
  · next hexponent =>
      refine .of_positional (.append (.digitChars _) (.zeros _)) (by simp [digitChars_ne_nil])
        (.zeros _) ?_
      rw [ofDigitChars_append_zeros, ofDigitChars_append_zeros, ofDigitChars_digitChars,
        Digits.value, List.length_replicate]
      push_cast
      rw [← zpow_natCast, Int.toNat_of_nonneg hexponent, mul_assoc, ← zpow_natCast,
        ← zpow_add₀ (by norm_num)]
      simp
  · next hexponent =>
      split
      · next hwhole =>
          refine .of_positional (.take (.digitChars _) _) ?_ (.drop (.digitChars _) _) ?_
          · rw [ne_eq, List.take_eq_nil_iff]
            exact not_or.mpr ⟨by omega, digitChars_ne_nil _⟩
          · rw [List.take_append_drop, ofDigitChars_digitChars, List.length_drop, Digits.value]
            congr 2
            omega
      · next hwhole =>
          refine .of_positional (.zeros 1) (by simp) (.append (.zeros _) (.digitChars _)) ?_
          rw [← List.append_assoc, ← List.replicate_one, List.replicate_append_replicate,
            ofDigitChars_zeros_append, ofDigitChars_digitChars, Digits.value,
            List.length_append, List.length_replicate]
          congr 2
          omega

/-- The sign of an exponent. -/
def exponentSign (exponent : ℤ) : List Char :=
  if exponent < 0 then ['-'] else if layout.exponentPlus then ['+'] else []

theorem exponentOf_sign (exponent : ℤ) :
    exponentOf (layout.exponentSign exponent ++ digitChars exponent.natAbs) = exponent := by
  have hvalue : (Nat.ofDigitChars 10 (digitChars exponent.natAbs) 0 : ℤ) = |exponent| := by
    rw [ofDigitChars_digitChars, Int.natCast_natAbs]
  unfold exponentSign
  split
  · next hnegative =>
      rw [abs_of_neg hnegative] at hvalue
      show -(Nat.ofDigitChars 10 (digitChars exponent.natAbs) 0 : ℤ) = exponent
      omega
  · next hnonnegative =>
      rw [abs_of_nonneg (not_lt.mp hnonnegative)] at hvalue
      split
      · exact hvalue
      · -- without a sign the text begins with a digit
        have hdigit := AllDigits.digitChars exponent.natAbs
        rw [List.nil_append]
        unfold exponentOf
        split
        · next hminus => exact absurd (hdigit '-' (hminus ▸ List.mem_cons_self)) (by decide)
        · next hplus => exact absurd (hdigit '+' (hplus ▸ List.mem_cons_self)) (by decide)
        · exact hvalue

theorem scientific_eq :
    layout.scientific d =
      pointed ((digitChars d.digits).take 1) ((digitChars d.digits).drop 1) ++
        scale (layout.exponentSign (d.exponent + (digitChars d.digits).length - 1) ++
          digitChars (d.exponent + (digitChars d.digits).length - 1).natAbs) := by
  have hsome {sign : List Char} {n : ℕ} : (sign ++ digitChars n).isEmpty = false :=
    List.isEmpty_eq_false_iff.mpr (by simp [digitChars_ne_nil])
  have hlength : 0 < (digitChars d.digits).length := List.length_pos_iff.mpr (digitChars_ne_nil _)
  unfold scientific pointed scale
  rw [hsome]
  dsimp only
  by_cases hsingle : (digitChars d.digits).length = 1
  · have hnone : (digitChars d.digits).drop 1 = [] := List.drop_eq_nil_iff.mpr hsingle.le
    rw [hnone, hsingle]
    simp [exponentSign]
  · have hfurther : ((digitChars d.digits).drop 1).isEmpty = false := by
      rw [List.isEmpty_eq_false_iff, ne_eq, List.drop_eq_nil_iff]
      omega
    rw [hfurther, if_neg (by simpa using hsingle)]
    simp [exponentSign]

theorem written_scientific : Written (layout.scientific d) d := by
  rw [scientific_eq]
  refine .of_parts (.take (.digitChars _) _) (by simp [digitChars_ne_nil])
    (.drop (.digitChars _) _) (fun c hc => ?_) ?_
  · rcases List.mem_append.mp hc with hsign | hdigit
    · unfold exponentSign at hsign
      right
      split_ifs at hsign
      · simpa using Or.inr (List.mem_singleton.mp hsign)
      · simpa using Or.inl (List.mem_singleton.mp hsign)
      · exact absurd hsign List.not_mem_nil
    · exact .inl (AllDigits.digitChars _ c hdigit)
  · rw [exponentOf_sign, List.take_append_drop, ofDigitChars_digitChars, Digits.value,
      List.length_drop]
    have hlength : 0 < (digitChars d.digits).length := List.length_pos_iff.mpr (digitChars_ne_nil _)
    congr 2
    omega

theorem written_magnitude (bits : UInt64) :
    Written (layout.magnitude bits) ((Window.ofBits bits).shortest layout.tie) := by
  unfold magnitude
  dsimp only
  split
  · exact written_positional layout _
  · exact written_scientific layout _

end Layout

section Numbers

/-- A number without its sign. -/
def code (x : Float) : ℕ := x.toBits.toNat % 2 ^ 63

def signText (x : Float) : List Char := if x.toBits >>> 63 == 1 then ['-'] else []

variable {x y : Float}

theorem beq_zero_iff : (x == 0) = true ↔ code x = 0 := by
  constructor
  · intro hzero
    obtain ⟨_, _, rfl | ⟨rfl, _⟩ | ⟨rfl, _⟩⟩ := Float.beq_iff_ne_nan_and_eq.mp hzero <;> decide
  · intro hcode
    unfold code at hcode
    have hlt := x.toBits.toNat_lt
    have hbits : x.toBits = 0 ∨ x.toBits = 0x8000000000000000 := by
      simp only [← UInt64.toNat_inj, UInt64.reduceToNat]
      omega
    rw [← Float.ofBits_toBits x]
    obtain hbits | hbits := hbits <;> rw [hbits] <;> decide

theorem eq_of_code_eq (hcode : code x = code y) (hsign : signText x = signText y) : x = y := by
  have hbit (z : Float) : signText z = if z.toBits.toNat / 2 ^ 63 = 1 then ['-'] else [] := by
    unfold signText
    simp only [beq_iff_eq, ← UInt64.toNat_inj, UInt64.toNat_shiftRight, Nat.shiftRight_eq_div_pow]
    rfl
  have hbits : x.toBits = y.toBits := by
    have hlt := x.toBits.toNat_lt
    have hlt' := y.toBits.toNat_lt
    rw [← UInt64.toNat_inj]
    unfold code at hcode
    rw [hbit, hbit] at hsign
    split_ifs at hsign <;> omega
  rw [← Float.ofBits_toBits x, hbits, Float.ofBits_toBits]

theorem not_isNaN_of_isFinite (h : x.isFinite = true) : x.isNaN = false ∧ x.isInf = false := by
  change x.toModel.unpack.isFinite = true at h
  change x.toModel.unpack.isNaN = false ∧ x.toModel.unpack.isInf = false
  cases hunpack : x.toModel.unpack with
  | zero => exact ⟨rfl, rfl⟩
  | finite => exact ⟨rfl, rfl⟩
  | notANumber => simp [hunpack, Float.Model.UnpackedFloat.isFinite] at h
  | infinity => simp [hunpack, Float.Model.UnpackedFloat.isFinite] at h

theorem Layout.written_zero (layout : Layout) :
    Written (if layout.pointZero then ['0', '.', '0'] else ['0']) ⟨0, 0⟩ := by
  have hzero : Written (pointed ['0'] (List.replicate layout.pointZero.toNat '0')) ⟨0, 0⟩ := by
    refine .of_positional (.zeros 1) (by simp) (.zeros _) ?_
    rw [← List.replicate_one, List.replicate_append_replicate, Nat.ofDigitChars_replicate_zero]
    simp [Digits.value]
  cases hpoint : layout.pointZero with
  | false => simpa [hpoint, pointed] using hzero
  | true => simpa [hpoint, pointed] using hzero

/-- The text of a finite number is a sign, and a decimal that belongs to the number. -/
theorem Layout.written_render (layout : Layout) (h : x.isFinite = true) :
    ∃ text d, (layout.render x).toList = signText x ++ text ∧ Written text d ∧
      (Window.ofCode (code x)).Covers d.value := by
  obtain ⟨hnumber, hbounded⟩ := not_isNaN_of_isFinite h
  have hsign : (if x.toBits >>> 63 == 1 then "-" else "").toList = signText x := by
    unfold signText
    split <;> rfl
  unfold render
  dsimp only
  rw [hnumber, hbounded, if_neg Bool.false_ne_true, if_neg Bool.false_ne_true]
  split
  · next hzero =>
      refine ⟨_, _, ?_, layout.written_zero, ?_⟩
      · rw [String.toList_append, hsign]
        split <;> rfl
      · rw [beq_zero_iff.mp hzero]
        exact ⟨0, by decide +kernel, by simp [Digits.value]⟩
  · next hnonzero =>
      have hpositive : 0 < code x := Nat.pos_of_ne_zero (mt beq_zero_iff.mpr hnonzero)
      refine ⟨_, _, ?_, layout.written_magnitude x.toBits, ?_⟩
      · rw [String.toList_append, hsign, String.toList_ofList]
      · rw [Window.ofBits_eq_ofCode]
        exact Window.covers_shortest
          (Window.holds_value_ofParts _ _ _ (Window.mantissa_pos hpositive)) _

/-- Two finite numbers with one text are one number. -/
theorem Layout.render_injective {layout : Layout} (hx : x.isFinite = true)
    (hy : y.isFinite = true) (h : layout.render x = layout.render y) : x = y := by
  obtain ⟨text, d, htext, hwritten, hcovers⟩ := layout.written_render hx
  obtain ⟨text', d', htext', hwritten', hcovers'⟩ := layout.written_render hy
  obtain ⟨c, rest, rfl, hdigit⟩ := hwritten.begins
  obtain ⟨c', rest', rfl, hdigit'⟩ := hwritten'.begins
  have hminus {c : Char} (hdigit : c.isDigit = true) : c ≠ '-' :=
    bne_iff_ne.mp (ne_of_isDigit hdigit rfl)
  have hsame : signText x ++ c :: rest = signText y ++ c' :: rest' := by
    rw [← htext, ← htext', h]
  obtain ⟨hsign, htexts⟩ : signText x = signText y ∧ c :: rest = c' :: rest' := by
    unfold signText at hsame ⊢
    split_ifs at hsame ⊢
    · exact ⟨rfl, List.append_cancel_left hsame⟩
    · exact absurd (List.cons.inj hsame).1.symm (hminus hdigit')
    · exact absurd (List.cons.inj hsame).1 (hminus hdigit)
    · exact ⟨rfl, hsame⟩
  rw [← hwritten.value, htexts, hwritten'.value] at hcovers
  exact eq_of_code_eq (Window.covers_unique hcovers hcovers') hsign

end Numbers

end Wabun.Decimal
