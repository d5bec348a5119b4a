import Wabun.Decimal.Shortest

/-!
How a number is laid out as text: the decisions of a format are one record,
and every format writes the shortest digits of the number.
-/

namespace Wabun.Decimal

/-- The decisions of a number format. -/
structure Layout where
  /-- whether a number whose leading digit has this exponent is written without an exponent -/
  plain : Int → Bool
  /-- whether a whole number without an exponent ends in `.0` -/
  pointZero : Bool
  /-- whether a positive exponent has a sign -/
  exponentPlus : Bool
  /-- which of two equally near shortest decimals is written -/
  tie : Tie

private def zeros (count : Int) : List Char :=
  List.replicate count.toNat '0'

/-- A positive decimal without an exponent. -/
def Layout.positional (layout : Layout) (d : Digits) : List Char :=
  let digits := digitChars d.digits
  let whole := digits.length + d.exponent
  if 0 ≤ d.exponent then
    digits ++ zeros d.exponent ++ (if layout.pointZero then ['.', '0'] else [])
  else if 0 < whole then
    digits.take whole.toNat ++ '.' :: digits.drop whole.toNat
  else
    '0' :: '.' :: (zeros (-whole) ++ digits)

/-- A positive decimal as one digit, the further digits after a point, and the
exponent. -/
def Layout.scientific (layout : Layout) (d : Digits) : List Char :=
  let digits := digitChars d.digits
  let exponent := d.exponent + digits.length - 1
  let sign := if exponent < 0 then ['-'] else if layout.exponentPlus then ['+'] else []
  let further := if digits.length == 1 then [] else '.' :: digits.drop 1
  digits.take 1 ++ further ++ 'e' :: sign ++ digitChars exponent.natAbs

def Layout.magnitude (layout : Layout) (bits : UInt64) : List Char :=
  let d := (Window.ofBits bits).shortest layout.tie
  if layout.plain (d.exponent + (digitChars d.digits).length - 1) then
    layout.positional d
  else
    layout.scientific d

/-- The text of any number, with the sign of a negative zero. -/
def Layout.render (layout : Layout) (x : Float) : String :=
  let sign := if x.toBits >>> 63 == 1 then "-" else ""
  if x.isNaN then "NaN"
  else if x.isInf then sign ++ "inf"
  else if x == 0 then sign ++ (if layout.pointZero then "0.0" else "0")
  else sign ++ String.ofList (layout.magnitude x.toBits)

/-- Never an exponent, and a whole number without a point. -/
def Layout.plainest : Layout where
  plain _ := true
  pointZero := false
  exponentPlus := false
  tie := .up

/-- The number written as `whole` or `whole.fraction`, each a list of decimal
digits, rounded to the nearest binary64 value. -/
def ofDigits (whole fraction : List Char) : Float :=
  .ofScientific (Nat.ofDigitChars 10 (whole ++ fraction) 0) true fraction.length

/-- The number that a text without sign and exponent stands for. The text needs a
digit, and may have a point anywhere. -/
def ofText? (text : List Char) : Option Float :=
  let whole := text.takeWhile Char.isDigit
  match text.dropWhile Char.isDigit with
  | [] => if whole.isEmpty then none else some (ofDigits whole [])
  | '.' :: fraction =>
    if fraction.all Char.isDigit && !(whole ++ fraction).isEmpty then
      some (ofDigits whole fraction)
    else none
  | _ => none

end Wabun.Decimal
