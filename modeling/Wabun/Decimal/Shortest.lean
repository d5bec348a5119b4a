/-!
The shortest decimal of a finite binary64 value. The reals that round to the
value form an interval; on the decimal grids from the coarsest to the finest,
the first grid with a point in that interval gives the digits, and of two such
points the nearer one is taken. All comparisons are between natural numbers:
value and interval are counted in units of a power of ten that is fine enough
for both.
-/

namespace Wabun.Decimal

/-- Which of two equally near decimals is chosen. -/
inductive Tie where
  | up
  | even

/-- The decimal `digits * 10 ^ exponent`. -/
structure Digits where
  digits : Nat
  exponent : Int

/-- A positive value and the interval of the reals that round to it, all
counted in units of `10 ^ (-places)`. The ends belong to the interval exactly
if `closed`. -/
structure Window where
  value : Nat
  lower : Nat
  upper : Nat
  closed : Bool
  places : Nat

/-- The window of `mantissa * 2 ^ exponent`. The next smaller value is half as
far away as the next larger one if `narrow`. -/
def Window.ofParts (mantissa : Nat) (exponent : Int) (narrow : Bool) : Window :=
  let places := (2 - exponent).toNat
  let unit := Nat.pow 2 (exponent - 2).toNat * Nat.pow 5 places
  { value := 4 * mantissa * unit
    lower := (4 * mantissa - if narrow then 1 else 2) * unit
    upper := (4 * mantissa + 2) * unit
    closed := mantissa % 2 == 0
    places := places }

/-- The window of a finite value other than zero, from its bits. The sign bit
is ignored. -/
def Window.ofBits (bits : UInt64) : Window :=
  let field := ((bits >>> 52) &&& 0x7ff).toNat
  let fraction := (bits &&& 0xfffffffffffff).toNat
  if field == 0 then
    .ofParts fraction (-1074) false
  else
    .ofParts (Nat.pow 2 52 + fraction) (field - 1075) (fraction == 0 && field > 1)

/-- Whether a point, counted in the window's units, rounds to the window's value. -/
def Window.holds (w : Window) (point : Nat) : Bool :=
  if w.closed then w.lower ≤ point && point ≤ w.upper else w.lower < point && point < w.upper

/-- The multiple of `step` that is nearest to the value, among its two
neighbours on that grid that round to the value; given as the number of steps.
-/
def Window.nearest? (w : Window) (tie : Tie) (step : Nat) : Option Nat :=
  let below := w.value / step
  match w.holds (below * step), w.holds ((below + 1) * step) with
  | false, false => none
  | true, false => some below
  | false, true => some (below + 1)
  | true, true =>
    match compare (2 * w.value) ((2 * below + 1) * step), tie with
    | .lt, _ => some below
    | .gt, _ => some (below + 1)
    | .eq, .up => some (below + 1)
    | .eq, .even => some (if below % 2 == 0 then below else below + 1)

/-- The search over the grids `10 ^ power` in the window's units, from the
coarsest downwards. On the finest grid the value is a point itself. -/
def Window.search (w : Window) (tie : Tie) : Nat → Digits
  | 0 => ⟨w.value, -w.places⟩
  | power + 1 =>
    match w.nearest? tie (Nat.pow 10 (power + 1)) with
    | some count => ⟨count, (power + 1 : Nat) - w.places⟩
    | none => w.search tie power

/-- The decimal digits of a natural number, the most significant first. -/
def digitChars (n : Nat) : List Char :=
  Nat.toDigits 10 n

/-- The decimal with its trailing zeros moved into the exponent. The first
argument bounds how many. -/
def Digits.strip : Nat → Digits → Digits
  | 0, d => d
  | bound + 1, d =>
    if d.digits % 10 == 0 then Digits.strip bound ⟨d.digits / 10, d.exponent + 1⟩ else d

/-- The decimal of fewest digits that rounds to the value of the window, and
of those the nearest. -/
def Window.shortest (w : Window) (tie : Tie) : Digits :=
  let length := (digitChars w.value).length
  Digits.strip length (w.search tie (length - 1))

end Wabun.Decimal
