/-!
# Decimal digits of floating-point numbers

A finite floating-point number is a fraction, and stands for all reals that
round to it.  Its shortest digits are the fewest that name one of these reals,
and of those the nearest to the number; its rounded digits are the nearest of
a given count.  Everything is computed in whole numbers.
-/

namespace Entail.Decimal

/-- The positive number `significand * 2 ^ exponent`. -/
structure Binary where
  significand : Nat
  exponent : Int
  /-- Whether the gap below the number is half the gap above it. -/
  narrowBelow : Bool
  deriving DecidableEq, Repr

/-- The magnitude of a finite floating-point number. -/
def Binary.ofFloat (x : Float) : Binary :=
  let bits := x.toBits.toNat
  let exponent : Nat := bits / Nat.pow 2 52 % Nat.pow 2 11
  let fraction := bits % Nat.pow 2 52
  if exponent = 0 then ⟨fraction, -1074, false⟩
  else ⟨Nat.pow 2 52 + fraction, (exponent : Int) - 1075, fraction == 0 && decide (1 < exponent)⟩

/-- A nonnegative fraction. -/
structure Fraction where
  numerator : Nat
  denominator : Nat
  deriving DecidableEq, Repr

namespace Fraction

/-- The product of a natural number with powers of 2 and 10. -/
def scaled (n : Nat) (twos tens : Int) : Fraction :=
  ⟨n * Nat.pow 2 twos.toNat * Nat.pow 10 tens.toNat,
    Nat.pow 2 (-twos).toNat * Nat.pow 10 (-tens).toNat⟩

def compare (a b : Fraction) : Ordering :=
  Ord.compare (a.numerator * b.denominator) (b.numerator * a.denominator)

/-- The least `k` such that the fraction is less than `10 ^ k`. -/
def scale (a : Fraction) : Int :=
  let k : Int := (Nat.toDigits 10 a.numerator).length - (Nat.toDigits 10 a.denominator).length
  if a.compare (scaled 1 0 k) = .lt then k else k + 1

/-- The whole part of the quotient of two fractions. -/
def quotient (a b : Fraction) : Nat :=
  a.numerator * b.denominator / (a.denominator * b.numerator)

end Fraction

/-- The value of a number. -/
def Binary.value (x : Binary) : Fraction :=
  .scaled x.significand x.exponent 0

/-- Whether a fraction is among the reals that round to a number, a tie going to the even one. -/
def Binary.covers (x : Binary) (a : Fraction) : Bool :=
  let low := Fraction.scaled (4 * x.significand - if x.narrowBelow then 1 else 2) (x.exponent - 2) 0
  let high := Fraction.scaled (4 * x.significand + 2) (x.exponent - 2) 0
  let inclusive := x.significand % 2 == 0
  let within (strict : Ordering) (order : Ordering) : Bool :=
    order == strict || (inclusive && order == .eq)
  within .gt (a.compare low) && within .lt (a.compare high)

/-- The number `0.d₁d₂… * 10 ^ point`, given its digits. -/
structure Digits where
  digits : List Char
  point : Int
  deriving DecidableEq, Repr

namespace Digits

/-- The digits of `n * 10 ^ exponent`, without zeros at the end. -/
def ofScaled (n : Nat) (exponent : Int) : Digits :=
  let all := Nat.toDigits 10 n
  ⟨(all.reverse.dropWhile (· == '0')).reverse, all.length + exponent⟩

/-- Of the two multiples of `10 ^ exponent` next to a value, the nearest one that `accepted` holds
of, as a factor; a tie goes to the even factor. -/
def nearest? (value : Fraction) (exponent : Int) (accepted : Fraction → Bool) : Option Nat :=
  let below := value.quotient (.scaled 1 0 exponent)
  let order := value.compare (.scaled (2 * below + 1) (-1) exponent)
  let belowFirst := order == .lt || (order == .eq && below % 2 == 0)
  let candidates := if belowFirst then [below, below + 1] else [below + 1, below]
  candidates.find? fun n => accepted (.scaled n 0 exponent)

/-- The nearest digits of the given count. -/
def rounded (x : Binary) (count : Nat) : Digits :=
  let exponent := x.value.scale - count
  ofScaled ((nearest? x.value exponent fun _ => true).getD 0) exponent

/-- The fewest digits that read back as the number. -/
def shortest (x : Binary) : Digits :=
  let exponents := (List.range 17).map fun (i : Nat) => x.value.scale - (i + 1)
  let found := exponents.findSome? fun exponent =>
    (nearest? x.value exponent x.covers).map fun n => ofScaled n exponent
  found.getD (rounded x 17)

end Digits

/-- How digits are laid out. -/
structure Layout where
  /-- The power of ten from which on an exponent is written. -/
  exponentFrom : Int
  /-- Whether a whole number is written with a point and a zero. -/
  pointed : Bool
  deriving DecidableEq, Repr

namespace Layout

/-- Digits with a point and an exponent of at least two places, or without an exponent if the
number is neither large nor less than a ten-thousandth. -/
def write (layout : Layout) (d : Digits) : String :=
  let zeros (n : Int) : List Char := List.replicate n.toNat '0'
  let count : Int := d.digits.length
  let exponent := d.point - 1
  if exponent < -4 ∨ layout.exponentFrom ≤ exponent then
    let mantissa := match d.digits with
      | [] => []
      | [digit] => [digit]
      | digit :: rest => digit :: '.' :: rest
    let places := Nat.toDigits 10 exponent.natAbs
    String.ofList (mantissa ++ ['e', if exponent < 0 then '-' else '+'] ++
      zeros (2 - places.length) ++ places)
  else if d.point ≤ 0 then String.ofList ('0' :: '.' :: zeros (-d.point) ++ d.digits)
  else if count ≤ d.point then
    String.ofList (d.digits ++ zeros (d.point - count) ++ if layout.pointed then ['.', '0'] else [])
  else
    String.ofList (d.digits.take d.point.toNat ++ '.' :: d.digits.drop d.point.toNat)

/-- A finite number with the given digits of its magnitude. -/
def writeFloat (layout : Layout) (digits : Binary → Digits) (x : Float) : String :=
  let b := Binary.ofFloat x
  let sign := if x.toBits.toNat / Nat.pow 2 63 = 1 then "-" else ""
  sign ++ if b.significand = 0 then (if layout.pointed then "0.0" else "0") else
    layout.write (digits b)

end Layout

/-- The shortest text that reads back as a finite number. -/
def exactText (x : Float) : String :=
  Layout.writeFloat ⟨16, true⟩ Digits.shortest x

/-- A finite number to six significant digits. -/
def briefText (x : Float) : String :=
  Layout.writeFloat ⟨6, false⟩ (Digits.rounded · 6) x

end Entail.Decimal
