import Entail.Error

/-!
# Durations

A duration is written as hours, minutes, seconds and milliseconds, each of them
cut towards zero and taken off before the next one.  A negative part keeps its
sign, which takes one of the places that the part is filled up to.
-/

namespace Entail.Duration

/-- The parts that a duration is written with. -/
structure Parts where
  hours : Int
  minutes : Int
  seconds : Int
  milliseconds : Int
  deriving DecidableEq, Repr

/-- A number filled up with zeros to the given width, which the sign counts for. -/
def padZero (width : Nat) (n : Int) : String :=
  let sign := if n < 0 then "-" else ""
  let digits := toString n.natAbs
  sign ++ String.ofList (List.replicate (width - sign.length - digits.length) '0') ++ digits

def Parts.text (parts : Parts) : String :=
  toString parts.hours ++ ":" ++ padZero 2 parts.minutes ++ ":" ++ padZero 2 parts.seconds ++
    "." ++ padZero 3 parts.milliseconds

/-- The whole part of a finite floating-point number. -/
def truncate (x : Float) : Int :=
  let bits := x.toBits.toNat
  let exponent := bits / Nat.pow 2 52 % Nat.pow 2 11
  let fraction := bits % Nat.pow 2 52
  let significand := if exponent = 0 then fraction else fraction + Nat.pow 2 52
  let magnitude : Nat := significand * Nat.pow 2 exponent / Nat.pow 2 1075
  if bits / Nat.pow 2 63 = 1 then -(magnitude : Int) else magnitude

/-- The parts of a number of seconds. -/
def partsOfSeconds (elapsed : Float) : Parts :=
  let hours := truncate (elapsed / 3600)
  let elapsed := elapsed - Float.ofInt (hours * 3600)
  let minutes := truncate (elapsed / 60)
  let elapsed := elapsed - Float.ofInt (minutes * 60)
  let seconds := truncate elapsed
  ⟨hours, minutes, seconds, truncate ((elapsed - Float.ofInt seconds) * 1000)⟩

/-- The whole part of a quotient that was rounded to 53 significant binary digits, a half to the
even neighbour. -/
def roundedQuotient (numerator denominator : Nat) : Nat :=
  let scaled := fun (n d : Nat) =>
    let q := n / d
    let twice := 2 * (n % d)
    if twice < d ∨ (twice = d ∧ q % 2 = 0) then q else q + 1
  let magnitude := Nat.log2 (numerator / denominator)
  if magnitude < 52 then
    scaled (numerator * Nat.pow 2 (52 - magnitude)) denominator / Nat.pow 2 (52 - magnitude)
  else
    scaled numerator (denominator * Nat.pow 2 (magnitude - 52)) * Nat.pow 2 (magnitude - 52)

/-- `roundedQuotient` for numerators of either sign. -/
def signedQuotient (numerator : Int) (denominator : Nat) : Int :=
  numerator.sign * roundedQuotient numerator.natAbs denominator

/-- The parts of a whole number of seconds. -/
def partsOfWholeSeconds (elapsed : Int) : Parts :=
  let hours := signedQuotient elapsed 3600
  let elapsed := elapsed - hours * 3600
  let minutes := signedQuotient elapsed 60
  ⟨hours, minutes, elapsed - minutes * 60, 0⟩

/-- How a number of seconds is written. -/
def text (elapsed : Float) : Except Error String :=
  if elapsed.isNaN then .error .notANumber
  else if elapsed.isInf then .error .tooLarge
  else .ok (partsOfSeconds elapsed).text

/-- How a whole number of seconds is written; its number of hours has to be within the range of
floating-point numbers. -/
def wholeText (elapsed : Int) : Except Error String :=
  if Nat.pow 2 1024 ≤ roundedQuotient elapsed.natAbs 3600 then .error .tooLarge
  else .ok (partsOfWholeSeconds elapsed).text

end Entail.Duration
