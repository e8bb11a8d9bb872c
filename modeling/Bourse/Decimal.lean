import Bourse.Arithmetic
import Bourse.Word.Double

/-!
# Decimal amounts

Prices and computed amounts carry eighteen decimals; the raw amounts of a token carry as many as the
token says. Products and quotients of eighteen-decimal values keep full precision before they are
rounded down, and rescaling multiplies or divides by a power of ten that must itself be a word.
-/

namespace Bourse.Decimal

open Arithmetic

/-- The number of decimals of prices and computed amounts. -/
def places : Nat := 18

/-- The value one with eighteen decimals. -/
def one : Word := 1000000000000000000

/-- The greatest exponent for which the power of ten is a word. -/
def maxExponent : Nat := 77

/-- Multiply by ten `count` times. -/
def timesTen : (count : Nat) → Word → Except ArithmeticError Word
  | 0, acc => .ok acc
  | count + 1, acc => do timesTen count (← Arithmetic.mul acc 10)

/-- The power of ten as a word. -/
def pow10 (exponent : Nat) : Except ArithmeticError Word :=
  if maxExponent < exponent then .error .overflow else timesTen exponent 1

/-- The result, or overflow where there is none. -/
def orOverflow {α : Type} : Option α → Except ArithmeticError α
  | some a => .ok a
  | none => .error .overflow

/-- The product of `a` and `b` over `divisor`, rounded down once at the end. -/
def mulDiv (a b divisor : Word) : Except ArithmeticError Word :=
  if divisor = 0 then
    .error .divisionByZero
  else do
    let product ← orOverflow (DoubleWord.mul? (.ofWord a) (.ofWord b))
    orOverflow (product / .ofWord divisor).toWord?

/-- The product of two eighteen-decimal values. -/
def mul (a b : Word) : Except ArithmeticError Word := mulDiv a b one

/-- The quotient of two eighteen-decimal values. -/
def div (a b : Word) : Except ArithmeticError Word := mulDiv a one b

/-- Append `digits` decimal digits. -/
def widen (a : Word) (digits : Nat) : Except ArithmeticError Word := do
  Arithmetic.mul a (← pow10 digits)

/-- Drop `digits` decimal digits. -/
def narrow (a : Word) (digits : Nat) : Except ArithmeticError Word := do
  return a / (← pow10 digits)

/-- Multiply by a power of ten with a signed exponent. -/
def scaleBy (a : Word) (exponent : Int) : Except ArithmeticError Word :=
  if 0 ≤ exponent then widen a exponent.natAbs else narrow a exponent.natAbs

/-- A raw amount with the given decimals as an eighteen-decimal value. -/
def to18 (a : Word) (decimals : Nat) : Except ArithmeticError Word :=
  if places < decimals then narrow a (decimals - places) else widen a (places - decimals)

/-- An eighteen-decimal value as a raw amount with the given decimals. -/
def from18 (a : Word) (decimals : Nat) : Except ArithmeticError Word :=
  if decimals < places then narrow a (places - decimals) else widen a (decimals - places)

/-- An eighteen-decimal value as a raw amount, or the greatest word when that does not fit. Zero is
zero with any number of decimals. -/
def from18Sat (a : Word) (decimals : Nat) : Word :=
  if decimals < places then
    (from18 a decimals).toOption.getD 0
  else
    match pow10 (decimals - places) with
    | .ok power => a.mulSat power
    | .error _ => if a = 0 then 0 else Word.top

/-- An eighteen-decimal price, in input tokens per output token, as a price between raw amounts. The
exponent has to be a signed byte. -/
def rescaleRatio (ratio : Word) (outputDecimals inputDecimals : Nat) :
    Except ArithmeticError Word :=
  let exponent : Int := inputDecimals - outputDecimals
  if Int8.minValue.toInt ≤ exponent ∧ exponent ≤ Int8.maxValue.toInt then
    scaleBy ratio exponent
  else
    .error .overflow

end Bourse.Decimal
