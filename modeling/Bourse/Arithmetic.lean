import Bourse.Word

/-!
# Arithmetic that can fail

The causes for which an amount cannot be computed, and the two readings of an overflowing sum:
a failure, or the result modulo `2 ^ 256`. A power is computed by repeated squaring, from the lowest
bit of the exponent to its highest one. The square after the highest bit is never formed, so a power
that fits is never refused for it.
-/

namespace Bourse

/-- Why an amount cannot be computed. -/
inductive ArithmeticError where
  /-- The result is `2 ^ 256` or more. -/
  | overflow
  /-- The result is negative. -/
  | underflow
  /-- The divisor is zero. -/
  | divisionByZero
  deriving DecidableEq, Repr

/-- The sentence that reports a failure. -/
def ArithmeticError.message : ArithmeticError → String
  | .overflow => "arithmetic overflow."
  | .underflow => "arithmetic underflow."
  | .divisionByZero => "division by zero."

/-- How sums, differences, products and powers that leave the range of words are read. -/
inductive ArithmeticMode where
  /-- They are failures. -/
  | checked
  /-- They are taken modulo `2 ^ 256`. -/
  | wrapping
  deriving DecidableEq, Repr, Inhabited

/-- The name of a mode. -/
def ArithmeticMode.text : ArithmeticMode → String
  | .checked => "checked"
  | .wrapping => "wrapping"

namespace Arithmetic

/-- The outcome of a computation whose exact result is `n`: that word, or overflow. -/
def fit (n : Nat) : Except ArithmeticError Word :=
  match Word.ofNat? n with
  | some w => .ok w
  | none => .error .overflow

/-- The sum; overflow when it does not fit. -/
def add (a b : Word) : Except ArithmeticError Word := fit (a.toNat + b.toNat)

/-- The difference; underflow when it is negative. -/
def sub (a b : Word) : Except ArithmeticError Word :=
  match a.sub? b with
  | some w => .ok w
  | none => .error .underflow

/-- The product; overflow when it does not fit. -/
def mul (a b : Word) : Except ArithmeticError Word := fit (a.toNat * b.toNat)

/-- The quotient, rounded down. -/
def div (a b : Word) : Except ArithmeticError Word :=
  if b = 0 then .error .divisionByZero else .ok (a / b)

/-- The remainder. -/
def rem (a b : Word) : Except ArithmeticError Word :=
  if b = 0 then .error .divisionByZero else .ok (a % b)

/-- The number of binary digits of `n`; zero has none. -/
def bitLength (n : Nat) : Nat := if n = 0 then 0 else n.log2 + 1

/-- Multiply `acc` by `square` raised to the `bits` lowest bits of the exponent, with the given
multiplication. -/
def raise {m : Type → Type} [Monad m] (times : Word → Word → m Word) :
    (bits : Nat) → (square acc : Word) → (exponent : Nat) → m Word
  | 0, _, acc, _ => pure acc
  | bits + 1, square, acc, exponent => do
    let acc ← if exponent % 2 = 1 then times acc square else pure acc
    if bits = 0 then
      pure acc
    else
      raise times bits (← times square square) acc (exponent / 2)

/-- The power, with zero to the zero being one; overflow when it does not fit. -/
def pow (base exponent : Word) : Except ArithmeticError Word :=
  raise mul (bitLength exponent.toNat) base 1 exponent.toNat

/-- The power modulo `2 ^ 256`. -/
def powWrap (base exponent : Word) : Word :=
  Id.run (raise (fun a b => pure (a.mulWrap b)) (bitLength exponent.toNat) base 1 exponent.toNat)

/-- A number fits when it is the number of a word. -/
theorem fit_eq_ok_iff {n : Nat} {w : Word} : fit n = .ok w ↔ w.toNat = n := by
  rw [← Word.ofNat?_eq_some_iff, fit]
  cases Word.ofNat? n <;> simp

/-- A checked sum is the exact one. -/
theorem add_eq_ok_iff {a b c : Word} : add a b = .ok c ↔ c.toNat = a.toNat + b.toNat :=
  fit_eq_ok_iff

/-- A checked difference is what has to be added back. -/
theorem sub_eq_ok_iff {a b c : Word} : sub a b = .ok c ↔ c.toNat + b.toNat = a.toNat := by
  rw [← Word.sub?_eq_some_iff, sub]
  cases a.sub? b <;> simp

/-- A difference underflows when more is taken than there is. -/
theorem sub_eq_error_iff {a b : Word} {e : ArithmeticError} :
    sub a b = .error e ↔ a.toNat < b.toNat ∧ e = .underflow := by
  rw [← Word.sub?_eq_none_iff, sub]
  cases a.sub? b <;> simp [eq_comm]

/-- A checked product is the exact one. -/
theorem mul_eq_ok_iff {a b c : Word} : mul a b = .ok c ↔ c.toNat = a.toNat * b.toNat :=
  fit_eq_ok_iff

end Arithmetic

end Bourse
