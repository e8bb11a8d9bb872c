import Bourse.Arithmetic
import Bourse.Evaluation
import Bourse.Order

/-!
# Refusals

Why the book does not do what it was asked. A refused request changes nothing.
-/

namespace Bourse

/-- Why a request is refused. -/
inductive Refusal where
  /-- The new order has no leg to receive. -/
  | noInputs
  /-- The new order has no leg to send. -/
  | noOutputs
  /-- The program of the new order has no source. -/
  | noSources
  /-- Only its owner can remove an order. -/
  | notOwner (sender owner : Address)
  /-- Nothing was to be deposited. -/
  | zeroDeposit
  /-- Nothing was to be withdrawn. -/
  | zeroWithdrawal
  /-- Two tokens that have to be the same are not. -/
  | tokenMismatch (found expected : Address)
  /-- Two numbers of decimals that have to be the same are not. -/
  | decimalsMismatch (found expected : UInt8)
  /-- An order cannot be matched with one of the same owner. -/
  | sameOwner (owner : Address)
  /-- The order is not listed. -/
  | notListed (hash : OrderHash)
  /-- The order has no such leg to receive. -/
  | inputAbsent (index : Nat)
  /-- The order has no such leg to send. -/
  | outputAbsent (index : Nat)
  /-- The taken orders send less than the taker accepts. -/
  | belowMinimum (minimum total : Word)
  /-- The program has not computed an amount and a price. -/
  | noOffer (hash : OrderHash) (values : Nat)
  /-- The program of the new order does not pass the check. -/
  | rejected (cause : Rejection)
  /-- The program of the order has no result. -/
  | eval (cause : EvalError)
  /-- There is no context to run the program in. -/
  | context (cause : ContextError)
  /-- An amount cannot be computed. -/
  | arithmetic (cause : ArithmeticError)
  deriving DecidableEq

/-- The sentence that reports a refusal. -/
def Refusal.message : Refusal → String
  | .noInputs => "order must have at least one valid input."
  | .noOutputs => "order must have at least one valid output."
  | .noSources => "order expression must have at least one source."
  | .notOwner sender owner =>
    "sender " ++ sender.text ++ " is not the owner " ++ owner.text ++ " of the order."
  | .zeroDeposit => "deposit amount must be non-zero."
  | .zeroWithdrawal => "withdrawal amount must be non-zero."
  | .tokenMismatch found expected =>
    "token " ++ found.text ++ " does not match the expected token " ++ expected.text ++ "."
  | .decimalsMismatch found expected =>
    "token decimals " ++ toString found.toNat ++ " do not match the expected decimals "
      ++ toString expected.toNat ++ "."
  | .sameOwner owner => "both orders are owned by " ++ owner.text ++ "."
  | .notListed hash => "order " ++ hash.text ++ " is not live."
  | .inputAbsent index => "order has no valid input with index " ++ toString index ++ "."
  | .outputAbsent index => "order has no valid output with index " ++ toString index ++ "."
  | .belowMinimum .. => "taken orders provide less input than the required minimum."
  | .noOffer hash values =>
    "calculate-IO of order " ++ hash.text ++ " returned " ++ toString values
      ++ " values instead of two."
  | .rejected cause => cause.message
  | .eval cause => cause.message
  | .context cause => cause.message
  | .arithmetic cause => cause.message

/-- Refuse for a cause unless something holds. -/
def require (p : Prop) [Decidable p] (cause : Refusal) : Except Refusal Unit :=
  if p then .ok () else .error cause

/-- What is required holds when the request goes on. -/
theorem require_eq_ok_iff {p : Prop} [Decidable p] {cause : Refusal} :
    require p cause = .ok () ↔ p := by
  rw [require]
  split <;> simp_all

end Bourse
