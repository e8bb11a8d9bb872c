import Bourse.Decimal

/-!
# Offers

What an order is willing to trade: the greatest amount that it sends, and the price that it asks
for each unit sent, both in raw amounts of their tokens. Two offers that face each other cross at
the greatest amounts that both allow.
-/

namespace Bourse

/-- The terms on which an order trades. -/
structure Offer where
  /-- The greatest amount that is sent. -/
  maxOutput : Word
  /-- The amount received for each unit sent, as an eighteen-decimal value. -/
  ratio : Word
  deriving DecidableEq

namespace Offer

/-- The offer in raw amounts, from one with eighteen decimals for both tokens. No more is sent than
there is. -/
def ofDecimals (maxOutput ratio : Word) (outputDecimals inputDecimals : UInt8) (available : Word) :
    Except ArithmeticError Offer := do
  let ratio ← Decimal.rescaleRatio ratio outputDecimals.toNat inputDecimals.toNat
  return ⟨min (Decimal.from18Sat maxOutput outputDecimals.toNat) available, ratio⟩

/-- What is received for an amount sent. -/
def price (offer : Offer) (amount : Word) : Except ArithmeticError Word :=
  Decimal.mul amount offer.ratio

end Offer

/-- The amounts that move when two orders trade with each other. -/
structure Crossing where
  /-- What the first order sends. -/
  aOutput : Word
  /-- What the second order sends. -/
  bOutput : Word
  /-- What the first order receives. -/
  aInput : Word
  /-- What the second order receives. -/
  bInput : Word
  deriving DecidableEq

/-- The amounts at which two offers cross: each order sends as much as it can and as the other can
pay for, and receives the price of what it sends. -/
def Crossing.ofOffers (a b : Offer) : Except ArithmeticError Crossing := do
  let aOutput := min a.maxOutput (← b.price b.maxOutput)
  let bOutput := min b.maxOutput (← a.price a.maxOutput)
  return ⟨aOutput, bOutput, ← a.price aOutput, ← b.price bOutput⟩

end Bourse
