import PolicyDesk.Decimal

/-!
# Quantities

Scores and weights are numbers of a type with the operations of `Quantity`. Doubles are what the
desk runs on; the exact rational numbers have the same operations without rounding, so a statement
about sizes can be made of either.

- `total` adds from left to right and starts at negative zero, so that a sum of negative zeros keeps
  its sign.
- `hundredths` rounds to two places, a half away from zero.
- `clamp` moves a number into an interval; what compares with neither bound stays as it is.
-/

namespace PolicyDesk

/-- The operations that a score or a weight goes through. No laws come with them: those that a proof
needs are assumed by name (`MonotoneQuantity`) or proved of the one type in question. -/
class Quantity (α : Type) extends Add α, Sub α, Mul α, Div α, Neg α, LE α, LT α where
  decLe (x y : α) : Decidable (x ≤ y)
  decLt (x y : α) : Decidable (x < y)
  /-- The number `m / 10 ^ e`, or the one nearest to it. -/
  decimal (m e : Nat) : α
  isFinite : α → Bool
  /-- The nearest whole number; a half goes away from zero. -/
  round : α → α
  /-- A number in a message. -/
  text : α → String
  /-- A number in a message, with a fixed count of decimal places. -/
  fixed : Nat → α → String

namespace Quantity

variable {α : Type} [Quantity α]

instance : DecidableLE α := Quantity.decLe

instance : DecidableLT α := Quantity.decLt

/-- A whole number. -/
def whole (n : Nat) : α := decimal n 0

/-- The sum from left to right, from negative zero. The order of the summands can change a sum of
doubles, so it is part of the definition. -/
def total (xs : List α) : α := xs.foldl (· + ·) (-whole 0)

/-- Rounds to two places, a half away from zero. -/
def hundredths (x : α) : α := round (x * whole 100) / whole 100

/-- The lower bound is tested first, and a number that compares with neither bound is returned as it
is. -/
def clamp (low high x : α) : α :=
  if x < low then low else if high < x then high else x

/-- The two numbers differ by more than the tolerance. Written with `<` on both sides, so that it is
false where a difference is not a number. -/
def differBy (tolerance x y : α) : Prop := tolerance < x - y ∨ tolerance < -(x - y)

instance (tolerance x y : α) : Decidable (differBy tolerance x y) :=
  inferInstanceAs (Decidable (_ ∨ _))

end Quantity

namespace Decimal

/-- From here on every double is a whole number. This is `2 ^ 52`: there are no bits left for a
fraction. -/
def wholeFrom : Float := 4503599627370496.0

/-- The nearest whole number, a half away from zero; zeros keep their sign. Below `2 ^ 52` the whole
part of a double fits in 64 bits and is exact, and so is its distance to the double. -/
def roundHalfAway (x : Float) : Float :=
  if x.abs < wholeFrom then
    let below := x.abs.toUInt64.toFloat
    let nearest := if x.abs - below < 0.5 then below else below + 1.0
    if x < 0.0 then -nearest else if x == 0.0 then x else nearest
  else x

end Decimal

instance : Quantity Float where
  decLe x y := Float.decLe x y
  decLt x y := Float.decLt x y
  decimal m e := Float.ofScientific m true e
  isFinite := Float.isFinite
  round := Decimal.roundHalfAway
  text := Decimal.plain
  fixed := Decimal.fixed

/-! ## Exact quantities

The rational numbers with the operations of `Quantity`: sums, products and quotients are exact, and
rounding to hundredths is the only rounding left. -/

/-- The nearest whole number, a half away from zero. -/
def Quantity.roundRat (q : Rat) : Rat :=
  if q < 0 then -((-q + 1 / 2).floor : Rat) else ((q + 1 / 2).floor : Rat)

instance : Quantity Rat where
  decLe _ _ := inferInstance
  decLt _ _ := inferInstance
  decimal m e := (m : Rat) / (10 : Rat) ^ e
  isFinite _ := true
  round := Quantity.roundRat
  text q := toString q.num ++ "/" ++ toString q.den
  fixed places q := Decimal.fixedRatio places (decide (q < 0)) q.num.natAbs q.den

end PolicyDesk
