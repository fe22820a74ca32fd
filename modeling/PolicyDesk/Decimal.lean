/-!
# Decimal numerals

Doubles written in decimal digits and read from them. All of it is done on whole numbers, so nothing
is lost on the way but what the notation itself leaves out.
-/

namespace PolicyDesk.Decimal

/-! ## The exact value of a double

A finite double is a sign, a mantissa and a power of two (`Exact.ofFloat`); `ratio` writes a
mantissa times a power of a base as a quotient of natural numbers, so that printing and rounding
work on whole numbers only. -/

/-- What a double stands for. Every finite double has exactly one such form with the exponents used
here, and a zero keeps its sign. -/
inductive Exact
  | nan
  | infinite (negative : Bool)
  /-- The number `mantissa * 2 ^ exponent`, or its negation. -/
  | finite (negative : Bool) (mantissa : Nat) (exponent : Int)

namespace Exact

/-- The exponent of the smallest positive double. -/
def leastExponent : Int := -1074

/-- The mantissa of a normal double that is a power of two. -/
def leastNormal : Nat := Nat.pow 2 52

/-- Reads the three fields of the 64 bits: one of sign, eleven of exponent, 52 of mantissa. A field
of zero marks the subnormal numbers, which lack the leading bit; the greatest field marks infinity
and what is no number. -/
def ofFloat (x : Float) : Exact :=
  let bits := x.toBits.toNat
  let negative := decide (Nat.pow 2 63 ≤ bits)
  let field := bits / Nat.pow 2 52 % Nat.pow 2 11
  let low := bits % Nat.pow 2 52
  if field = 2047 then
    if low = 0 then .infinite negative else .nan
  else if field = 0 then
    .finite negative low leastExponent
  else
    .finite negative (leastNormal + low) (leastExponent + (field - 1 : Nat))

end Exact

/-- The quotient `n * base ^ exponent`, as numerator and denominator. -/
def ratio (n base : Nat) (exponent : Int) : Nat × Nat :=
  match exponent with
  | .ofNat e => (n * base.pow e, 1)
  | .negSucc e => (n, base.pow (e + 1))

/-- The decimal digits of a number, without leading zeros. -/
def digits (n : Nat) : List Char := Nat.toDigits 10 n

/-- Puts zeros in front of a run of digits up to the given width. A longer run stays as it is. -/
def padLeft (width : Nat) (cs : List Char) : List Char :=
  List.replicate (width - cs.length) '0' ++ cs

/-- A number in decimal, with zeros in front up to the given width. -/
def padded (width n : Nat) : String :=
  String.ofList (padLeft width (digits n))

/-! ## A fixed number of decimal places

- `Tie` says which of two equally near numbers is taken.
- `roundDiv` rounds a quotient to the nearest whole number.
- `fixedRatio` writes a quotient with a fixed number of decimal places.
- `fixed` writes a double so: its exact value is rounded, and a zero keeps its sign. -/

/-- Where a number half way between two neighbours goes. Fixed places and data files take the even
neighbour, messages the greater one. -/
inductive Tie
  | toEven
  | up
  deriving DecidableEq, Repr

/-- A half above `below` goes to the greater neighbour. -/
def Tie.goesUp (tie : Tie) (below : Nat) : Bool :=
  match tie with
  | .toEven => below % 2 = 1
  | .up => true

/-- The whole number nearest to `num / den`; a half goes as the tie says. The remainder is compared
with half of the denominator, so nothing is rounded before this step. -/
def roundDiv (tie : Tie) (num den : Nat) : Nat :=
  let below := num / den
  let rest := num % den
  if den < 2 * rest ∨ (den = 2 * rest ∧ tie.goesUp below = true) then below + 1 else below

/-- A count of units of the last of `places` decimal places, with its point. There is always a digit
before the point: five units of two places are `0.05`. -/
def withPoint (places units : Nat) : List Char :=
  let cs := padLeft (places + 1) (digits units)
  let whole := cs.take (cs.length - places)
  if places = 0 then whole else whole ++ '.' :: cs.drop (cs.length - places)

def sign (negative : Bool) : String := if negative then "-" else ""

/-- The quotient `num / den`, or its negation, with `places` decimal places, ties to even. -/
def fixedRatio (places : Nat) (negative : Bool) (num den : Nat) : String :=
  sign negative ++ String.ofList (withPoint places (roundDiv .toEven (num * Nat.pow 10 places) den))

/-- A double with `places` decimal places, ties to even on its exact binary value. The double is not
rounded to decimal digits first: `0.125` is a tie, while `0.005` lies above one and becomes `0.01`.
-/
def fixed (places : Nat) (x : Float) : String :=
  match Exact.ofFloat x with
  | .nan => "NaN"
  | .infinite negative => sign negative ++ "inf"
  | .finite negative mantissa exponent =>
    let (num, den) := ratio mantissa 2 exponent
    fixedRatio places negative num den

/-! ## The fewest digits that read back

A double is printed with the fewest decimal digits that lie nearer to it than to any other double.

- `Span.ofBinary` is the interval of numbers that round to a double.
- `Span.onGrid` looks for a point of a decimal grid in it; `shortest` tries ever finer grids, of one
  to seventeen digits. Of two points the nearer one is taken, and of two equally near ones that
  which the notation prefers.
- `plain` writes the digits without an exponent; `scientific` writes them as data files do, with an
  exponent for very large and very small numbers. -/

/-- The numbers that round to a positive double, in quarters of a unit of its last binary place:
`low / 4`, `4 * mantissa / 4` and `high / 4` times `2 ^ exponent`. -/
structure Span where
  low : Nat
  middle : Nat
  high : Nat
  /-- The exponent of two of a quarter. -/
  exponent : Int
  /-- A bound itself rounds to the double; so when the mantissa is even. -/
  closed : Bool

namespace Span

/-- Below a power of two the doubles lie twice as dense, so the lower bound is nearer there. -/
def ofBinary (mantissa : Nat) (exponent : Int) : Span where
  low := if mantissa = Exact.leastNormal ∧ exponent ≠ Exact.leastExponent
    then 4 * mantissa - 1 else 4 * mantissa - 2
  middle := 4 * mantissa
  high := 4 * mantissa + 2
  exponent := exponent - 2
  closed := mantissa % 2 = 0

/-- The interval holds `count` steps of size `10 ^ place`. All three points are brought to the
denominator `unitDen * stepDen`, so that whole numbers are compared. -/
def holds (span : Span) (place : Int) (count : Nat) : Bool :=
  let (unit, unitDen) := ratio 1 2 span.exponent
  let (step, stepDen) := ratio count 10 place
  let point := step * unitDen
  let low := span.low * unit * stepDen
  let high := span.high * unit * stepDen
  if span.closed then decide (low ≤ point) && decide (point ≤ high)
  else decide (low < point) && decide (point < high)

/-- The double counted in steps of size `10 ^ place`, as a quotient. The whole part of the quotient
is the last point of the grid that is not above the double. -/
def count (span : Span) (place : Int) : Nat × Nat :=
  let (unit, unitDen) := ratio span.middle 2 span.exponent
  let (step, stepDen) := ratio 1 10 place
  (unit * stepDen, unitDen * step)

/-- The point of the grid of size `10 ^ place` that lies in the interval, the nearer one of two.
There is none when the grid is too coarse for the interval. -/
def onGrid (span : Span) (tie : Tie) (place : Int) : Option Nat :=
  let (num, den) := span.count place
  let below := num / den
  -- Both neighbours may read back as the double, and then the nearer one is taken.
  match span.holds place below, span.holds place (below + 1) with
  | true, true => some (roundDiv tie num den)
  | true, false => some below
  | false, true => some (below + 1)
  | false, false => none

/-- The place of the leading decimal digit: the double lies between `10 ^ p` and `10 ^ (p + 1)`. -/
def leadingPlace (span : Span) : Int :=
  let (num, den) := ratio span.middle 2 span.exponent
  if den ≤ num then (digits (num / den)).length - 1
  else -((digits ((den - 1) / num)).length : Int)

end Span

/-- Decimal digits and the place of the last one: `digits * 10 ^ place`. -/
structure Numerals where
  digits : List Char
  place : Int

/-- Trailing zeros move into the place. Those zeros carry no value, and a search that ends on a
finer grid than it needs to leaves them. -/
def Numerals.ofCount (count : Nat) (place : Int) : Numerals :=
  let cs := Decimal.digits count
  let kept := (cs.reverse.dropWhile (· == '0')).reverse
  ⟨kept, place + (cs.length - kept.length : Nat)⟩

/-- The fewest digits that read back as the positive double `mantissa * 2 ^ exponent`. Seventeen
always do, so the last line is a default that no double reaches. -/
def shortest (tie : Tie) (mantissa : Nat) (exponent : Int) : Numerals :=
  let span := Span.ofBinary mantissa exponent
  let lead := span.leadingPlace
  let found := (List.range 17).findSome? fun (n : Nat) =>
    let place := lead - n
    (span.onGrid tie place).map (Numerals.ofCount · place)
  found.getD (Numerals.ofCount (let (num, den) := span.count (lead - 17); num / den) (lead - 17))

/-- A run of zeros. -/
def zeros (n : Nat) : List Char := List.replicate n '0'

/-- Digits without an exponent: `120`, `0.5`, `0.00025`. -/
def Numerals.positional (d : Numerals) : List Char :=
  let point := d.digits.length + d.place
  if 0 ≤ d.place then d.digits ++ zeros d.place.toNat
  else if 0 < point then d.digits.take point.toNat ++ '.' :: d.digits.drop point.toNat
  else '0' :: '.' :: zeros (-point).toNat ++ d.digits

/-- Digits with one of them before the point, and the power of ten: `1e-7`, `1.25e+21`. -/
def Numerals.exponential (d : Numerals) : List Char :=
  let power := d.digits.length + d.place - 1
  let mark := if power < 0 then '-' else '+'
  let tail := 'e' :: mark :: Decimal.digits power.natAbs
  match d.digits with
  | [] => '0' :: tail
  | [c] => c :: tail
  | c :: cs => c :: '.' :: cs ++ tail

/-- A double in a message: the fewest digits that read back, never an exponent. Of two equally near
numbers the one farther from zero is written. -/
def plain (x : Float) : String :=
  match Exact.ofFloat x with
  | .nan => "NaN"
  | .infinite negative => sign negative ++ "inf"
  | .finite negative 0 _ => sign negative ++ "0"
  | .finite negative mantissa exponent =>
    sign negative ++ String.ofList (shortest .up mantissa exponent).positional

/-- Places of the decimal point at which a number in a data file has no exponent. The point is
counted from the first digit, so these are the numbers from `1e-5` up to `1e16`. -/
def hasNoExponent (point : Int) : Bool := decide (-5 < point) && decide (point ≤ 16)

/-- A finite double in a data file: always with a point or an exponent. Of two equally near
numbers the one that ends in an even digit is written. -/
def scientific (x : Float) : String :=
  match Exact.ofFloat x with
  | .nan => "NaN"
  | .infinite negative => sign negative ++ "inf"
  | .finite negative 0 _ => sign negative ++ "0.0"
  | .finite negative mantissa exponent =>
    let d := shortest .toEven mantissa exponent
    let body :=
      if hasNoExponent (d.digits.length + d.place) then
        d.positional ++ if 0 ≤ d.place then ['.', '0'] else []
      else d.exponential
    sign negative ++ String.ofList body

/-! ## Reading decimals

- `Written` is a decimal as written: sign, digits before and after the point, exponent.
- `Written.nearest` is the double nearest to it.
- `Written.scaled?` is how data files are read: the leading digits that fit in 64 bits, scaled by a
  power of ten in double arithmetic. It refuses what is too large for a double.
- `read?` reads a whole text, as a command line gives it. -/

/-- The value of a decimal digit. -/
def digit? (c : Char) : Option Nat :=
  if '0' ≤ c ∧ c ≤ '9' then some (c.toNat - '0'.toNat) else none

def isDigit (c : Char) : Bool := (digit? c).isSome

/-- The leading digits of a text and the rest. Both may be empty. -/
def splitDigits (cs : List Char) : List Nat × List Char :=
  ((cs.takeWhile isDigit).filterMap digit?, cs.dropWhile isDigit)

/-- The number that a run of digits writes. -/
def ofDigits (ds : List Nat) : Nat :=
  ds.foldl (fun n d => 10 * n + d) 0

/-- A decimal as written. The digits keep their leading and trailing zeros, as `keepDigits` counts
them. -/
structure Written where
  negative : Bool
  whole : List Nat
  fraction : List Nat
  exponent : Int

namespace Written

def signed (w : Written) (x : Float) : Float := if w.negative then -x else x

/-- Powers of ten beyond these give zero or infinity for any mantissa of one leading digit. Beyond
them `nearest` need not compute a power of ten of unbounded size. -/
def widestPlace : Int := 400

/-- The nearest double; infinity and zero beyond the range. -/
def nearest (w : Written) : Float :=
  let ds := (w.whole ++ w.fraction).dropWhile (· == 0)
  let place := w.exponent - w.fraction.length
  let lead := ds.length + place
  w.signed <|
    if ds.isEmpty ∨ lead < -widestPlace then 0.0
    else if widestPlace < lead then 1.0 / 0.0
    else Float.ofScientific (ofDigits ds) (decide (place < 0)) place.natAbs

/-- Appends digits to a significand while it stays below `2 ^ 64`; the second result counts them.
Later digits are dropped without rounding, so a long decimal may read as a neighbour of the nearest
double. -/
def keepDigits (significand : Nat) : List Nat → Nat × Nat
  | [] => (significand, 0)
  | d :: ds =>
    if 10 * significand + d < UInt64.size then
      let (n, kept) := keepDigits (10 * significand + d) ds
      (n, kept + 1)
    else (significand, 0)

/-- The largest power of ten that is a double. -/
def widestPower : Nat := 308

def powerOfTen (e : Nat) : Float := Float.ofScientific 1 false e

/-- Scales by a power of ten, in steps that are doubles; nothing when the result is too large. A
result of zero is no failure: a number that is too small reads as zero. -/
def scale (x : Float) (exponent : Int) : Option Float :=
  if exponent < -widestPower then
    if x == 0.0 then some x else scale (x / powerOfTen widestPower) (exponent + widestPower)
  else if exponent < 0 then some (x / powerOfTen exponent.natAbs)
  else if exponent ≤ widestPower then
    let y := x * powerOfTen exponent.natAbs
    if y.isInf then none else some y
  else if x == 0.0 then some x else none
termination_by (-exponent).toNat
decreasing_by simp only [widestPower] at *; omega

/-- The double that a decimal in a data file stands for. -/
def scaled? (w : Written) : Option Float :=
  let (n, keptWhole) := keepDigits 0 w.whole
  let (n, keptFraction) := keepDigits n w.fraction
  let place := w.exponent + (w.whole.length - keptWhole : Nat) - keptFraction
  (scale n.toUInt64.toFloat place).map w.signed

end Written

/-- A sign in front of a text, and the rest. -/
def splitSign : List Char → Bool × List Char
  | '-' :: cs => (true, cs)
  | '+' :: cs => (false, cs)
  | cs => (false, cs)

/-- The text after the mark of an exponent: an optional sign and at least one digit. The exponent is
not bounded here; `Written.nearest` and `Written.scale` take any. -/
def readExponent? (cs : List Char) : Option (Int × List Char) :=
  let (negative, cs) := splitSign cs
  match splitDigits cs with
  | ([], _) => none
  | (ds, rest) => some (if negative then -(ofDigits ds : Int) else ofDigits ds, rest)

/-- The digits after a point, which may be absent. -/
def splitFraction : List Char → List Nat × List Char
  | '.' :: cs => splitDigits cs
  | cs => ([], cs)

/-- An unsigned decimal: digits on at least one side of an optional point, and an optional exponent.
There is nothing when any character is left over. -/
def readUnsigned? (negative : Bool) (cs : List Char) : Option Written :=
  let (whole, rest) := splitDigits cs
  let (fraction, rest) := splitFraction rest
  if whole.isEmpty ∧ fraction.isEmpty then none
  else match rest with
    | [] => some ⟨negative, whole, fraction, 0⟩
    | c :: rest =>
      if c = 'e' ∨ c = 'E' then
        match readExponent? rest with
        | some (exponent, []) => some ⟨negative, whole, fraction, exponent⟩
        | _ => none
      else none

/-- Reads a whole text as a double: a decimal, or `inf`, `infinity`, `nan` in any case. -/
def read? (s : String) : Option Float :=
  let (negative, cs) := splitSign s.toList
  let word := String.ofList (cs.map Char.toLower)
  if word = "inf" ∨ word = "infinity" then
    some (if negative then -(1.0 / 0.0) else 1.0 / 0.0)
  else if word = "nan" then some (0.0 / 0.0)
  else (readUnsigned? negative cs).map Written.nearest

/-- Reads an unsigned whole number below `2 ^ bits`: digits only, after at most one plus sign.
Leading zeros are allowed, a minus sign is not, even before a zero. -/
def readUnsignedInteger? (bits : Nat) (s : String) : Option Nat :=
  let cs := match s.toList with
    | '+' :: cs => cs
    | cs => cs
  match splitDigits cs with
  | ([], _) => none
  | (ds, []) => if ofDigits ds < Nat.pow 2 bits then some (ofDigits ds) else none
  | _ => none

end PolicyDesk.Decimal
