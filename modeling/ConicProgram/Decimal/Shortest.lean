namespace ConicProgram

-- The number `digits * 10 ^ exponent`.
structure Decimal where
  digits : Nat
  exponent : Int
deriving DecidableEq

inductive Tie where
  | up
  | toEven

namespace Decimal

def digitCount (n : Nat) : Nat :=
  (Nat.toDigits 10 n).length

-- Every float lies between 10 ^ -324 and 10 ^ 309.
def farPlace : Nat := 400

def toFloat (d : Decimal) : Float :=
  let place : Int := digitCount d.digits + d.exponent
  if d.digits = 0 ∨ place < -farPlace then 0.0
  else if (farPlace : Int) < place then 1.0 / 0.0
  else Float.ofScientific d.digits (d.exponent < 0) d.exponent.natAbs

def normal (digits : Nat) (exponent : Int) : Decimal :=
  if h : digits ≠ 0 ∧ digits % 10 = 0 then normal (digits / 10) (exponent + 1)
  else ⟨digits, exponent⟩
termination_by digits
decreasing_by omega

-- The numbers around a positive float that round to it, over one denominator.
structure Rounding where
  low : Nat
  value : Nat
  high : Nat
  denominator : Nat
  -- The two ends round to the float as well.
  closed : Bool

namespace Rounding

-- The ends lie halfway to the neighbours, and the neighbour below a power of two is nearer.
-- Counting in quarters of the last place keeps all of this whole.
def around (mantissa : Nat) (exponent : Int) (nearBelow : Bool) : Rounding :=
  let quarter := exponent - 2
  let scale := Nat.pow 2 quarter.toNat
  { low := (4 * mantissa - if nearBelow then 1 else 2) * scale
    value := 4 * mantissa * scale
    high := (4 * mantissa + 2) * scale
    denominator := Nat.pow 2 (-quarter).toNat
    closed := mantissa % 2 = 0 }

-- The leading bit that a float leaves out. The stored bits of the mantissa are below it.
def hiddenBit : Nat := 0x10000000000000

def ofFloat (x : Float) : Rounding :=
  let bits := x.toBits.toNat
  let fraction := bits % hiddenBit
  let biased : Nat := bits / hiddenBit % 0x800
  if biased = 0 then around fraction (-1074) false
  else around (hiddenBit + fraction) ((biased : Int) - 1075) (fraction = 0 ∧ 1 < biased)

def inSteps (r : Rounding) (place : Int) : Rounding :=
  let up := Nat.pow 10 (-place).toNat
  { r with
    low := r.low * up
    value := r.value * up
    high := r.high * up
    denominator := r.denominator * Nat.pow 10 place.toNat }

def holds (r : Rounding) (n : Nat) : Bool :=
  let m := n * r.denominator
  if r.closed then r.low ≤ m ∧ m ≤ r.high else r.low < m ∧ m < r.high

def nearest? (r : Rounding) (tie : Tie) : Option Nat :=
  let n := r.value / r.denominator
  let rest := r.value % r.denominator
  match r.holds n, r.holds (n + 1) with
  | true, false => some n
  | false, true => some (n + 1)
  | false, false => none
  | true, true =>
    match compare (2 * rest) r.denominator, tie with
    | .lt, _ => some n
    | .gt, _ => some (n + 1)
    | .eq, .up => some (n + 1)
    | .eq, .toEven => some (if n % 2 = 0 then n else n + 1)

def topPlace (r : Rounding) : Int :=
  -- log10 2 is a little below 30103 / 100000
  let guess := ((r.value.log2 : Int) - r.denominator.log2 - 1) * 30103 / 100000
  let below (place : Int) : Bool :=
    let s := r.inSteps place
    s.value < s.denominator
  (([0, 1, 2].map (guess + ·)).find? below).getD (guess + 3)

def exact (r : Rounding) : Decimal :=
  -- the denominator is a power of two
  let places := r.denominator.log2
  normal (r.value * Nat.pow 5 places) (-places)

end Rounding

-- Seventeen digits tell any two floats apart.
def enoughDigits : Nat := 17

-- The decimal of fewest digits that rounds to the float, and of these the one nearest to it.
-- The grids are taken from coarse to fine, in whole numbers, so that nothing is rounded on the way.
def shortest (r : Rounding) (tie : Tie) : Decimal :=
  let top := r.topPlace
  let found := (List.range enoughDigits).findSome? fun (i : Nat) =>
    let place := top - 1 - i
    ((r.inSteps place).nearest? tie).map fun n => normal n place
  found.getD r.exact

def ofFloat (x : Float) (tie : Tie) : Decimal :=
  if x == 0.0 then ⟨0, 0⟩ else shortest (.ofFloat x) tie

end Decimal
end ConicProgram
