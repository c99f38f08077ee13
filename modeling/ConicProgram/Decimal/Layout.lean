import ConicProgram.Decimal.Shortest

namespace ConicProgram.Decimal

structure Layout where
  -- Whether a number is written without an exponent, from the exponent of its leading digit.
  positional : Int → Bool
  pointZero : Bool
  plus : Bool
  tie : Tie

namespace Layout

def plain : Layout where
  positional _ := true
  pointZero := false
  plus := false
  tie := .up

-- An exponent for magnitudes below `10 ^ -4` and from `10 ^ 16` on, else a point in every number.
def pointed : Layout where
  positional e := -4 ≤ e ∧ e < 16
  pointZero := true
  plus := false
  tie := .up

-- An exponent for magnitudes below `10 ^ -5` and from `10 ^ 16` on, signed either way.
def document : Layout where
  positional e := -5 ≤ e ∧ e < 16
  pointZero := true
  plus := true
  tie := .toEven

def spread (l : Layout) (digits : List Char) (exponent : Int) : List Char :=
  if 0 ≤ exponent then
    digits ++ List.replicate exponent.toNat '0' ++ if l.pointZero then ['.', '0'] else []
  else
    let whole : Int := digits.length + exponent
    if 0 < whole then digits.take whole.toNat ++ '.' :: digits.drop whole.toNat
    else '0' :: '.' :: (List.replicate (-whole).toNat '0' ++ digits)

def scientific (l : Layout) (digits : List Char) (lead : Int) : List Char :=
  let fraction := match digits.drop 1 with
    | [] => []
    | rest => '.' :: rest
  let sign := if lead < 0 then ['-'] else if l.plus then ['+'] else []
  digits.take 1 ++ fraction ++ 'e' :: (sign ++ Nat.toDigits 10 lead.natAbs)

def decimal (l : Layout) (d : Decimal) : List Char :=
  let digits := Nat.toDigits 10 d.digits
  let lead : Int := digits.length - 1 + d.exponent
  if l.positional lead then l.spread digits d.exponent else l.scientific digits lead

def float (l : Layout) (x : Float) : List Char :=
  if x.isNaN then ['N', 'a', 'N']
  else
    let sign := if x.toBits.toNat < UInt64.size / 2 then [] else ['-']
    sign ++ if x.isInf then ['i', 'n', 'f'] else l.decimal (ofFloat x l.tie)

end Layout
end ConicProgram.Decimal
