import ConicProgram.Decimal.Shortest

namespace ConicProgram.Json

-- A text that ends too early is told apart from one that goes wrong before its end.
inductive ReadError where
  | truncated
  | malformed
deriving DecidableEq

abbrev Reader (β : Type) := StateT (List Char) (Except ReadError) β

namespace Reader

variable {β σ : Type}

def truncated : Reader β :=
  throw .truncated

def malformed : Reader β :=
  throw .malformed

def peek : Reader (Option Char) :=
  return (← get).head?

def advance : Reader Unit :=
  modify List.tail

def next : Reader Char := do
  match ← get with
  | [] => truncated
  | c :: cs => set cs; return c

def isBlank (c : Char) : Bool :=
  c == ' ' || c == '\n' || c == '\t' || c == '\r'

def skipBlanks : Reader Unit :=
  modify (List.dropWhile isBlank)

-- The next character that is not blank, which stays where it is.
def upcoming : Reader Char := do
  skipBlanks
  match ← peek with
  | none => truncated
  | some c => return c

inductive Step (σ β : Type) where
  | more (state : σ)
  | done (result : β)

def repeatFor : Nat → (σ → Reader (Step σ β)) → σ → Reader β
  | 0, _, _ => malformed
  | times + 1, step, state => do
    match ← step state with
    | .more state => repeatFor times step state
    | .done result => return result

-- Repeats a step that takes at least one character whenever it asks for more, which it can do no
-- more often than there are characters.
def repeatStep (state : σ) (step : σ → Reader (Step σ β)) : Reader β := do
  repeatFor ((← get).length + 1) step state

def word : List Char → Reader Unit
  | [] => return
  | c :: cs => do if (← next) = c then word cs else malformed

section Numbers

inductive Number where
  | whole (i : Int)
  | real (x : Float)

def Number.toFloat : Number → Float
  | whole i => Float.ofInt i
  | real x => x

def digits : Reader (List Char) :=
  modifyGet (List.span Char.isDigit)

def decimalValue (ds : List Char) : Nat :=
  ds.foldl (fun n d => 10 * n + (d.toNat - '0'.toNat)) 0

-- A number that is passed over is checked, but its end is not told apart from the end of the text.

def digitMissing (passing : Bool) : Reader β := do
  if passing || (← peek).isSome then malformed else truncated

def someDigits (passing : Bool) : Reader (List Char) := do
  match ← digits with
  | [] => digitMissing passing
  | ds => return ds

def wholePart (passing : Bool) : Reader (List Char) := do
  match ← someDigits passing with
  | '0' :: _ :: _ => malformed
  | ds => return ds

def fractionPart (passing : Bool) : Reader (Option (List Char)) := do
  if (← peek) = some '.' then
    advance
    return some (← someDigits passing)
  else return none

def exponentPart (passing : Bool) : Reader (Option Int) := do
  match ← peek with
  | some 'e' | some 'E' =>
    advance
    match ← peek with
    | some '-' =>
      advance
      return some (-(decimalValue (← someDigits passing) : Int))
    | some '+' =>
      advance
      return some (decimalValue (← someDigits passing))
    | _ => return some (decimalValue (← someDigits passing))
  | _ => return none

-- The number of the given parts. What does not fit 64 bits is a float, and so is minus zero.
def Number.ofParts (negative : Bool) (whole : List Char) (fraction : Option (List Char))
    (exponent : Option Int) : Reader Number :=
  let n := decimalValue whole
  if fraction.isNone ∧ exponent.isNone ∧ !negative ∧ n < UInt64.size then
    return .whole n
  else if fraction.isNone ∧ exponent.isNone ∧ negative ∧ 0 < n ∧ n ≤ UInt64.size / 2 then
    return .whole (-n)
  else
    let fraction := fraction.getD []
    let x := Decimal.toFloat ⟨decimalValue (whole ++ fraction), exponent.getD 0 - fraction.length⟩
    if x.isInf then malformed else return .real (if negative then -x else x)

def sign : Reader Bool := do
  if (← peek) = some '-' then
    advance
    return true
  else return false

def number : Reader Number := do
  let negative ← sign
  let whole ← wholePart false
  let fraction ← fractionPart false
  let exponent ← exponentPart false
  Number.ofParts negative whole fraction exponent

def skipNumber : Reader Unit := do
  let _ ← sign
  let _ ← wholePart true
  let _ ← fractionPart true
  let _ ← exponentPart true

end Numbers

section Strings

def hexValue? (c : Char) : Option Nat :=
  if c.isDigit then some (c.toNat - '0'.toNat)
  else if 'a' ≤ c ∧ c ≤ 'f' then some (c.toNat - 'a'.toNat + 10)
  else if 'A' ≤ c ∧ c ≤ 'F' then some (c.toNat - 'A'.toNat + 10)
  else none

-- Four hexadecimal digits. The text counts as too short when fewer than four bytes are left.
def codeUnit : Reader Nat := do
  let cs ← get
  match cs with
  | a :: b :: c :: d :: rest =>
    match [a, b, c, d].mapM hexValue? with
    | some ds => set rest; return ds.foldl (fun n d => 16 * n + d) 0
    | none => malformed
  | _ => if (String.ofList cs).utf8ByteSize < 4 then truncated else malformed

def isHighSurrogate (n : Nat) : Bool :=
  0xd800 ≤ n && n < 0xdc00

def isLowSurrogate (n : Nat) : Bool :=
  0xdc00 ≤ n && n < 0xe000

-- The character of a code unit, and of the one that has to follow a high surrogate.
def codePoint : Reader Char := do
  let high ← codeUnit
  if isLowSurrogate high then malformed
  else if isHighSurrogate high then
    word ['\\', 'u']
    let low ← codeUnit
    if isLowSurrogate low then
      return Char.ofNat (0x10000 + (high - 0xd800) * 0x400 + (low - 0xdc00))
    else malformed
  else return Char.ofNat high

def escapes : List (Char × Char) :=
  [('"', '"'), ('\\', '\\'), ('/', '/'), ('b', '\x08'), ('f', '\x0c'), ('n', '\n'), ('r', '\r'),
    ('t', '\t')]

def escaped : Reader Char := do
  match ← next with
  | 'u' => codePoint
  | c =>
    match escapes.lookup c with
    | some d => return d
    | none => malformed

-- The letter of an escape in text that is passed over. A surrogate that stands alone does no harm
-- there.
def skipEscaped : Reader Char := do
  match ← next with
  | 'u' => let _ ← codeUnit; return 'u'
  | c => if (escapes.lookup c).isSome then return c else malformed

def stringWith (escape : Reader Char) : Reader String :=
  repeatStep [] fun cs => do
    match ← next with
    | '"' => return .done (String.ofList cs.reverse)
    | '\\' => return .more ((← escape) :: cs)
    | c => if c.toNat < 0x20 then malformed else return .more (c :: cs)

def string : Reader String :=
  stringWith escaped

def skipString : Reader Unit := do
  let _ ← stringWith skipEscaped

end Strings

section Skipping

inductive Bracket where
  | square
  | curly
deriving DecidableEq

def Bracket.closing : Bracket → Char
  | square => ']'
  | curly => '\x7d'

-- The open brackets around a place, and whether a value has to follow there.
structure Place where
  around : List Bracket
  before : Bool

def colon : Reader Unit := do
  if (← upcoming) = ':' then advance else malformed

def enter (around : List Bracket) : Reader Place := do
  if around.head? = some .curly then
    if (← upcoming) = '"' then
      advance
      skipString
      colon
      return ⟨around, true⟩
    else malformed
  else return ⟨around, true⟩

def opened (bracket : Bracket) (around : List Bracket) : Reader Place := do
  advance
  if (← upcoming) = bracket.closing then
    advance
    return ⟨around, false⟩
  else enter (bracket :: around)

def skipOne (place : Place) : Reader (Step Place Unit) := do
  let behind : Place := { place with before := false }
  if place.before then
    match ← upcoming with
    | 'n' => advance; word ['u', 'l', 'l']; return .more behind
    | 't' => advance; word ['r', 'u', 'e']; return .more behind
    | 'f' => advance; word ['a', 'l', 's', 'e']; return .more behind
    | '"' => advance; skipString; return .more behind
    | '[' => return .more (← opened .square place.around)
    | '\x7b' => return .more (← opened .curly place.around)
    | c => if c = '-' ∨ c.isDigit then skipNumber; return .more behind else malformed
  else
    match place.around with
    | [] => return .done ()
    | bracket :: around =>
      let c ← upcoming
      if c = ',' then
        advance
        return .more (← enter (bracket :: around))
      else if c = bracket.closing then
        advance
        return .more ⟨around, false⟩
      else malformed

def skipValue : Reader Unit :=
  repeatStep ⟨[], true⟩ skipOne

end Skipping

-- The answer to a value of another kind, which is malformed unless it breaks off in the middle of a
-- literal, a number or a string.
def mismatch : Reader β := do
  match ← peek with
  | some 'n' => advance; word ['u', 'l', 'l']
  | some 't' => advance; word ['r', 'u', 'e']
  | some 'f' => advance; word ['a', 'l', 's', 'e']
  | some '"' => advance; let _ ← string
  | some c => if c = '-' ∨ c.isDigit then let _ ← number
  | none => return ← truncated
  malformed

section Values

def null : Reader Unit := do
  if (← upcoming) = 'n' then
    advance
    word ['u', 'l', 'l']
  else mismatch

def bool : Reader Bool := do
  match ← upcoming with
  | 't' => advance; word ['r', 'u', 'e']; return true
  | 'f' => advance; word ['a', 'l', 's', 'e']; return false
  | _ => mismatch

def anyNumber : Reader Number := do
  let c ← upcoming
  if c = '-' ∨ c.isDigit then number else mismatch

def natBelow (limit : Nat) : Reader Nat := do
  match ← anyNumber with
  | .whole i => if 0 ≤ i ∧ i.toNat < limit then return i.toNat else malformed
  | .real _ => malformed

def index : Reader Nat :=
  natBelow UInt64.size

def float : Reader Float :=
  return (← anyNumber).toFloat

def text : Reader String := do
  if (← upcoming) = '"' then
    advance
    string
  else mismatch

def optional (value : Reader β) : Reader (Option β) := do
  if (← upcoming) = 'n' then
    advance
    word ['u', 'l', 'l']
    return none
  else return some (← value)

end Values

section Lists

def hasItem (first : Bool) : Reader Bool := do
  let c ← upcoming
  if c = ']' then return false
  else if first then return true
  else if c = ',' then
    advance
    if (← upcoming) = ']' then malformed else return true
  else malformed

def endArray : Reader Unit := do
  if (← upcoming) = ']' then advance else malformed

def list (item : Reader β) : Reader (List β) := do
  if (← upcoming) = '[' then
    advance
    let items ← repeatStep (true, []) fun (first, items) => do
      if ← hasItem first then return .more (false, (← item) :: items)
      else return .done items.reverse
    endArray
    return items
  else mismatch

end Lists

section Objects

def nextName (first : Bool) : Reader (Option String) := do
  let c ← upcoming
  if c = '\x7d' then return none
  else if first then
    if c = '"' then
      advance
      return some (← string)
    else malformed
  else if c = ',' then
    advance
    if (← upcoming) = '"' then
      advance
      return some (← string)
    else malformed
  else malformed

def endObject : Reader Unit := do
  if (← upcoming) = '\x7d' then advance else malformed

def members (value : Reader β) : Reader (List (String × β)) := do
  if (← upcoming) = '\x7b' then
    advance
    let found ← repeatStep (true, []) fun (first, found) => do
      match ← nextName first with
      | some name =>
        colon
        return .more (false, (name, ← value) :: found)
      | none => return .done found.reverse
    endObject
    return found
  else mismatch

end Objects

def run (reader : Reader β) (document : String) : Except ReadError β := do
  let (value, rest) ← StateT.run (do let value ← reader; skipBlanks; return value) document.toList
  if rest.isEmpty then return value else throw .malformed

end Reader
end ConicProgram.Json
