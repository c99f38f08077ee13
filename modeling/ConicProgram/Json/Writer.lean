import ConicProgram.Decimal.Layout

namespace ConicProgram.Json

abbrev Chars := List Char

def writeNull : Chars :=
  ['n', 'u', 'l', 'l']

def writeBool : Bool → Chars
  | true => ['t', 'r', 'u', 'e']
  | false => ['f', 'a', 'l', 's', 'e']

def writeNat (n : Nat) : Chars :=
  Nat.toDigits 10 n

def writeInt (i : Int) : Chars :=
  if i < 0 then '-' :: writeNat i.natAbs else writeNat i.natAbs

-- A number that is not finite has no text of its own.
def writeFloat (x : Float) : Chars :=
  if x.isFinite then Decimal.Layout.document.float x else writeNull

def escape (c : Char) : Chars :=
  match c with
  | '"' => ['\\', '"']
  | '\\' => ['\\', '\\']
  | '\x08' => ['\\', 'b']
  | '\x0c' => ['\\', 'f']
  | '\n' => ['\\', 'n']
  | '\r' => ['\\', 'r']
  | '\t' => ['\\', 't']
  | c =>
    if c.toNat < 0x20 then
      ['\\', 'u', '0', '0', Nat.digitChar (c.toNat / 16), Nat.digitChar (c.toNat % 16)]
    else [c]

def writeString (s : String) : Chars :=
  '"' :: s.toList.flatMap escape ++ ['"']

def writeOption {β : Type} (write : β → Chars) : Option β → Chars
  | none => writeNull
  | some b => write b

def listed : List Chars → Chars
  | [] => []
  | [item] => item
  | item :: items => item ++ ',' :: listed items

def writeArray {β : Type} (write : β → Chars) (items : List β) : Chars :=
  '[' :: listed (items.map write) ++ [']']

def writeObject (members : List (String × Chars)) : Chars :=
  '\x7b' :: listed (members.map fun (name, value) => writeString name ++ ':' :: value) ++ ['\x7d']

end ConicProgram.Json
