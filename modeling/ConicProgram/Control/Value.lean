import ConicProgram.Decimal.Layout
import ConicProgram.Scalar
import ConicProgram.Text.Quoted

namespace ConicProgram

inductive ControlValue (α : Type) where
  | flag (b : Bool)
  | int (i : Int64)
  | real (x : α)
  | text (s : String)
deriving BEq

namespace ControlValue

variable {α : Type}

def asFlag : ControlValue α → Option Bool
  | flag b => some b
  | int i => some (i != 0)
  | real _ | text _ => none

def asCount : ControlValue α → Option UInt32
  | int i =>
    if 0 ≤ i.toInt ∧ i.toInt < UInt32.size then some (UInt32.ofNat i.toInt.toNat) else none
  | flag _ | real _ | text _ => none

def asNumber [Scalar α] : ControlValue α → Option α
  | int i => some (Scalar.ofInt i.toInt)
  | real x => some x
  | flag _ | text _ => none

def describe : ControlValue Float → String
  | flag b => if b then "Bool(true)" else "Bool(false)"
  | int i => s!"Int({i.toInt})"
  | real x => "Float(" ++ String.ofList (Decimal.Layout.pointed.float x) ++ ")"
  | text s => "Text(" ++ Text.quoted s ++ ")"

end ControlValue
end ConicProgram
