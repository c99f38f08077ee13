import ConicProgram.Json.Reader

namespace ConicProgram.Json

inductive Presence where
  -- Never.
  | required
  -- From an object, where that means the same as `null`.
  | nullable
  -- From an object, and from the end of an array.
  | defaulted
deriving DecidableEq

structure RecordField (σ : Type) where
  name : String
  presence : Presence
  read : σ → Reader σ

namespace Reader

variable {σ β : Type}

def fieldsInOrder (first : Bool) : List (RecordField σ) → σ → Reader σ
  | [], record => return record
  | field :: fields, record => do
    if ← hasItem first then fieldsInOrder false fields (← field.read record)
    else if field.presence = .defaulted then fieldsInOrder first fields record
    else malformed

structure Partial (σ : Type) where
  first : Bool
  seen : List String
  record : σ

def nextField (fields : List (RecordField σ)) (p : Partial σ) : Reader (Step (Partial σ) σ) := do
  match ← nextName p.first with
  | some name =>
    match fields.find? (·.name == name) with
    | some field =>
      if p.seen.contains name then malformed
      else
        colon
        return .more ⟨false, name :: p.seen, ← field.read p.record⟩
    | none =>
      colon
      skipValue
      return .more { p with first := false }
  | none =>
    if fields.all fun f => f.presence != .required || p.seen.contains f.name then
      return .done p.record
    else malformed

-- A record, from one in which every field has the value that stands for a missing one.
def record (fields : List (RecordField σ)) (blank : σ) : Reader σ := do
  match ← upcoming with
  | '[' =>
    advance
    let r ← fieldsInOrder true fields blank
    endArray
    return r
  | '\x7b' =>
    advance
    let r ← repeatStep ⟨true, [], blank⟩ (nextField fields)
    endObject
    return r
  | _ => mismatch

def named (names : List (String × β)) (name : String) : Reader β :=
  match names.lookup name with
  | some value => return value
  | none => malformed

-- One of several values in an object whose only member has the value's name and is `null`.
def nameInObject (names : List (String × β)) : Reader β := do
  if (← upcoming) = '\x7b' then
    advance
    let value ← named names (← text)
    colon
    null
    endObject
    return value
  else malformed

def name (names : List (String × β)) : Reader β := do
  if (← upcoming) = '"' then named names (← text) else nameInObject names

end Reader

structure Form (β : Type) where
  write : β → List Char
  read : Reader β

namespace Form

variable {β : Type}

def text (form : Form β) (value : β) : String :=
  String.ofList (form.write value)

def parse (form : Form β) (document : String) : Except ReadError β :=
  form.read.run document

end Form
end ConicProgram.Json
