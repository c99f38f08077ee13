import ConicProgram.Json.Record
import ConicProgram.Json.Writer
import ConicProgram.Problem.Basic

namespace ConicProgram

open Json

def SparseMatrix.fields : List (RecordField (SparseMatrix Float)) :=
  [{ name := "m", presence := .required, read := fun a => return { a with rows := ← .index } },
    { name := "n", presence := .required, read := fun a => return { a with cols := ← .index } },
    { name := "colptr", presence := .required
      read := fun a => return { a with starts := ← .list .index } },
    { name := "rowval", presence := .required
      read := fun a => return { a with rowIndices := ← .list .index } },
    { name := "nzval", presence := .required
      read := fun a => return { a with values := ← .list .float } }]

def SparseMatrix.form : Form (SparseMatrix Float) where
  write a := writeObject
    [("m", writeNat a.rows), ("n", writeNat a.cols), ("colptr", writeArray writeNat a.starts),
      ("rowval", writeArray writeNat a.rowIndices), ("nzval", writeArray writeFloat a.values)]
  read := .record fields ⟨0, 0, [], [], []⟩

def Partition.fields : List (RecordField Partition) :=
  [{ name := "eq", presence := .required
     read := fun p => return { p with equalities := ← .index } },
    { name := "leq", presence := .required
      read := fun p => return { p with inequalities := ← .index } },
    { name := "soc", presence := .required
      read := fun p => return { p with cones := ← .list .index } }]

def Partition.form : Form Partition where
  write p := writeObject
    [("eq", writeNat p.equalities), ("leq", writeNat p.inequalities),
      ("soc", writeArray writeNat p.cones)]
  read := .record fields ⟨0, 0, []⟩

def Parameters.fields : List (RecordField Parameters) :=
  [{ name := "objective", presence := .defaulted
     read := fun p => return { p with objective := ← .bool } },
    { name := "constraints", presence := .defaulted
      read := fun p => return { p with constraints := ← .bool } }]

def Parameters.form : Form Parameters where
  write p := writeObject
    [("objective", writeBool p.objective), ("constraints", writeBool p.constraints)]
  read := .record fields {}

namespace Problem

def fields : List (RecordField (Problem Float)) :=
  [{ name := "c", presence := .required
     read := fun p => return { p with objective := ← .list .float } },
    { name := "A", presence := .required
      read := fun p => return { p with matrix := ← SparseMatrix.form.read } },
    { name := "b", presence := .required
      read := fun p => return { p with rhs := ← .list .float } },
    { name := "dims", presence := .required
      read := fun p => return { p with partition := ← Partition.form.read } },
    { name := "bool_idx", presence := .defaulted
      read := fun p => return { p with booleans := ← .list .index } },
    { name := "int_idx", presence := .defaulted
      read := fun p => return { p with integers := ← .list .index } },
    { name := "params", presence := .defaulted
      read := fun p => return { p with parameters := ← Parameters.form.read } }]

def form : Form (Problem Float) where
  write p := writeObject
    [("c", writeArray writeFloat p.objective), ("A", SparseMatrix.form.write p.matrix),
      ("b", writeArray writeFloat p.rhs), ("dims", Partition.form.write p.partition),
      ("bool_idx", writeArray writeNat p.booleans), ("int_idx", writeArray writeNat p.integers),
      ("params", Parameters.form.write p.parameters)]
  read := .record fields ⟨[], ⟨0, 0, [], [], []⟩, [], ⟨0, 0, []⟩, [], [], {}⟩

inductive DocumentError where
  | notText
  | unreadable (cause : ReadError)
  | invalid (cause : ProblemError)
deriving DecidableEq

def ofDocument (document : String) : Except DocumentError (Problem Float) :=
  match form.parse document with
  | .error cause => .error (.unreadable cause)
  | .ok p =>
    match p.validate with
    | .error cause => .error (.invalid cause)
    | .ok () => .ok p

def ofBytes (bytes : ByteArray) : Except DocumentError (Problem Float) :=
  match String.fromUTF8? bytes with
  | some document => ofDocument document
  | none => .error .notText

def toDocument (p : Problem Float) : String :=
  form.text p

end Problem
end ConicProgram
