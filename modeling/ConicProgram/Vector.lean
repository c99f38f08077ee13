import ConicProgram.Scalar

namespace ConicProgram.Vector

variable {α : Type} [Scalar α]

def total (x : List α) : α :=
  x.foldl (· + ·) 0

def dot? (x y : List α) : Option α :=
  if x.length = y.length then
    some ((x.zip y).foldl (fun acc (a, b) => acc + a * b) 0)
  else none

def distance? (x y : List Float) : Option Float :=
  if x.length = y.length then
    let squares := (x.zip y).foldl (fun acc (a, b) => acc + (a - b) * (a - b)) 0
    some squares.sqrt
  else none

end ConicProgram.Vector
