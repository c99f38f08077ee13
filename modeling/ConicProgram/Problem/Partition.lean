import ConicProgram.Span

namespace ConicProgram

-- Consecutive rows that lie in a second-order cone. One row alone has to be nonnegative.
structure ConeBlock where
  index : Nat
  start : Nat
  size : Nat
deriving DecidableEq

namespace ConeBlock

def rows (b : ConeBlock) : Span :=
  ⟨b.start, b.start + b.size⟩

def sequence (index start : Nat) : List Nat → List ConeBlock
  | [] => []
  | size :: sizes => ⟨index, start, size⟩ :: sequence (index + 1) (start + size) sizes

end ConeBlock

structure Partition where
  equalities : Nat
  inequalities : Nat
  cones : List Nat
deriving DecidableEq

namespace Partition

def linearRows (p : Partition) : Nat :=
  p.equalities + p.inequalities

def totalRows (p : Partition) : Nat :=
  p.linearRows + p.cones.foldr (· + ·) 0

def blocks (p : Partition) : List ConeBlock :=
  ConeBlock.sequence 0 p.linearRows p.cones

end Partition
end ConicProgram
