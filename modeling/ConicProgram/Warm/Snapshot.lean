import ConicProgram.Loading.Cold
import ConicProgram.OrderedMap

namespace ConicProgram

structure Snapshot (α σ : Type) where
  held : Instance σ
  objective : List α
  matrix : SparseMatrix α
  rhs : List α
  partition : Partition
  -- The kinds of the columns as the optimizer had them when the snapshot was taken.
  kinds : List ColumnKind
  version : Nat

-- The latest snapshot under each name. Versions count the snapshots that were stored.
structure Cache (α σ : Type) where
  entries : OrderedMap String (Snapshot α σ) := .empty
  version : Nat := 0

namespace Cache

variable {α σ ω : Type}

def get? (c : Cache α σ) (name : String) : Option (Snapshot α σ) :=
  c.entries.get? name

def erase (c : Cache α σ) (name : String) : Cache α σ :=
  { c with entries := c.entries.erase name }

def restore (c : Cache α σ) (name : String) (s : Snapshot α σ) : Cache α σ :=
  { c with entries := c.entries.insert name s }

def store (c : Cache α σ) (opt : Optimizer α σ ω) (name : String) (held : Instance σ)
    (p : Problem α) : Cache α σ :=
  let version := c.version + 1
  let snapshot : Snapshot α σ := {
    held
    objective := p.objective
    matrix := p.matrix
    rhs := p.rhs
    partition := p.partition
    kinds := opt.kinds held.optimizer
    version }
  { entries := c.entries.insert name snapshot, version }

def clear (c : Cache α σ) : Cache α σ :=
  { c with entries := .empty }

end Cache
end ConicProgram
