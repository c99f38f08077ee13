import ConicProgram.Optimizer.Engine

namespace ConicProgram

variable {α σ ω : Type} [Scalar α]

structure Branch (α : Type) where
  column : Nat
  value : α

namespace Branch

def fractionality (x : α) : α :=
  let above := x - Scalar.floor x
  let below := 1 - above
  if below < above then below else above

-- The parts of the box below and above the value, the nearer one first.
def children (b : Branch α) (box : List (Bounds α)) : List (List (Bounds α)) :=
  let down := box.modify b.column fun c => { c with upper := Scalar.floor b.value }
  let up := box.modify b.column fun c => { c with lower := Scalar.ceil b.value }
  if b.value - Scalar.floor b.value < 0.5 then [down, up] else [up, down]

def children? (b : Branch α) (box : List (Bounds α)) : Option (List (List (Bounds α))) := do
  guard (b.column < box.length)
  return b.children box

-- The one of two branches with the larger fractionality, and the later one of equals.
def further (best : Option (Branch α)) (b : Branch α) : Option (Branch α) :=
  match best with
  | none => some b
  | some best => if fractionality b.value < fractionality best.value then some best else some b

-- A split at the most fractional of the given columns, or nothing if all of them are integral.
def select? (x : List α) (discrete : List Nat) (tolerance : α) : Option (Option (Branch α)) := do
  let branches ← discrete.mapM fun j => return ⟨j, ← x[j]?⟩
  return (branches.filter fun b => tolerance < fractionality b.value).foldl further none

end Branch

structure Incumbent (α : Type) where
  objective : α
  point : List α

structure Search (α : Type) where
  pending : List (List (Bounds α))
  incumbent : Option (Incumbent α) := none
  nodes : Nat := 0
  complete : Bool := true

structure SearchResult (α : Type) where
  status : DiscreteStatus
  incumbent : Option (List α)
  nodes : Nat

namespace Search

def result (s : Search α) : SearchResult α where
  status := match s.incumbent, s.complete with
    | some _, true => .optimal
    | some _, false => .solution
    | none, true => .infeasible
    | none, false => .noSolutionFound
  incumbent := s.incumbent.map (·.point)
  nodes := s.nodes

-- Some column has no room between its bounds.
def isEmptyBox (box : List (Bounds α)) (tolerance : α) : Bool :=
  box.any fun b => b.upper + tolerance < b.lower

-- The relaxation promises nothing that is better than the incumbent by more than the gap.
def isBounded (s : Search α) (gap objective : α) : Bool :=
  s.incumbent.any fun best => best.objective - gap ≤ objective

def improves (s : Search α) (objective : α) : Bool :=
  s.incumbent.all fun best => objective < best.objective

def integralPoint? (m : Model α) (discrete : List Nat) (x : List α) : Option (List α) := do
  guard (m.columnCount ≤ x.length ∧ ∀ j ∈ discrete, j < m.columnCount)
  return discrete.foldl (fun x j => x.modify j Scalar.round) (x.take m.columnCount)

inductive Visit (α : Type) where
  | stop (status : DiscreteStatus)
  | go (search : Search α)

-- A solved relaxation: its node is bounded, split or integral.
def settle (m : Model α) (controls : Controls α) (discrete : List Nat) (box : List (Bounds α))
    (r : Relaxation α) (s : Search α) : Action α σ ω (OptimizerError α) (Visit α) := do
  if s.isBounded controls.gapAbsolute r.objective then
    return .go s
  else
    match ← Action.ofOption (Branch.select? r.primal discrete controls.integrality) with
    | some branch =>
      Action.record (.branched s.nodes branch.column branch.value)
      let children ← Action.ofOption (branch.children? box)
      return .go { s with pending := children ++ s.pending }
    | none =>
      let point ← Action.ofOption (integralPoint? m discrete r.primal)
      let objective ← Action.ofOption (m.objectiveAt? point)
      if s.improves objective then
        Action.record (.improved s.nodes objective)
        return .go { s with incumbent := some ⟨objective, point⟩ }
      else
        return .go s

-- A node is closed if its box is empty, if its relaxation is infeasible or no better than the
-- incumbent, or if the relaxed point is integral. One that can be neither closed nor split leaves
-- the search incomplete, and so does the limit on the number of nodes.
def visit (m : Model α) (engine : Engine α ω) (controls : Controls α) (discrete : List Nat)
    (box : List (Bounds α)) (s : Search α) : Action α σ ω (OptimizerError α) (Visit α) := do
  if isEmptyBox box controls.integrality then
    return .go s
  else
    let r ← m.relax engine controls box
    match r.outcome with
    | .solved => settle m controls discrete box r s
    | .infeasible => return .go s
    | outcome =>
      -- at the root there is nothing else to go on with
      if s.nodes = 1 then
        return .stop (if outcome = .unbounded then .unbounded else .rootUnsolved)
      else
        return .go { s with complete := false }

def explore (m : Model α) (engine : Engine α ω) (controls : Controls α) (discrete : List Nat) :
    (budget : Nat) → Search α → Action α σ ω (OptimizerError α) (SearchResult α)
  | 0, s =>
    match s.pending with
    | [] => return s.result
    | _ :: _ => return { s with complete := false }.result
  | budget + 1, s =>
    match s.pending with
    | [] => return s.result
    | box :: pending => do
      match ← visit m engine controls discrete box { s with pending, nodes := s.nodes + 1 } with
      | .stop status => return { status, incumbent := none, nodes := s.nodes + 1 }
      | .go s => explore m engine controls discrete budget s

end Search

namespace Model

def discreteColumns (m : Model α) : List Nat :=
  m.columns.zipIdx.filterMap fun (c, j) => if c.kind.isDiscrete then some j else none

def search (m : Model α) (engine : Engine α ω) (controls : Controls α) :
    Action α σ ω (OptimizerError α) (SearchResult α) :=
  Search.explore m engine controls m.discreteColumns controls.maxNodes.toNat
    { pending := [m.columnBounds] }

end Model
end ConicProgram
