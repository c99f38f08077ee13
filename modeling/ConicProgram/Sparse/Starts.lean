namespace ConicProgram

inductive IndexError where
  | negative (position : Nat)
  | outOfRange (position index length : Nat)
deriving DecidableEq

namespace IndexError

def message : IndexError → String
  | negative position => s!"coordinate at position {position} is negative"
  | outOfRange position index length =>
    s!"coordinate {index} at position {position} exceeds axis length {length}"

end IndexError

namespace Starts

-- Indices fit a machine word of 64 bits. What does not fit is refused like a negative coordinate.
def wordSize : Nat := UInt64.size

def index (n : Nat) (position : Nat) (c : Int) : Except IndexError Nat :=
  if c < 0 ∨ (wordSize : Int) ≤ c then .error (.negative position)
  else if n ≤ c.toNat then .error (.outOfRange position c.toNat n)
  else .ok c.toNat

def consecutive (r : Nat → Nat → Bool) (xs : List Nat) : Bool :=
  (xs.zip xs.tail).all fun (x, y) => r x y

-- The start array has an entry for each position and one more, never falls and ends inside the
-- given number of entries.
def fits (starts : List Nat) (positions entries : Nat) : Bool :=
  starts.length == positions + 1 && consecutive (· ≤ ·) starts &&
    starts[positions]?.any (· ≤ entries)

def runningTotals (t : Nat) : List Nat → List Nat
  | [] => [t]
  | c :: cs => t :: runningTotals (t + c) cs

theorem length_runningTotals (t : Nat) (cs : List Nat) :
    (runningTotals t cs).length = cs.length + 1 := by
  induction cs generalizing t with
  | nil => rfl
  | cons c cs ih => simp [runningTotals, ih]

-- The entry at `i` counts the coordinates below `i`. Once the coordinates are grouped, those at `i`
-- lie between the entries at `i` and `i + 1`.
def ofCoordinates (coords : List Int) (n : Nat) : Except IndexError (List Nat) := do
  let indices ← coords.zipIdx.mapM fun (c, position) => index n position c
  return runningTotals 0 ((List.range n).map indices.count)

end Starts
end ConicProgram
