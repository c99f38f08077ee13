namespace ConicProgram

-- The indices from `start` on that are below `stop`.
structure Span where
  start : Nat
  stop : Nat
deriving DecidableEq

namespace Span

def length (s : Span) : Nat :=
  s.stop - s.start

def isEmpty (s : Span) : Bool :=
  s.stop ≤ s.start

def toList (s : Span) : List Nat :=
  List.range' s.start s.length

instance : Membership Nat Span where
  mem s i := s.start ≤ i ∧ i < s.stop

instance (i : Nat) (s : Span) : Decidable (i ∈ s) :=
  inferInstanceAs (Decidable (_ ∧ _))

theorem mem_def {s : Span} {i : Nat} : i ∈ s ↔ s.start ≤ i ∧ i < s.stop :=
  Iff.rfl

theorem mem_toList {s : Span} {i : Nat} : i ∈ s.toList ↔ i ∈ s := by
  simp only [toList, length, List.mem_range'_1, mem_def]
  omega

section

variable {β : Type} {s : Span} {xs : List β}

-- The part of the list that the range cuts out. Also an empty range has to run forwards and to end
-- inside of the list.
def slice? (s : Span) (xs : List β) : Option (List β) :=
  if s.start ≤ s.stop ∧ s.stop ≤ xs.length then some ((xs.drop s.start).take s.length) else none

-- The members at the indices of the range, looked up one after the other. In an empty range there
-- is nothing to look up, wherever it lies.
def read? (s : Span) (xs : List β) : Option (List β) :=
  s.toList.mapM (xs[·]?)

theorem slice?_of_le (h : s.start ≤ s.stop) (hl : s.stop ≤ xs.length) :
    s.slice? xs = some ((xs.drop s.start).take s.length) :=
  if_pos ⟨h, hl⟩

end

end Span
end ConicProgram
