namespace ConicProgram

-- Equal maps have equal entries, so the order in which a map is written out is that of its keys.
structure OrderedMap (κ ν : Type) [Ord κ] where
  entries : List (κ × ν) := []
  increasing : entries.Pairwise (fun a b => compare a.1 b.1 = .lt) := by simp

namespace OrderedMap

section Entries

variable {κ ν : Type} [Ord κ]

def put (k : κ) (v : ν) : List (κ × ν) → List (κ × ν)
  | [] => [(k, v)]
  | e :: es =>
    match compare k e.1 with
    | .lt => (k, v) :: e :: es
    | .eq => (k, v) :: es
    | .gt => e :: put k v es

theorem eq_or_mem_of_mem_put {k : κ} {v : ν} {es : List (κ × ν)} {x : κ × ν}
    (h : x ∈ put k v es) : x = (k, v) ∨ x ∈ es := by
  induction es with
  | nil => simpa [put] using h
  | cons e es ih =>
    rw [put] at h
    split at h
    · simpa using h
    · rcases List.mem_cons.1 h with h | h
      · exact .inl h
      · exact .inr (List.mem_cons_of_mem _ h)
    · rcases List.mem_cons.1 h with h | h
      · exact .inr (h ▸ List.mem_cons_self ..)
      · exact (ih h).imp id (List.mem_cons_of_mem _)

variable [Std.TransOrd κ]

theorem increasing_put {k : κ} {v : ν} {es : List (κ × ν)}
    (h : es.Pairwise (fun a b => compare a.1 b.1 = .lt)) :
    (put k v es).Pairwise (fun a b => compare a.1 b.1 = .lt) := by
  induction es with
  | nil => simp [put]
  | cons e es ih =>
    have ⟨he, hes⟩ := List.pairwise_cons.1 h
    rw [put]
    split
    case _ hk =>
      refine List.pairwise_cons.2 ⟨fun x hx => ?_, h⟩
      rcases List.mem_cons.1 hx with rfl | hx
      · exact hk
      · exact Std.TransCmp.lt_trans hk (he x hx)
    case _ hk =>
      exact List.pairwise_cons.2 ⟨fun x hx => Std.TransCmp.lt_of_eq_of_lt hk (he x hx), hes⟩
    case _ hk =>
      refine List.pairwise_cons.2 ⟨fun x hx => ?_, ih hes⟩
      rcases eq_or_mem_of_mem_put hx with rfl | hx
      · exact Std.OrientedCmp.gt_iff_lt.1 hk
      · exact he x hx

end Entries

variable {κ ν : Type} [Ord κ]

def empty : OrderedMap κ ν where

instance : Inhabited (OrderedMap κ ν) := ⟨empty⟩

instance [BEq κ] [BEq ν] : BEq (OrderedMap κ ν) where
  beq m n := m.entries == n.entries

@[ext]
theorem ext {m n : OrderedMap κ ν} (h : m.entries = n.entries) : m = n := by
  cases m; cases n; simp_all

def get? (m : OrderedMap κ ν) (k : κ) : Option ν :=
  (m.entries.find? fun e => compare k e.1 == .eq).map (·.2)

def contains (m : OrderedMap κ ν) (k : κ) : Bool :=
  (m.get? k).isSome

def size (m : OrderedMap κ ν) : Nat :=
  m.entries.length

def isEmpty (m : OrderedMap κ ν) : Bool :=
  m.entries.isEmpty

def erase (m : OrderedMap κ ν) (k : κ) : OrderedMap κ ν where
  entries := m.entries.filter fun e => compare k e.1 != .eq
  increasing := m.increasing.filter _

variable [Std.TransOrd κ]

def insert (m : OrderedMap κ ν) (k : κ) (v : ν) : OrderedMap κ ν where
  entries := put k v m.entries
  increasing := increasing_put m.increasing

-- Later entries replace earlier ones of the same key.
def ofList (es : List (κ × ν)) : OrderedMap κ ν :=
  es.foldl (fun m e => m.insert e.1 e.2) empty

end OrderedMap
end ConicProgram
