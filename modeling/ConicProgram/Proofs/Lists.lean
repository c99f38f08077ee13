import Mathlib.Data.List.Basic
import Mathlib.Data.List.Forall2
import Mathlib.Logic.Function.Iterate

namespace ConicProgram.Lists

variable {ε β γ δ : Type}

theorem mapM_eq_some_iff {f : β → Option γ} {xs : List β} {ys : List γ} :
    xs.mapM f = some ys ↔ xs.map f = ys.map some := by
  induction xs generalizing ys
  case nil => cases ys <;> simp
  case cons x xs hi => cases ys <;> simp [Option.bind_eq_some_iff, hi]

theorem mapM_eq_some_of_forall {f : β → Option γ} {g : β → γ} {xs : List β}
    (h : ∀ x ∈ xs, f x = some (g x)) : xs.mapM f = some (xs.map g) := by
  simpa [mapM_eq_some_iff] using h

theorem allM_eq_some_of_forall {f : β → Option Bool} {g : β → Bool} {xs : List β}
    (h : ∀ x ∈ xs, f x = some (g x)) : xs.allM f = some (xs.all g) := by
  induction xs
  case nil => rfl
  case cons x xs hi =>
    have ⟨hx, hxs⟩ := List.forall_mem_cons.mp h
    rw [List.allM, hx, List.all_cons]
    cases g x
    case false => rfl
    case true => exact hi hxs

theorem mapM_eq_ok_iff {f : β → Except ε γ} {xs : List β} {ys : List γ} :
    xs.mapM f = .ok ys ↔ xs.map f = ys.map .ok := by
  induction xs generalizing ys
  case nil => cases ys <;> simp [pure, Except.pure]
  case cons x xs hi =>
    rw [List.mapM_cons]
    cases hx : f x
    case error => cases ys <;> simp [bind, Except.bind, hx]
    case ok y =>
      cases hxs : xs.mapM f <;> cases ys <;>
        simp [bind, Except.bind, pure, Except.pure, ← hi, hxs, hx]

theorem exists_of_mapM_eq_error {f : β → Except ε γ} {xs : List β} {e : ε}
    (h : xs.mapM f = .error e) : ∃ x ∈ xs, f x = .error e := by
  induction xs
  case nil => cases h
  case cons x xs hi =>
    rw [List.mapM_cons] at h
    cases hx : f x
    case error e' =>
      rw [hx] at h
      cases h
      exact ⟨x, List.mem_cons_self .., hx⟩
    case ok y =>
      rw [hx] at h
      cases hxs : xs.mapM f
      case error e' =>
        rw [hxs] at h
        cases h
        have ⟨z, hz, he⟩ := hi hxs
        exact ⟨z, List.mem_cons_of_mem _ hz, he⟩
      case ok ys =>
        rw [hxs] at h
        cases h

theorem mapM_ite {p : β → Prop} [DecidablePred p] {e : ε} {xs : List β} :
    xs.mapM (fun x => if p x then Except.ok x else .error e) =
      if ∀ x ∈ xs, p x then Except.ok xs else .error e := by
  split
  case isTrue h => exact mapM_eq_ok_iff.mpr (List.map_congr_left fun x hx => if_pos (h x hx))
  case isFalse h =>
    induction xs
    case nil => exact absurd nofun h
    case cons x xs hi =>
      rw [List.mapM_cons]
      by_cases hx : p x
      case neg =>
        rw [if_neg hx]
        rfl
      case pos =>
        rw [if_pos hx, hi fun hxs => h (List.forall_mem_cons.mpr ⟨hx, hxs⟩)]
        rfl

theorem filterMapM_map_eq_some {f : γ → Option (Option δ)} {h : β → γ} {g : β → Option δ}
    {xs : List β} (hf : ∀ x ∈ xs, f (h x) = some (g x)) :
    (xs.map h).filterMapM f = some (xs.filterMap g) := by
  induction xs
  case nil => rfl
  case cons x xs hi =>
    have hx := hf x (List.mem_cons_self ..)
    have hi := hi fun y hy => hf y (List.mem_cons_of_mem _ hy)
    cases hg : g x <;> simp [List.filterMapM_cons, hx, hg, hi]

-- A fold whose steps all have a result, as long as something holds that each of them keeps.
theorem foldlM_eq_pure {m : Type → Type} [Monad m] [LawfulMonad m] {f : γ → β → m γ}
    {g : γ → β → γ} {xs : List β} {c : γ} {p : γ → Prop} (hc : p c)
    (h : ∀ x ∈ xs, ∀ c, p c → f c x = pure (g c x) ∧ p (g c x)) :
    xs.foldlM f c = pure (xs.foldl g c) ∧ p (xs.foldl g c) := by
  induction xs generalizing c
  case nil => exact ⟨rfl, hc⟩
  case cons x xs hi =>
    have ⟨hx, hp⟩ := h x (List.mem_cons_self ..) c hc
    rw [List.foldlM_cons, hx, pure_bind]
    exact hi hp fun y hy => h y (List.mem_cons_of_mem _ hy)

-- Either all members are as they should be, or there is a first one that is not.
theorem forall_or_exists_first (p : β → Prop) [DecidablePred p] (xs : List β) :
    (∀ x ∈ xs, p x) ∨
      ∃ before x after, xs = before ++ x :: after ∧ (∀ y ∈ before, p y) ∧ ¬p x := by
  cases h : xs.find? (¬p ·)
  case none => exact .inl (by simpa using h)
  case some x =>
    have ⟨hx, before, after, hxs, hb⟩ := List.find?_eq_some_iff_append.mp h
    exact .inr ⟨before, x, after, hxs, by simpa using hb, by simpa using hx⟩

theorem forM_eq_ok_iff {f : β → Except ε Unit} {xs : List β} :
    xs.forM f = .ok () ↔ ∀ x ∈ xs, f x = .ok () := by
  induction xs
  case nil => exact ⟨fun _ => nofun, fun _ => rfl⟩
  case cons x xs hi =>
    show (f x >>= fun _ => xs.forM f) = .ok () ↔ _
    rw [List.forall_mem_cons, ← hi]
    cases f x <;> simp [bind, Except.bind]

theorem length_foldl_modify {f : β → β} (js : List Nat) (xs : List β) :
    (js.foldl (fun xs j => xs.modify j f) xs).length = xs.length := by
  induction js generalizing xs
  case nil => rfl
  case cons j js hi => rw [List.foldl_cons, hi, List.length_modify]

-- Each member is changed as often as its index is named.
theorem getElem?_foldl_modify (f : β → β) (js : List Nat) (xs : List β) (k : Nat) :
    (js.foldl (fun xs j => xs.modify j f) xs)[k]? = xs[k]?.map (f^[js.count k]) := by
  induction js generalizing xs
  case nil => simp
  case cons j js hi =>
    rw [List.foldl_cons, hi, List.getElem?_modify, List.count_cons]
    by_cases hj : j = k <;> cases xs[k]? <;> simp [hj]

-- The indices of a list are traversed like its members.
theorem map_range_length {f : Nat → γ} {g : β → Nat → γ} {xs : List β}
    (h : ∀ j x, xs[j]? = some x → f j = g x j) :
    (List.range xs.length).map f = xs.zipIdx.map fun (x, j) => g x j := by
  rw [List.range_eq_range', ← List.zipIdx_map_snd 0 xs, List.map_map]
  refine List.map_congr_left fun (x, j) hx => h j x ?_
  exact List.mem_zipIdx_iff_getElem?.mp hx

theorem map_range_length_eq_map {f : Nat → γ} {g : β → γ} {xs : List β}
    (h : ∀ j x, xs[j]? = some x → f j = g x) : (List.range xs.length).map f = xs.map g := by
  rw [map_range_length (g := fun x _ => g x) h]
  conv_rhs => rw [← List.zipIdx_map_fst 0 xs, List.map_map]
  rfl

theorem eq_map_of_getElem? {f : β → γ} {xs : List β} {ys : List γ} (hl : ys.length = xs.length)
    (h : ∀ (i : Nat) x, xs[i]? = some x → ys[i]? = some (f x)) : ys = xs.map f := by
  refine List.ext_getElem (by rw [hl, List.length_map]) fun i hi hi' => ?_
  have hx := h i _ (List.getElem?_eq_getElem (hl ▸ hi))
  rw [List.getElem_map]
  exact (List.getElem?_eq_some_iff.mp hx).2

theorem zip_fst_snd (xs : List (β × γ)) : (xs.map (·.1)).zip (xs.map (·.2)) = xs := by
  induction xs <;> simp_all

theorem forall₂_iff_getElem? {R : β → γ → Prop} {xs : List β} {ys : List γ} :
    List.Forall₂ R xs ys ↔
      xs.length = ys.length ∧ ∀ (i : Nat) x y, xs[i]? = some x → ys[i]? = some y → R x y := by
  rw [List.forall₂_iff_get]
  refine and_congr_right fun _ => ⟨fun h i x y hx hy => ?_, fun h i hx hy => ?_⟩
  · have ⟨hx, hx'⟩ := List.getElem?_eq_some_iff.mp hx
    have ⟨hy, hy'⟩ := List.getElem?_eq_some_iff.mp hy
    exact hx' ▸ hy' ▸ h i hx hy
  · exact h i _ _ (List.getElem?_eq_getElem hx) (List.getElem?_eq_getElem hy)

-- At each index both lists have members, which are related, or neither list has one.
theorem getElem?_of_forall₂ {R : β → γ → Prop} {xs : List β} {ys : List γ}
    (h : List.Forall₂ R xs ys) (i : Nat) :
    (xs[i]? = none ∧ ys[i]? = none) ∨ ∃ x y, xs[i]? = some x ∧ ys[i]? = some y ∧ R x y := by
  have ⟨hl, h⟩ := forall₂_iff_getElem?.mp h
  by_cases hi : i < xs.length
  case pos =>
    have hx := List.getElem?_eq_getElem hi
    have hy := List.getElem?_eq_getElem (hl ▸ hi)
    exact .inr ⟨_, _, hx, hy, h i _ _ hx hy⟩
  case neg =>
    have hi := Nat.not_lt.mp hi
    exact .inl ⟨List.getElem?_eq_none hi, List.getElem?_eq_none (hl ▸ hi)⟩

-- The members of related lists may be related in another way as well.
theorem forall₂_imp_of_mem {R S : β → γ → Prop} {xs : List β} {ys : List γ}
    (h : List.Forall₂ R xs ys) (hs : ∀ x ∈ xs, ∀ y ∈ ys, R x y → S x y) : List.Forall₂ S xs ys := by
  have ⟨hl, h⟩ := forall₂_iff_getElem?.mp h
  refine forall₂_iff_getElem?.mpr ⟨hl, fun i x y hx hy => ?_⟩
  exact hs x (List.mem_of_getElem? hx) y (List.mem_of_getElem? hy) (h i x y hx hy)

theorem forall₂_trans {R : β → β → Prop} (hR : ∀ x y z, R x y → R y z → R x z)
    {xs ys zs : List β} (h₁ : List.Forall₂ R xs ys) (h₂ : List.Forall₂ R ys zs) :
    List.Forall₂ R xs zs := by
  induction h₁ generalizing zs
  case nil => exact h₂
  case cons x y _ _ hxy _ hi =>
    cases h₂
    case cons z _ hyz h => exact .cons (hR x y z hxy hyz) (hi h)

theorem forall₂_symm {R : β → β → Prop} (hR : ∀ x y, R x y → R y x) {xs ys : List β}
    (h : List.Forall₂ R xs ys) : List.Forall₂ R ys xs :=
  (h.imp hR).flip

theorem forall₂_append_iff {R : β → γ → Prop} {xs xs' : List β} {ys ys' : List γ}
    (h : xs.length = ys.length) :
    List.Forall₂ R (xs ++ xs') (ys ++ ys') ↔ List.Forall₂ R xs ys ∧ List.Forall₂ R xs' ys' := by
  induction xs generalizing ys
  case nil => cases ys <;> simp_all
  case cons x xs hi =>
    cases ys
    case nil => simp at h
    case cons y ys => simp [hi (Nat.succ.inj h), and_assoc]

-- What is read off the members stays if the change keeps it, or if another member is changed.
theorem map_getElem?_modify {f : β → β} {g : β → γ} {xs : List β} {i k : Nat}
    (h : i = k → ∀ x, g (f x) = g x) : (xs.modify i f)[k]?.map g = xs[k]?.map g := by
  rw [List.getElem?_modify]
  cases xs[k]?
  case none => rfl
  case some x => by_cases hi : i = k <;> simp [hi, h]

-- A member is one of before or the changed one.
theorem mem_modify {f : β → β} {xs : List β} {i : Nat} {y : β} (h : y ∈ xs.modify i f) :
    y ∈ xs ∨ ∃ x ∈ xs, f x = y := by
  obtain ⟨k, hk⟩ := List.mem_iff_getElem?.mp h
  rw [List.getElem?_modify] at hk
  obtain ⟨x, hx, hy⟩ := Option.map_eq_some_iff.mp hk
  have hx := List.mem_of_getElem? hx
  split at hy
  case isTrue => exact .inr ⟨x, hx, hy⟩
  case isFalse => exact .inl (hy ▸ hx)

theorem map_modify_eq {f : β → β} {g : β → γ} (h : ∀ x, g (f x) = g x) (xs : List β) (i : Nat) :
    (xs.modify i f).map g = xs.map g := by
  refine List.ext_getElem? fun j => ?_
  rw [List.getElem?_map, List.getElem?_map, map_getElem?_modify fun _ => h]

-- The part of a list that begins at an index, index by index.
theorem take_drop_eq_map {xs : List β} {first count : Nat} (d : β)
    (h : first + count ≤ xs.length) :
    (xs.drop first).take count = (List.range' first count).map (xs.getD · d) := by
  refine List.ext_getElem? fun k => ?_
  rw [List.getElem?_map, List.getElem?_take, List.getElem?_drop]
  by_cases hk : k < count
  case pos =>
    have hx : first + k < xs.length := by omega
    simp [hk, hx]
  case neg => simp [hk]

theorem mem_filterMap_zipIdx_zip {f : (β × β) × Nat → Option γ} {old new : List β} {c : γ} :
    c ∈ (old.zip new).zipIdx.filterMap f ↔
      ∃ (i : Nat) (x y : β), old[i]? = some x ∧ new[i]? = some y ∧ f ((x, y), i) = some c := by
  simp only [List.mem_filterMap, Prod.exists, List.mk_mem_zipIdx_iff_getElem?,
    List.getElem?_zip_eq_some]
  exact ⟨fun ⟨x, y, i, ⟨hx, hy⟩, h⟩ => ⟨i, x, y, hx, hy, h⟩,
    fun ⟨i, x, y, hx, hy, h⟩ => ⟨x, y, i, ⟨hx, hy⟩, h⟩⟩

theorem pairwise_zipIdx (xs : List β) : xs.zipIdx.Pairwise (·.2 < ·.2) := by
  rw [← List.pairwise_map, List.zipIdx_map_snd]
  exact List.pairwise_lt_range'

-- What is made of the members in their order is ordered if each result knows its index.
theorem pairwise_filterMap_zipIdx {f : β × Nat → Option γ} {index : γ → Nat} {xs : List β}
    (h : ∀ x i c, f (x, i) = some c → index c = i) :
    (xs.zipIdx.filterMap f).Pairwise (index · < index ·) := by
  refine (pairwise_zipIdx xs).filterMap _ fun (x, i) (y, k) hik c hc d hd => ?_
  rw [h x i c hc, h y k d hd]
  exact hik

theorem range_append {k n : Nat} (h : k ≤ n) :
    List.range k ++ List.range' k (n - k) = List.range n := by
  have ha := List.range'_append_1 (s := 0) (m := k) (n := n - k)
  rwa [Nat.zero_add, Nat.add_sub_cancel' h, ← List.range_eq_range', ← List.range_eq_range'] at ha

-- In the order of a key the members of the last key stand behind all others.
theorem filter_lt_append_filter_eq {key : β → Nat} {xs : List β} {n : Nat}
    (h : xs.Pairwise fun x y => key x ≤ key y) (hn : ∀ x ∈ xs, key x < n + 1) :
    xs.filter (key · < n) ++ xs.filter (key · = n) = xs := by
  induction xs
  case nil => rfl
  case cons x xs hi =>
    have ⟨hle, h⟩ := List.pairwise_cons.mp h
    have ⟨hx, hn⟩ := List.forall_mem_cons.mp hn
    have hxs := hi h hn
    by_cases hk : key x < n
    case pos =>
      have hne : key x ≠ n := Nat.ne_of_lt hk
      simp [hk, hne, hxs]
    case neg =>
      have hkn : key x = n := Nat.eq_of_lt_succ_of_not_lt hx hk
      have hf : xs.filter (key · < n) = [] := by
        refine List.filter_eq_nil_iff.mpr fun y hy => ?_
        have hy := hle y hy
        simpa [hkn] using hy
      rw [hf, List.nil_append] at hxs
      simp [hkn, hf, hxs]

-- A list in the order of a key is put together from the members of each key.
theorem flatMap_filter_eq {key : β → Nat} {xs : List β} {n : Nat}
    (h : xs.Pairwise fun x y => key x ≤ key y) (hn : ∀ x ∈ xs, key x < n) :
    ((List.range n).flatMap fun k => xs.filter (key · = k)) = xs := by
  induction n generalizing xs
  case zero =>
    cases xs
    case nil => rfl
    case cons x xs => exact absurd (hn x (List.mem_cons_self ..)) (Nat.not_lt_zero _)
  case succ n hi =>
    have hs := filter_lt_append_filter_eq h hn
    have hlow := hi (h.filter (key · < n)) fun x hx => by simpa using (List.mem_filter.mp hx).2
    rw [List.range_succ, List.flatMap_append, List.flatMap_singleton]
    conv_rhs => rw [← hs, ← hlow]
    congr 1
    refine List.flatMap_congr fun k hk => ?_
    have hk := List.mem_range.mp hk
    rw [List.filter_filter]
    refine List.filter_congr fun x _ => ?_
    by_cases hx : key x = k <;> simp [hx, hk]

end ConicProgram.Lists
