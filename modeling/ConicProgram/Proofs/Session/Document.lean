import ConicProgram.Proofs.Json.Numbers
import ConicProgram.Proofs.Json.Records
import ConicProgram.Proofs.Optimizer.Ranges
import ConicProgram.Proofs.OrderedMap
import ConicProgram.Session.Document

namespace ConicProgram

open Json

namespace ControlValue

variable {v : ControlValue Float} {t : Chars} {c : Char}

-- The float that the value holds, if it is one.
def reals : ControlValue Float → List Float
  | .real x => [x]
  | .flag _ | .int _ | .text _ => []

theorem ofNumber_whole (i : Int64) : ofNumber (.whole i.toInt) = .int i := by
  have h : i.toInt ≤ Int64.maxValue.toInt := by
    have := i.toInt_lt
    have : Int64.maxValue.toInt = 2 ^ 63 - 1 := by decide
    omega
  rw [ofNumber, if_pos h, Int64.ofInt_toInt]

-- What begins neither like a flag nor like a text is read as a number.
theorem on_read (hb : Reader.isBlank c = false) (hc : c ≠ 't' ∧ c ≠ 'f' ∧ c ≠ '"') :
    form.read.on (c :: t) = (do return ofNumber (← .anyNumber) : Reader _).on (c :: t) := by
  have ⟨ht, hf, hq⟩ := hc
  refine (Reader.on_bind_of_ok (Reader.on_upcoming hb)).trans ?_
  split
  case h_1 => exact absurd rfl ht
  case h_2 => exact absurd rfl hf
  case h_3 => exact absurd rfl hq
  case h_4 => rfl

theorem reads_number {n : Reader.Number} (h : Reads Reader.anyNumber t (.ok n)) :
    Reads form.read t (.ok (ofNumber n)) where
  begins := h.begins
  reads rest hr := by
    have ⟨c, cs, ht, hb, _⟩ := h.begins
    obtain ⟨⟨c', cs', ht', hc⟩, _⟩ := Reader.on_anyNumber_eq_ok h.begins h.on_text
    obtain ⟨rfl, rfl⟩ := List.cons.inj (ht.symm.trans ht')
    have hne : c ≠ 't' ∧ c ≠ 'f' ∧ c ≠ '"' := by
      refine ⟨?_, ?_, ?_⟩ <;> (rintro rfl; revert hc; decide)
    have hm := (h.map ofNumber).reads rest hr
    rw [ht, List.cons_append] at hm ⊢
    rw [on_read hb hne]
    exact hm

theorem reads_form (hb : ∀ x ∈ v.reals, ReadsBack x) : Reads form.read (form.write v)
    (if ∀ x ∈ v.reals, x.isFinite then .ok v else .error .malformed) := by
  cases v
  case flag b =>
    rw [if_pos nofun]
    cases b <;> exact ⟨⟨_, _, rfl, rfl, by decide⟩, fun _ _ => rfl⟩
  case int i =>
    have h₁ := i.le_toInt
    have h₂ := i.toInt_lt
    have hs : UInt64.size = 2 ^ 64 := rfl
    have hi := reads_number (reads_whole (i := i.toInt) (by omega) (by omega))
    rw [ofNumber_whole] at hi
    rw [if_pos nofun]
    exact hi
  case real x =>
    have hm : x ∈ (real x).reals := List.mem_singleton_self x
    split
    case isTrue hx => exact reads_number (reads_real (hb x hm) (hx x hm))
    case isFalse hx =>
      have hx : ¬x.isFinite := fun h => hx fun y hy => List.mem_singleton.mp hy ▸ h
      have hn : form.write (real x) = writeNull := if_neg hx
      rw [hn]
      exact ⟨⟨_, _, rfl, rfl, by decide⟩, fun _ _ => rfl⟩
  case text s =>
    rw [if_pos nofun]
    refine ⟨⟨_, _, rfl, rfl, by decide⟩, fun rest hr => ?_⟩
    have hs := ((reads_text s).map (γ := ControlValue Float) .text).reads rest hr
    exact (Reader.on_bind_of_ok (Reader.on_upcoming rfl)).trans hs

end ControlValue

variable {m : OrderedMap String (ControlValue Float)}

theorem reads_controlMap (hb : ∀ e ∈ m.entries, ∀ x ∈ e.2.reals, ReadsBack x) :
    Reads controlMap.read (controlMap.write m)
      (if ∀ e ∈ m.entries, ∀ x ∈ e.2.reals, x.isFinite then .ok m else .error .malformed) := by
  let r (v : ControlValue Float) : Except ReadError (ControlValue Float) :=
    if ∀ x ∈ v.reals, x.isFinite then .ok v else .error .malformed
  have hr : (fun e : String × ControlValue Float => (r e.2).map (e.1, ·)) =
      fun e => if ∀ x ∈ e.2.reals, x.isFinite then .ok e else .error .malformed := by
    funext e
    dsimp only [r]
    split <;> rfl
  have hm := reads_members (r := r) fun e he => ControlValue.reads_form (hb e he)
  have h := hm.map OrderedMap.ofList
  rw [hr, Lists.mapM_ite] at h
  split
  case isTrue hf =>
    rw [if_pos hf, Except.map, m.ofList_entries] at h
    exact h
  case isFalse hf =>
    rw [if_neg hf] at h
    exact h

namespace SolveOptions

variable {o : SolveOptions Float}

def reals (o : SolveOptions Float) : List Float :=
  (o.controls.entries ++ o.extra.entries).flatMap (·.2.reals)

theorem forall_mem_reals {p : Float → Prop} : (∀ x ∈ o.reals, p x) ↔
    (∀ e ∈ o.controls.entries, ∀ x ∈ e.2.reals, p x) ∧
      ∀ e ∈ o.extra.entries, ∀ x ∈ e.2.reals, p x := by
  rw [← List.forall_mem_append, reals, List.forall_mem_flatMap]

theorem reads_form (hb : ∀ x ∈ o.reals, ReadsBack x) : Reads form.read (form.write o)
    (if ∀ x ∈ o.reals, x.isFinite then .ok o else .error .malformed) := by
  have ⟨hc, he⟩ := forall_mem_reals.mp hb
  -- the first value without a text of its own ends the reading
  simp only [forall_mem_reals, ite_and]
  exact reads_record (.check (reads_controlMap hc) rfl <|
    .check (reads_controlMap he) rfl (.done _)) (by decide)

-- Options come back from their document exactly if all floats in them are finite, and nothing else
-- ever comes back in their place: a value never changes its form.
theorem parse_text_iff_finite (o : SolveOptions Float) (hb : ∀ x ∈ o.reals, ReadsBack x) :
    (form.parse (form.text o) = .ok o ↔ ∀ x ∈ o.reals, x.isFinite) ∧
      ∀ p, form.parse (form.text o) = .ok p → p = o := by
  rw [Form.parse_text (reads_form hb)]
  split
  case isTrue h =>
    refine ⟨iff_of_true rfl h, fun p hp => ?_⟩
    cases hp
    rfl
  case isFalse h => exact ⟨iff_of_false nofun h, nofun⟩

-- One in every form, with names that have to be escaped.
def lookalikes (x : Float) : SolveOptions Float where
  controls := ⟨[("\n", .int 1), ("\"", .real 1.0), ("\\", .real x)], by simp; decide⟩
  extra := ⟨[("", .flag true), ("a", .text "1"), ("b", .text "true"), ("c", .int .minValue)],
    by simp; decide⟩

theorem parse_text_iff_finite_lookalikes :
    form.parse (form.text (lookalikes (-0.0))) = .ok (lookalikes (-0.0)) ∧
      form.parse (form.text (lookalikes (1.0 / 0.0))) ≠ .ok (lookalikes (1.0 / 0.0)) := by
  have hb (x : Float) (hx : ReadsBack x) : ∀ y ∈ (lookalikes x).reals, ReadsBack y :=
    List.forall_mem_cons.mpr ⟨fun _ => by decide +kernel, List.forall_mem_singleton.mpr hx⟩
  have hi : ¬(1.0 / 0.0 : Float).isFinite := by decide
  refine ⟨(parse_text_iff_finite _ (hb (-0.0) fun _ => rfl)).1.mpr (by decide), fun h => hi ?_⟩
  have hf := (parse_text_iff_finite _ (hb (1.0 / 0.0) (absurd · hi))).1.mp h
  exact hf _ (List.mem_cons_of_mem _ (List.mem_cons_self ..))

end SolveOptions

namespace Controls

variable {c : Controls Float}

def tolerances (c : Controls Float) : List Float :=
  [c.gapAbsolute, c.gapRelative, c.feasibility, c.infeasibilityAbsolute, c.infeasibilityRelative]

def numbers (c : Controls Float) : List Float :=
  c.timeLimit :: c.tolerances ++ [c.integrality]

theorem forall_mem_numbers {p : Float → Prop} : (∀ x ∈ c.numbers, p x) ↔
    p c.timeLimit ∧ (∀ x ∈ c.tolerances, p x) ∧ p c.integrality := by
  rw [numbers, List.cons_append, List.forall_mem_cons, List.forall_mem_append,
    List.forall_mem_singleton]

theorem reads_count (n : UInt32) : Reads count (writeNat n.toNat) (.ok n) := by
  have h := (reads_natBelow n.toNat_lt_size (by decide)).map UInt32.ofNat
  rwa [Except.map, UInt32.ofNat_toNat] at h

theorem reads_form (hb : ∀ x ∈ c.numbers, ReadsBack x) : Reads form.read (form.write c)
    (if ∀ x ∈ c.numbers, x.isFinite then .ok c else .error .malformed) := by
  simp only [numbers, tolerances, List.cons_append, List.nil_append, List.forall_mem_cons,
    List.not_mem_nil, IsEmpty.forall_iff, implies_true, and_true] at hb ⊢
  have ⟨ht, hga, hgr, hf, hia, hir, hi⟩ := hb
  simp only [ite_and]
  exact reads_record (.next ((reads_bool _).map _) <| .next ((reads_count _).map _) <|
    .check (reads_float ht) rfl <| .check (reads_float hga) rfl <| .check (reads_float hgr) rfl <|
    .check (reads_float hf) rfl <| .check (reads_float hia) rfl <| .check (reads_float hir) rfl <|
    .next ((reads_bool _).map _) <| .next ((reads_count _).map _) <|
    .check (reads_float hi) rfl (.done _)) (by decide)

-- Valid controls whose tolerances are finite have a text that can be read exactly if their time
-- limit is finite as well. A limit of infinity, as the standard controls have it, is written as
-- `null`, and that is no number.
theorem parse_text_iff_timeLimit (c : Controls Float) (hv : c.Valid)
    (ht : ∀ x ∈ c.tolerances, x.isFinite) (hb : ∀ x ∈ c.numbers, ReadsBack x) :
    (form.parse (form.text c) = .ok c ↔ c.timeLimit.isFinite) ∧
      (¬c.timeLimit.isFinite → form.parse (form.text c) = .error .malformed) := by
  have hi : c.integrality.isFinite :=
    Binary64.isFinite_of_lt_of_lt hv.integrality.1 hv.integrality.2
  have hf : (∀ x ∈ c.numbers, x.isFinite) ↔ c.timeLimit.isFinite :=
    forall_mem_numbers.trans (and_iff_left ⟨ht, hi⟩)
  rw [Form.parse_text (reads_form hb), if_congr hf rfl rfl]
  split
  case isTrue h => exact ⟨iff_of_true rfl h, absurd h⟩
  case isFalse h => exact ⟨iff_of_false nofun h, fun _ => rfl⟩

theorem readsBack_tolerances_standard :
    ∀ x ∈ (standard : Controls Float).tolerances, ReadsBack x := by
  have h : ReadsBack 1e-8 := fun _ => by decide +kernel
  simp [tolerances, standard, h]

theorem readsBack_integrality_standard : ReadsBack (standard : Controls Float).integrality :=
  fun _ => by decide +kernel

-- The standard controls with a limit of a minute.
def limited : Controls Float :=
  { standard with timeLimit := 60 }

theorem parse_text_iff_timeLimit_limited : form.parse (form.text limited) = .ok limited := by
  have hb : ∀ x ∈ limited.numbers, ReadsBack x := forall_mem_numbers.mpr
    ⟨fun _ => by decide +kernel, readsBack_tolerances_standard, readsBack_integrality_standard⟩
  have hv : limited.Valid := { valid_standard with timeLimit := by decide }
  exact (parse_text_iff_timeLimit limited hv (by decide) hb).1.mpr (by decide)

theorem not_parse_text_standard :
    (standard : Controls Float).Valid ∧ (∀ x ∈ (standard : Controls Float).tolerances, x.isFinite) ∧
      (∀ x ∈ (standard : Controls Float).numbers, ReadsBack x) ∧
      form.parse (form.text standard) = .error .malformed := by
  have hi : ¬(standard : Controls Float).timeLimit.isFinite := by decide
  have hb : ∀ x ∈ (standard : Controls Float).numbers, ReadsBack x := forall_mem_numbers.mpr
    ⟨(absurd · hi), readsBack_tolerances_standard, readsBack_integrality_standard⟩
  refine ⟨valid_standard, by decide, hb, ?_⟩
  rw [Form.parse_text (reads_form hb)]
  exact if_neg fun h => hi (h _ (List.mem_cons_self ..))

end Controls
end ConicProgram
