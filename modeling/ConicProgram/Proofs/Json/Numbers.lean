import ConicProgram.Proofs.Json.Values

namespace ConicProgram.Json

namespace Reader

variable {t t' ds : Chars} {b passing : Bool} {i : Int}

theorem on_sign_eq_ok (h : sign.on t = .ok (b, t')) : t = t' ∨ t = '-' :: t' := by
  cases t
  case nil =>
    cases h
    exact .inl rfl
  case cons c t =>
    have h : (if some c = some '-' then do advance; return true else return false : Reader Bool).on
      (c :: t) = .ok (b, t') := h
    split at h
    case isTrue hc =>
      cases hc
      cases h
      exact .inr rfl
    case isFalse =>
      cases h
      exact .inl rfl

theorem on_someDigits_eq_ok (h : (someDigits passing).on t = .ok (ds, t')) :
    t = ds ++ t' ∧ ∀ c ∈ ds, c.isDigit := by
  have ⟨ds', u, hd, h⟩ := on_bind_eq_ok_iff.mp h
  have hd : Except.ok (t.span Char.isDigit) = Except.ok (ε := ReadError) (ds', u) := hd
  rw [List.span_eq_takeWhile_dropWhile] at hd
  cases hd
  split at h
  case h_1 => exact absurd h fails_digitMissing.on_ne_ok
  case h_2 =>
    cases h
    exact ⟨List.takeWhile_append_dropWhile.symm, fun c hc => List.mem_takeWhile_imp hc⟩

theorem on_wholePart_eq_ok (h : (wholePart passing).on t = .ok (ds, t')) :
    t = ds ++ t' ∧ ∀ c ∈ ds, c.isDigit := by
  have ⟨ds', u, hd, h⟩ := on_bind_eq_ok_iff.mp h
  split at h
  case h_1 => cases h
  case h_2 =>
    cases h
    exact on_someDigits_eq_ok hd

theorem on_fractionPart_eq_none (h : (fractionPart passing).on t = .ok (none, t')) : t = t' := by
  have ⟨c, u, hp, h⟩ := on_bind_eq_ok_iff.mp h
  cases hp
  split at h
  case isTrue =>
    have ⟨_, _, _, h⟩ := on_bind_eq_ok_iff.mp h
    have ⟨_, _, _, h⟩ := on_bind_eq_ok_iff.mp h
    cases h
  case isFalse =>
    cases h
    rfl

theorem on_exponentPart_eq_none (h : (exponentPart passing).on t = .ok (none, t')) : t = t' := by
  -- Behind the letter there is an exponent, with whatever sign.
  have hd (g : Chars → Int) (u : Chars) :
      (do return some (g (← someDigits passing)) : Reader (Option Int)).on u ≠ .ok (none, t') := by
    intro h
    have ⟨_, _, _, h⟩ := on_bind_eq_ok_iff.mp h
    cases h
  have ⟨c, u, hp, h⟩ := on_bind_eq_ok_iff.mp h
  cases hp
  split at h
  case h_3 =>
    cases h
    rfl
  all_goals
    have ⟨_, _, _, h⟩ := on_bind_eq_ok_iff.mp h
    have ⟨_, _, _, h⟩ := on_bind_eq_ok_iff.mp h
    split at h
    case h_3 => exact absurd h (hd _ _)
    all_goals
      have ⟨_, _, _, h⟩ := on_bind_eq_ok_iff.mp h
      exact absurd h (hd _ _)

theorem on_ofParts_eq_whole {fraction : Option Chars} {exponent : Option Int}
    (h : (Number.ofParts b ds fraction exponent).on t = .ok (.whole i, t')) :
    fraction = none ∧ exponent = none ∧ t = t' := by
  unfold Number.ofParts at h
  dsimp only at h
  split at h
  case isTrue hp =>
    cases h
    exact ⟨Option.isNone_iff_eq_none.mp hp.1, Option.isNone_iff_eq_none.mp hp.2.1, rfl⟩
  case isFalse =>
    split at h
    case isTrue hp =>
      cases h
      exact ⟨Option.isNone_iff_eq_none.mp hp.1, Option.isNone_iff_eq_none.mp hp.2.1, rfl⟩
    case isFalse => split at h <;> cases h

theorem mem_of_on_number_whole (h : number.on t = .ok (.whole i, [])) :
    ∀ c ∈ t, c = '-' ∨ c.isDigit := by
  have ⟨_, t₁, hs, h⟩ := on_bind_eq_ok_iff.mp h
  have ⟨ds, t₂, hw, h⟩ := on_bind_eq_ok_iff.mp h
  have ⟨_, t₃, hf, h⟩ := on_bind_eq_ok_iff.mp h
  have ⟨_, t₄, he, h⟩ := on_bind_eq_ok_iff.mp h
  obtain ⟨rfl, rfl, rfl⟩ := on_ofParts_eq_whole h
  cases on_exponentPart_eq_none he
  cases on_fractionPart_eq_none hf
  have ⟨ht, hd⟩ := on_wholePart_eq_ok hw
  rw [List.append_nil] at ht
  rcases on_sign_eq_ok hs with rfl | rfl
  case inl => exact fun c hc => .inr (hd c (ht ▸ hc))
  case inr =>
    intro c hc
    rcases List.mem_cons.mp hc with rfl | hc
    · exact .inl rfl
    · exact .inr (hd c (ht ▸ hc))

theorem on_anyNumber_eq_ok {r : Number × Chars} (h : Begins t) (hr : anyNumber.on t = .ok r) :
    (∃ c cs, t = c :: cs ∧ (c = '-' ∨ c.isDigit)) ∧ number.on t = .ok r := by
  have ⟨c, cs, ht, hb, _⟩ := h
  rw [ht, anyNumber, on_bind_of_ok (on_upcoming hb)] at hr
  split at hr
  case isTrue hc => exact ⟨⟨c, cs, ht, hc⟩, ht ▸ hr⟩
  case isFalse => exact absurd hr fails_mismatch.on_ne_ok

end Reader

section Floats

variable {x : Float}

theorem not_isNaN_and_not_isInf_of_isFinite (h : x.isFinite) : ¬x.isNaN ∧ ¬x.isInf := by
  have hu (u : Float.Model.UnpackedFloat) (h : u.isFinite) : u.isNaN = false ∧ u.isInf = false := by
    cases u
    case notANumber => cases h
    case infinity => cases h
    case zero => exact ⟨rfl, rfl⟩
    case finite => exact ⟨rfl, rfl⟩
  have ⟨hn, hi⟩ := hu x.toModel.unpack h
  exact ⟨Bool.eq_false_iff.mp hn, Bool.eq_false_iff.mp hi⟩

-- Whole numbers end in `.0`.
theorem point_or_exponent_mem_decimal (d : Decimal) :
    '.' ∈ Decimal.Layout.document.decimal d ∨ 'e' ∈ Decimal.Layout.document.decimal d := by
  unfold Decimal.Layout.decimal
  dsimp only
  split
  case isTrue =>
    refine .inl ?_
    unfold Decimal.Layout.spread
    split
    case isTrue => simp [Decimal.Layout.document]
    case isFalse =>
      dsimp only
      split <;> simp
  case isFalse =>
    refine .inr ?_
    simp [Decimal.Layout.scientific]

theorem point_or_exponent_mem_writeFloat (h : x.isFinite) :
    '.' ∈ writeFloat x ∨ 'e' ∈ writeFloat x := by
  have ⟨hn, hi⟩ := not_isNaN_and_not_isInf_of_isFinite h
  rw [writeFloat, if_pos h, Decimal.Layout.float, if_neg hn]
  dsimp only
  rw [if_neg hi]
  exact (point_or_exponent_mem_decimal _).imp (List.mem_append_right _) (List.mem_append_right _)

-- A finite number is read back as a float, and never as a whole number.
theorem ReadsBack.on_anyNumber (hb : ReadsBack x) (h : x.isFinite) :
    Reader.anyNumber.on (writeFloat x) = .ok (.real x, []) := by
  have ⟨n, t, hn, hx⟩ := Reader.on_bind_eq_ok_iff.mp (hb h)
  cases n
  case real y =>
    cases hx
    exact hn
  case whole i =>
    cases hx
    have hm := Reader.mem_of_on_number_whole
      (Reader.on_anyNumber_eq_ok (begins_writeFloat _) hn).2
    rcases point_or_exponent_mem_writeFloat h with hc | hc
    all_goals exact absurd (hm _ hc) (by decide)

theorem reads_real (hb : ReadsBack x) (h : x.isFinite) :
    Reads Reader.anyNumber (writeFloat x) (.ok (.real x)) :=
  .of_stable (begins_writeFloat x) Reader.stable_anyNumber (hb.on_anyNumber h)

end Floats
end ConicProgram.Json
