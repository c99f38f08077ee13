import ConicProgram.Proofs.Json.Reading

namespace ConicProgram.Json

variable {β γ : Type}

def Begins (t : Chars) : Prop :=
  ∃ c cs, t = c :: cs ∧ Reader.isBlank c = false ∧ c ≠ ']'

theorem Begins.append {t : Chars} (h : Begins t) (u : Chars) : Begins (t ++ u) := by
  have ⟨c, cs, ht, hc⟩ := h
  exact ⟨c, cs ++ u, by rw [ht]; rfl, hc⟩

-- The text of a value is read in that way, wherever it stands in a document.
structure Reads (a : Reader β) (t : Chars) (r : Except ReadError β) : Prop where
  begins : Begins t
  reads  : ∀ rest, Reader.Stops rest → a.on (t ++ rest) = r.map (·, rest)

namespace Reads

variable {a : Reader β} {t : Chars} {r : Except ReadError β}

theorem map (h : Reads a t r) (f : β → γ) : Reads (do return f (← a)) t (r.map f) where
  begins := h.begins
  reads rest hr := by
    rw [Reader.on_bind, h.reads rest hr]
    cases r <;> rfl

theorem on_text (h : Reads a t r) : a.on t = r.map (·, []) := by
  have hr := h.reads [] Reader.stops_nil
  rwa [List.append_nil] at hr

-- What is read of the text alone is read wherever it stands.
theorem of_stable {b : β} (hb : Begins t) (hs : Reader.Stable a t) (h : a.on t = .ok (b, [])) :
    Reads a t (.ok b) :=
  ⟨hb, fun _ hr => hs _ _ _ hr h⟩

end Reads

section Digits

theorem toDigits_eq_zero_cons {n : Nat} {ds : Chars} (h : Nat.toDigits 10 n = '0' :: ds) :
    n = 0 := by
  induction n using Nat.strongRecOn generalizing ds
  case ind n hi =>
    by_cases hn : n < 10
    case pos =>
      rw [Nat.toDigits_of_lt_base hn] at h
      have hd : ∀ n < 10, n.digitChar = '0' → n = 0 := by decide
      exact hd n hn (List.cons.inj h).1
    case neg =>
      rw [Nat.toDigits_of_base_le (by omega) (by omega)] at h
      cases hq : Nat.toDigits 10 (n / 10)
      case nil => exact absurd hq Nat.toDigits_ne_nil
      case cons c cs =>
        rw [hq] at h
        have hc := hi (n / 10) (by omega) (hq.trans (by rw [(List.cons.inj h).1]))
        omega

theorem isDigit_of_mem_writeNat {n : Nat} {c : Char} (h : c ∈ writeNat n) : c.isDigit :=
  Nat.isDigit_of_mem_toDigits (by decide) (by decide) h

theorem begins_of_isDigit {c : Char} {cs : Chars} (h : c.isDigit) : Begins (c :: cs) := by
  refine ⟨c, cs, rfl, ?_, ?_⟩
  · simp only [Reader.isBlank, Bool.or_eq_false_iff, beq_eq_false_iff_ne]
    refine ⟨⟨⟨?_, ?_⟩, ?_⟩, ?_⟩ <;> (rintro rfl; cases h)
  · rintro rfl
    cases h

theorem begins_writeNat (n : Nat) : Begins (writeNat n) := by
  cases h : writeNat n
  case nil => exact absurd h Nat.toDigits_ne_nil
  case cons c cs =>
    have hc : c ∈ writeNat n := h ▸ List.mem_cons_self ..
    exact begins_of_isDigit (isDigit_of_mem_writeNat hc)

end Digits

namespace Reader

variable {n : Nat}

theorem on_wholePart_writeNat : (wholePart false).on (writeNat n) = .ok (writeNat n, []) := by
  have hd : digits.on (writeNat n) = .ok (writeNat n, []) := by
    show Except.ok ((writeNat n).span Char.isDigit) = _
    rw [List.span_eq_takeWhile_dropWhile,
      List.takeWhile_eq_self_iff.mpr fun _ => isDigit_of_mem_writeNat,
      List.dropWhile_eq_nil_iff.mpr fun _ => isDigit_of_mem_writeNat]
  have hs : (someDigits false).on (writeNat n) = .ok (writeNat n, []) := by
    rw [someDigits, on_bind_of_ok hd]
    split
    case h_1 h => exact absurd h Nat.toDigits_ne_nil
    case h_2 => rfl
  rw [wholePart, on_bind_of_ok hs]
  split
  case h_2 => rfl
  case h_1 c cs h =>
    have hz := toDigits_eq_zero_cons h
    rw [hz] at h
    cases h

theorem on_number_of_sign {negative : Bool} {m : Number} {t : Chars}
    (hs : sign.on t = .ok (negative, writeNat n))
    (hp : (Number.ofParts negative (writeNat n) none none).on [] = .ok (m, [])) :
    number.on t = .ok (m, []) := by
  rw [number, on_bind_of_ok hs, on_bind_of_ok on_wholePart_writeNat]
  exact hp

theorem decimalValue_writeNat (n : Nat) : decimalValue (writeNat n) = n :=
  Nat.ofDigitChars_ten_toDigits

theorem on_anyNumber_writeNat (hn : n < UInt64.size) :
    anyNumber.on (writeNat n) = .ok (.whole n, []) := by
  have ⟨c, cs, h, hb, _⟩ := begins_writeNat n
  have hc : c.isDigit := isDigit_of_mem_writeNat (h ▸ List.mem_cons_self ..)
  have hs : sign.on (writeNat n) = .ok (false, writeNat n) := by
    have hm : ¬some c = some '-' := by
      rintro ⟨⟩
      cases hc
    rw [h]
    show (if some c = some '-' then _ else _ : Reader Bool).on (c :: cs) = _
    rw [if_neg hm]
    rfl
  have hp : (Number.ofParts false (writeNat n) none none).on [] = .ok (.whole n, []) := by
    rw [Number.ofParts, decimalValue_writeNat]
    dsimp only
    rw [if_pos ⟨rfl, rfl, rfl, hn⟩]
    rfl
  have hu : upcoming.on (writeNat n) = .ok (c, writeNat n) := h ▸ on_upcoming hb
  rw [anyNumber, on_bind_of_ok hu, if_pos (.inr hc)]
  exact on_number_of_sign hs hp

-- Minus zero is no whole number.
theorem on_anyNumber_minus (h : 0 < n) (hn : n ≤ UInt64.size / 2) :
    anyNumber.on ('-' :: writeNat n) = .ok (.whole (-n), []) := by
  have hs : sign.on ('-' :: writeNat n) = .ok (true, writeNat n) := rfl
  have hp : (Number.ofParts true (writeNat n) none none).on [] = .ok (.whole (-n), []) := by
    rw [Number.ofParts, decimalValue_writeNat]
    dsimp only
    rw [if_neg (by simp), if_pos ⟨rfl, rfl, rfl, h, hn⟩]
    rfl
  rw [anyNumber, on_bind_of_ok (on_upcoming rfl), if_pos (.inl rfl)]
  exact on_number_of_sign hs hp

theorem on_natBelow_writeNat {limit : Nat} (hn : n < limit) (hl : limit ≤ UInt64.size) :
    (natBelow limit).on (writeNat n) = .ok (n, []) := by
  rw [natBelow, on_bind_of_ok (on_anyNumber_writeNat (hn.trans_le hl))]
  dsimp only
  rw [if_pos ⟨Int.natCast_nonneg n, hn⟩]
  rfl

end Reader

theorem reads_natBelow {n limit : Nat} (hn : n < limit) (hl : limit ≤ UInt64.size) :
    Reads (Reader.natBelow limit) (writeNat n) (.ok n) :=
  .of_stable (begins_writeNat n) Reader.stable_natBelow (Reader.on_natBelow_writeNat hn hl)

theorem reads_index {n : Nat} (hn : n < UInt64.size) : Reads Reader.index (writeNat n) (.ok n) :=
  reads_natBelow hn (Nat.le_refl _)

theorem begins_writeInt (i : Int) : Begins (writeInt i) := by
  unfold writeInt
  split
  case isTrue => exact ⟨_, _, rfl, rfl, by decide⟩
  case isFalse => exact begins_writeNat _

theorem reads_whole {i : Int} (h₁ : -(UInt64.size / 2 : Nat) ≤ i) (h₂ : i < UInt64.size) :
    Reads Reader.anyNumber (writeInt i) (.ok (.whole i)) := by
  refine .of_stable (begins_writeInt i) Reader.stable_anyNumber ?_
  unfold writeInt
  split
  case isTrue hi =>
    have hn : i = -(i.natAbs : Int) := by omega
    rw [Reader.on_anyNumber_minus (by omega) (by omega), ← hn]
  case isFalse hi =>
    have hn : (i.natAbs : Int) = i := by omega
    rw [Reader.on_anyNumber_writeNat (by omega), hn]

theorem reads_bool (b : Bool) : Reads Reader.bool (writeBool b) (.ok b) := by
  cases b <;> exact ⟨⟨_, _, rfl, rfl, by decide⟩, fun _ _ => rfl⟩

section Floats

-- The text of a finite number is read as the same number.
def ReadsBack (x : Float) : Prop :=
  x.isFinite → Reader.float.on (writeFloat x) = .ok (x, [])

theorem begins_decimal (l : Decimal.Layout) (d : Decimal) : Begins (l.decimal d) := by
  have ⟨c, cs, h, hc⟩ := begins_writeNat d.digits
  have hd : Begins (Nat.toDigits 10 d.digits) := ⟨c, cs, h, hc⟩
  have htake {k : Nat} (hk : 0 < k) : Begins ((Nat.toDigits 10 d.digits).take k) := by
    refine ⟨c, cs.take (k - 1), ?_, hc⟩
    rw [show Nat.toDigits 10 d.digits = c :: cs from h, List.take_cons hk]
  unfold Decimal.Layout.decimal
  dsimp only
  split
  case isFalse =>
    rw [Decimal.Layout.scientific, List.append_assoc]
    exact (htake Nat.one_pos).append _
  case isTrue =>
    unfold Decimal.Layout.spread
    split
    case isTrue =>
      rw [List.append_assoc]
      exact hd.append _
    case isFalse =>
      dsimp only
      split
      case isTrue hw => exact (htake (by omega)).append _
      case isFalse => exact ⟨_, _, rfl, rfl, by decide⟩

theorem begins_writeFloat (x : Float) : Begins (writeFloat x) := by
  unfold writeFloat Decimal.Layout.float
  split
  case isFalse => exact ⟨_, _, rfl, rfl, by decide⟩
  case isTrue =>
    split
    case isTrue => exact ⟨_, _, rfl, rfl, by decide⟩
    case isFalse =>
      dsimp only
      split
      case isFalse => exact ⟨_, _, rfl, rfl, by decide⟩
      case isTrue =>
        split
        case isTrue => exact ⟨_, _, rfl, rfl, by decide⟩
        case isFalse => exact begins_decimal _ _

-- A number that is not finite cannot be read back.
theorem reads_float {x : Float} (h : ReadsBack x) :
    Reads Reader.float (writeFloat x) (if x.isFinite then .ok x else .error .malformed) := by
  split
  case isTrue hx => exact .of_stable (begins_writeFloat x) Reader.stable_float (h hx)
  case isFalse hx =>
    rw [writeFloat, if_neg hx]
    exact ⟨⟨_, _, rfl, rfl, by decide⟩, fun _ _ => rfl⟩

end Floats

end ConicProgram.Json
