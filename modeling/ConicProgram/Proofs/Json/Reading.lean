import Mathlib.Data.List.TakeDrop
import Mathlib.Data.List.TakeWhile
import ConicProgram.Json.Record
import ConicProgram.Json.Writer

namespace ConicProgram.Json

variable {β γ : Type}

namespace Reader

section Steps

variable {a : Reader β} {f : β → Reader γ} {t t' : Chars} {b : β} {e : ReadError} {c : Char}

-- What a reader makes of a text: a value and the rest, or an error.
def on (a : Reader β) (t : Chars) : Except ReadError (β × Chars) :=
  StateT.run a t

theorem on_bind : (a >>= f).on t = a.on t >>= fun r => (f r.1).on r.2 :=
  rfl

theorem on_bind_of_ok (h : a.on t = .ok (b, t')) : (a >>= f).on t = (f b).on t' := by
  rw [on_bind, h]
  rfl

theorem on_bind_of_error (h : a.on t = .error e) : (a >>= f).on t = .error e := by
  rw [on_bind, h]
  rfl

theorem on_bind_eq_ok_iff {r : γ × Chars} :
    (a >>= f).on t = .ok r ↔ ∃ b t', a.on t = .ok (b, t') ∧ (f b).on t' = .ok r := by
  rw [on_bind]
  cases a.on t
  case error e => exact ⟨nofun, nofun⟩
  case ok r' =>
    constructor
    case mp => exact fun h => ⟨r'.1, r'.2, rfl, h⟩
    case mpr =>
      rintro ⟨_, _, h, hf⟩
      cases h
      exact hf

theorem on_advance : advance.on (c :: t) = .ok ((), t) :=
  rfl

theorem on_next : next.on (c :: t) = .ok (c, t) :=
  rfl

theorem on_skipBlanks : skipBlanks.on t = .ok ((), t.dropWhile isBlank) :=
  rfl

theorem on_upcoming_of_cons (h : t.dropWhile isBlank = c :: t') :
    upcoming.on t = .ok (c, c :: t') := by
  rw [upcoming, on_bind_of_ok on_skipBlanks, h]
  rfl

theorem on_upcoming (h : isBlank c = false) : upcoming.on (c :: t) = .ok (c, c :: t) :=
  on_upcoming_of_cons (List.dropWhile_cons_of_neg (by simpa using h))

end Steps

-- What may follow a value that stands in a document.
def Stops (rest : Chars) : Prop :=
  ∀ c, rest.head? = some c → c = ',' ∨ c = ']' ∨ c = '\x7d'

theorem stops_nil : Stops [] :=
  nofun

theorem stops_cons {c : Char} {rest : Chars} : Stops (c :: rest) ↔ c = ',' ∨ c = ']' ∨ c = '\x7d' := by
  simp [Stops]

theorem Stops.dropWhile {rest : Chars} (h : Stops rest) {p : Char → Bool}
    (hp : ∀ c, c = ',' ∨ c = ']' ∨ c = '\x7d' → p c = false) : rest.dropWhile p = rest := by
  cases rest
  case nil => rfl
  case cons c rest => exact List.dropWhile_cons_of_neg (by simpa using hp c (stops_cons.mp h))

theorem Stops.takeWhile {rest : Chars} (h : Stops rest) {p : Char → Bool}
    (hp : ∀ c, c = ',' ∨ c = ']' ∨ c = '\x7d' → p c = false) : rest.takeWhile p = [] := by
  cases rest
  case nil => rfl
  case cons c rest => exact List.takeWhile_cons_of_neg (by simpa using hp c (stops_cons.mp h))

theorem Stops.dropWhile_append {rest : Chars} (h : Stops rest) {p : Char → Bool}
    (hp : ∀ c, c = ',' ∨ c = ']' ∨ c = '\x7d' → p c = false) (t : Chars) :
    (t ++ rest).dropWhile p = t.dropWhile p ++ rest := by
  rw [List.dropWhile_append]
  split
  case isTrue he => rw [List.isEmpty_iff.mp he, h.dropWhile hp, List.nil_append]
  case isFalse => rfl

theorem Stops.takeWhile_append {rest : Chars} (h : Stops rest) {p : Char → Bool}
    (hp : ∀ c, c = ',' ∨ c = ']' ∨ c = '\x7d' → p c = false) (t : Chars) :
    (t ++ rest).takeWhile p = t.takeWhile p := by
  rw [List.takeWhile_append]
  split
  case isTrue he =>
    rw [h.takeWhile hp, List.append_nil]
    exact ((List.takeWhile_prefix p).eq_of_length he).symm
  case isFalse => rfl

section Stable

variable {a : Reader β} {f : β → Reader γ} {t : Chars}

-- What is read of the text does not change with what follows on it.
def Stable (a : Reader β) (t : Chars) : Prop :=
  ∀ b t' rest, Stops rest → a.on t = .ok (b, t') → a.on (t ++ rest) = .ok (b, t' ++ rest)

theorem stable_pure (b : β) : Stable (pure b) t := by
  intro _ _ _ _ h
  cases h
  rfl

-- Nothing is read, whatever the text.
def Fails (a : Reader β) : Prop :=
  ∀ t, ∃ e, a.on t = .error e

theorem fails_malformed : Fails (malformed : Reader β) :=
  fun _ => ⟨_, rfl⟩

theorem fails_truncated : Fails (truncated : Reader β) :=
  fun _ => ⟨_, rfl⟩

theorem fails_bind (h : ∀ b, Fails (f b)) : Fails (a >>= f) := by
  intro t
  cases ha : a.on t
  case error e => exact ⟨e, on_bind_of_error ha⟩
  case ok r =>
    rw [on_bind_of_ok ha]
    exact h r.1 r.2

theorem Fails.on_ne_ok (h : Fails a) {r : β × Chars} : a.on t ≠ .ok r := by
  intro ht
  have ⟨e, he⟩ := h t
  cases he.symm.trans ht

theorem stable_of_fails (h : Fails a) : Stable a t :=
  fun _ _ _ _ ht => absurd ht h.on_ne_ok

theorem stable_advance (c : Char) : Stable advance (c :: t) := by
  intro _ _ _ _ h
  cases h
  rfl

theorem Stable.bind (ha : Stable a t) (hf : ∀ b t', Stable (f b) t') : Stable (a >>= f) t := by
  intro b t' rest hr h
  have ⟨b', t'', hb, h⟩ := on_bind_eq_ok_iff.mp h
  rw [on_bind_of_ok (ha _ _ _ hr hb)]
  exact hf _ _ _ _ _ hr h

-- A look at what comes next must come to the same at the end as where a value stops.
theorem stable_peek {f : Option Char → Reader γ} (hn : Stable (f none) [])
    (hc : ∀ {c t'}, t = c :: t' → Stable (f (some c)) t)
    (hs : ∀ c, c = ',' ∨ c = ']' ∨ c = '\x7d' → f (some c) = f none) : Stable (peek >>= f) t := by
  intro b t' rest hr h
  show (f (t ++ rest).head?).on (t ++ rest) = _
  have h : (f t.head?).on t = .ok (b, t') := h
  cases t
  case cons c t => exact hc rfl _ _ _ hr h
  case nil =>
    have hl := hn _ _ _ hr h
    cases rest
    case nil => exact hl
    case cons c rest =>
      rw [List.nil_append, List.head?_cons, hs c (stops_cons.mp hr)]
      exact hl

theorem stable_digits : Stable digits t := by
  have hd : ∀ c, c = ',' ∨ c = ']' ∨ c = '\x7d' → c.isDigit = false := by
    rintro c (rfl | rfl | rfl) <;> rfl
  intro b t' rest hr h
  have h : Except.ok (t.span Char.isDigit) = Except.ok (ε := ReadError) (b, t') := h
  show Except.ok ((t ++ rest).span Char.isDigit) = _
  rw [List.span_eq_takeWhile_dropWhile] at h ⊢
  cases h
  rw [hr.takeWhile_append hd, hr.dropWhile_append hd]

theorem stable_upcoming : Stable upcoming t := by
  have hb : ∀ c, c = ',' ∨ c = ']' ∨ c = '\x7d' → isBlank c = false := by
    rintro c (rfl | rfl | rfl) <;> rfl
  intro b t' rest hr h
  have hd := hr.dropWhile_append hb t
  cases hw : t.dropWhile isBlank
  case nil =>
    rw [upcoming, on_bind_of_ok on_skipBlanks, hw] at h
    cases h
  case cons c cs =>
    rw [on_upcoming_of_cons hw] at h
    cases h
    rw [hw] at hd
    exact on_upcoming_of_cons hd

end Stable

section Numbers

variable {t : Chars} {passing : Bool}

theorem fails_digitMissing : Fails (digitMissing passing : Reader β) := by
  refine fails_bind fun c => ?_
  split
  case isTrue => exact fails_malformed
  case isFalse => exact fails_truncated

theorem stable_someDigits : Stable (someDigits passing) t := by
  refine stable_digits.bind fun ds t' => ?_
  cases ds
  case nil => exact stable_of_fails fails_digitMissing
  case cons => exact stable_pure _

theorem stable_wholePart : Stable (wholePart passing) t := by
  refine stable_someDigits.bind fun ds t' => ?_
  split
  case h_1 => exact stable_of_fails fails_malformed
  case h_2 => exact stable_pure _

theorem stable_sign : Stable sign t := by
  refine stable_peek (stable_pure _) (fun {c _} ht => ?_) ?_
  case refine_1 =>
    subst ht
    split
    case isTrue => exact (stable_advance c).bind fun _ _ => stable_pure _
    case isFalse => exact stable_pure _
  case refine_2 => rintro c (rfl | rfl | rfl) <;> rfl

theorem stable_fractionPart : Stable (fractionPart passing) t := by
  refine stable_peek (stable_pure _) (fun {c _} ht => ?_) ?_
  case refine_1 =>
    subst ht
    split
    case isTrue =>
      exact (stable_advance c).bind fun _ _ => stable_someDigits.bind fun _ _ => stable_pure _
    case isFalse => exact stable_pure _
  case refine_2 => rintro c (rfl | rfl | rfl) <;> rfl

theorem stable_exponentPart : Stable (exponentPart passing) t := by
  have hd (g : Chars → Option Int) {t : Chars} :
      Stable (do return g (← someDigits passing)) t :=
    stable_someDigits.bind fun _ _ => stable_pure _
  refine stable_peek (stable_pure _) (fun {c _} ht => ?_) ?_
  case refine_2 => rintro c (rfl | rfl | rfl) <;> rfl
  case refine_1 =>
    subst ht
    split
    case h_3 => exact stable_pure _
    -- the letter may be of either case
    all_goals
      refine (stable_advance c).bind fun _ t' => stable_peek (hd _) (fun {c' _} ht => ?_) ?_
      case refine_2 => rintro c (rfl | rfl | rfl) <;> rfl
      case refine_1 =>
        subst ht
        split
        case h_1 => exact (stable_advance _).bind fun _ _ => hd _
        case h_2 => exact (stable_advance _).bind fun _ _ => hd _
        case h_3 => exact hd _

theorem stable_ofParts {negative : Bool} {whole : Chars} {fraction : Option Chars}
    {exponent : Option Int} : Stable (Number.ofParts negative whole fraction exponent) t := by
  unfold Number.ofParts
  dsimp only
  split
  · exact stable_pure _
  · split
    · exact stable_pure _
    · split
      · exact stable_of_fails fails_malformed
      · exact stable_pure _

theorem stable_number : Stable number t :=
  stable_sign.bind fun _ _ => stable_wholePart.bind fun _ _ => stable_fractionPart.bind fun _ _ =>
    stable_exponentPart.bind fun _ _ => stable_ofParts

theorem fails_mismatch : Fails (mismatch : Reader β) := by
  have hm {γ : Type} (a : Reader γ) : Fails (a >>= fun _ => (malformed : Reader β)) :=
    fails_bind fun _ => fails_malformed
  refine fails_bind fun c => ?_
  dsimp only
  split
  case h_5 =>
    split
    case isTrue => exact hm _
    case isFalse => exact fails_malformed
  case h_6 => exact fails_truncated
  all_goals exact fails_bind fun _ => hm _

theorem stable_anyNumber : Stable anyNumber t := by
  refine stable_upcoming.bind fun c _ => ?_
  split
  case isTrue => exact stable_number
  case isFalse => exact stable_of_fails fails_mismatch

theorem stable_float : Stable float t :=
  stable_anyNumber.bind fun _ _ => stable_pure _

theorem stable_natBelow {limit : Nat} : Stable (natBelow limit) t := by
  refine stable_anyNumber.bind fun n _ => ?_
  cases n
  case real => exact stable_of_fails fails_malformed
  case whole i =>
    dsimp only
    split
    case isTrue => exact stable_pure _
    case isFalse => exact stable_of_fails fails_malformed

end Numbers
end Reader
end ConicProgram.Json
