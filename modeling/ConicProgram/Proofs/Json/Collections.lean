import ConicProgram.Proofs.Json.Values
import ConicProgram.Proofs.Lists

namespace ConicProgram.Json

variable {β γ σ : Type}

namespace Reader

section Repetition

variable {step : σ → Reader (Step σ β)} {s s' : σ} {b : β} {k : Nat} {t t' : Chars} {e : ReadError}

theorem on_repeatStep : (repeatStep s step).on t = (repeatFor (t.length + 1) step s).on t :=
  rfl

theorem on_repeatFor_of_more (h : (step s).on t = .ok (.more s', t')) :
    (repeatFor (k + 1) step s).on t = (repeatFor k step s').on t' := by
  rw [repeatFor, on_bind_of_ok h]

theorem on_repeatFor_of_done (h : (step s).on t = .ok (.done b, t')) :
    (repeatFor (k + 1) step s).on t = .ok (b, t') := by
  rw [repeatFor, on_bind_of_ok h]
  rfl

theorem on_repeatFor_of_error (h : (step s).on t = .error e) :
    (repeatFor (k + 1) step s).on t = .error e := by
  rw [repeatFor, on_bind_of_error h]

end Repetition

section Strings

variable {a b : Nat} {c : Char} {u : Chars}

theorem on_codeUnit_digitChar (ha : a < 16) (hb : b < 16) :
    codeUnit.on ('0' :: '0' :: Nat.digitChar a :: Nat.digitChar b :: u) = .ok (16 * a + b, u) := by
  have hd : ∀ n < 16, hexValue? (Nat.digitChar n) = some n := by decide
  have hm : ['0', '0', Nat.digitChar a, Nat.digitChar b].mapM hexValue? = some [0, 0, a, b] := by
    simp [hd a ha, hd b hb, show hexValue? '0' = some 0 from rfl]
  have hg (t : Chars) : (get : Reader Chars).on t = .ok (t, t) := rfl
  rw [codeUnit, on_bind_of_ok (hg _)]
  dsimp only
  rw [hm]
  show Except.ok (16 * (16 * (16 * (16 * 0 + 0) + 0) + a) + b, u) = _
  simp

-- The part of a string that is read at once.
def stringStep (cs : Chars) : Reader (Step Chars String) := do
  match ← next with
  | '"' => return .done (String.ofList cs.reverse)
  | '\\' => return .more ((← escaped) :: cs)
  | c => if c.toNat < 0x20 then malformed else return .more (c :: cs)

theorem on_stringStep (c : Char) (cs : Chars) :
    (stringStep cs).on (escape c ++ u) = .ok (.more (c :: cs), u) := by
  unfold escape
  split
  case h_8 hquote hbackslash _ _ _ _ _ =>
    split
    case isTrue hc =>
      have hu : codeUnit.on ('0' :: '0' :: Nat.digitChar (c.toNat / 16) ::
          Nat.digitChar (c.toNat % 16) :: u) = .ok (c.toNat, u) := by
        rw [on_codeUnit_digitChar (by omega) (by omega), Nat.div_add_mod]
      have hp : codePoint.on ('0' :: '0' :: Nat.digitChar (c.toNat / 16) ::
          Nat.digitChar (c.toNat % 16) :: u) = .ok (c, u) := by
        rw [codePoint, on_bind_of_ok hu, if_neg (by simp [isLowSurrogate]; omega),
          if_neg (by simp [isHighSurrogate]; omega), Char.ofNat_toNat]
        rfl
      exact on_bind_of_ok (f := fun d => pure (Step.more (d :: cs))) hp
    case isFalse hc =>
      rw [stringStep, List.singleton_append, on_bind_of_ok on_next]
      split
      case h_1 => exact absurd rfl hquote
      case h_2 => exact absurd rfl hbackslash
      case h_3 =>
        rw [if_neg hc]
        rfl
  all_goals rfl

theorem on_repeatFor_stringStep {cs acc : Chars} {k : Nat} (hk : cs.length < k) :
    (repeatFor k stringStep acc).on (cs.flatMap escape ++ '"' :: u) =
      .ok (String.ofList (acc.reverse ++ cs), u) := by
  induction cs generalizing acc k
  case nil =>
    cases k
    case zero => cases hk
    case succ k =>
      rw [List.append_nil]
      exact on_repeatFor_of_done rfl
  case cons c cs hi =>
    cases k
    case zero => cases hk
    case succ k =>
      rw [List.flatMap_cons, List.append_assoc, on_repeatFor_of_more (on_stringStep c acc),
        hi (Nat.lt_of_succ_lt_succ hk), List.reverse_cons, List.append_assoc, List.singleton_append]

theorem length_le_length_escape (cs : Chars) : cs.length ≤ (cs.flatMap escape).length := by
  have he : ∀ c, escape c ≠ [] := by
    intro c
    unfold escape
    split <;> try split
    all_goals nofun
  induction cs
  case nil => exact Nat.le_refl _
  case cons c cs hi =>
    have := List.length_pos_iff.mpr (he c)
    rw [List.flatMap_cons, List.length_append, List.length_cons]
    omega

-- Every string is read back, whatever characters are in it.
theorem on_string (s : String) : string.on (s.toList.flatMap escape ++ '"' :: u) = .ok (s, u) := by
  have hl : s.toList.length < (s.toList.flatMap escape ++ '"' :: u).length + 1 := by
    have := length_le_length_escape s.toList
    rw [List.length_append]
    omega
  show (repeatStep [] stringStep).on _ = _
  rw [on_repeatStep, on_repeatFor_stringStep hl, List.reverse_nil, List.nil_append,
    String.ofList_toList]

end Strings

-- The texts that are still to be read, with a comma before each of them but the first one of all.
def left (first : Bool) (texts : List Chars) : Chars :=
  if first then listed texts else texts.flatMap (',' :: ·)

section Left

variable {first : Bool} {text : Chars} {texts : List Chars} {c : Char} {u : Chars}

theorem left_nil : left first [] = [] := by
  cases first <;> rfl

theorem left_later_cons : left false (text :: texts) = ',' :: text ++ left false texts :=
  List.flatMap_cons

theorem left_first_cons : left true (text :: texts) = text ++ left false texts := by
  show listed (text :: texts) = _
  induction texts generalizing text
  case nil => exact (List.append_nil _).symm
  case cons next texts hi =>
    rw [left_later_cons, List.cons_append, ← hi, listed]
    nofun

theorem stops_left (hc : c = ']' ∨ c = '\x7d') : Stops (left false texts ++ c :: u) := by
  cases texts
  case nil => exact stops_cons.mpr (.inr hc)
  case cons => exact stops_cons.mpr (.inl rfl)

theorem length_lt_length_left (texts : List Chars) (c : Char) (u : Chars) :
    texts.length < (left true texts ++ c :: u).length + 1 := by
  have hl (texts : List Chars) : texts.length ≤ (left false texts).length := by
    induction texts
    case nil => exact Nat.le_refl _
    case cons text texts hi =>
      rw [left_later_cons, List.length_append]
      simp only [List.length_cons]
      omega
  cases texts
  case nil => exact Nat.zero_lt_succ _
  case cons text texts =>
    have := hl texts
    rw [left_first_cons]
    simp only [List.length_append, List.length_cons]
    omega

end Left

section Repeated

variable {step : Bool × List γ → Reader (Step (Bool × List γ) (List γ))} {text : β → Chars}
  {r : β → Except ReadError γ} {xs : List β} {c : Char} {first : Bool} {acc : List γ} {u : Chars}
  {k : Nat}

-- Each part takes one step, and so does the end.
theorem on_repeatFor_parts (hc : c = ']' ∨ c = '\x7d')
    (hend : ∀ first acc, (step (first, acc)).on (c :: u) = .ok (.done acc.reverse, c :: u))
    (hstep : ∀ x ∈ xs, ∀ first acc texts, Stops (left false texts ++ c :: u) →
      (step (first, acc)).on (left first (text x :: texts) ++ c :: u) =
        (r x).map fun y => (.more (false, y :: acc), left false texts ++ c :: u))
    (hk : xs.length < k) :
    (repeatFor k step (first, acc)).on (left first (xs.map text) ++ c :: u) =
      (xs.mapM r).map fun ys => (acc.reverse ++ ys, c :: u) := by
  induction k generalizing xs first acc
  case zero => cases hk
  case succ k hi =>
    cases xs
    case nil =>
      rw [List.map_nil, left_nil, List.nil_append, on_repeatFor_of_done (hend first acc)]
      exact congrArg (fun ys => Except.ok (ys, c :: u)) (List.append_nil _).symm
    case cons x xs =>
      have ⟨hx, hxs⟩ := List.forall_mem_cons.mp hstep
      have hs := hx first acc (xs.map text) (stops_left hc)
      rw [List.map_cons, List.mapM_cons]
      cases hr : r x
      case error e =>
        rw [hr] at hs
        rw [on_repeatFor_of_error hs]
        rfl
      case ok y =>
        rw [hr] at hs
        rw [on_repeatFor_of_more hs, hi hxs (Nat.lt_of_succ_lt_succ hk)]
        cases xs.mapM r
        case error e => rfl
        case ok ys =>
          refine congrArg (fun ys => Except.ok (ys, c :: u)) ?_
          rw [List.reverse_cons, List.append_assoc, List.singleton_append]

end Repeated

section Items

variable {item : Reader γ} {x t u : Chars} {r : Except ReadError γ} {first : Bool} {acc : List γ}
  {texts : List Chars}

theorem on_hasItem_end : (hasItem first).on (']' :: u) = .ok (false, ']' :: u) := by
  rw [hasItem, on_bind_of_ok (on_upcoming rfl)]
  rfl

theorem on_hasItem (hx : Begins x) :
    (hasItem first).on (left first (x :: texts) ++ u) = .ok (true, x ++ (left false texts ++ u)) := by
  have ⟨c, cs, ht, hb, hc⟩ := hx
  subst ht
  cases first
  case true =>
    rw [left_first_cons, List.append_assoc, List.cons_append, hasItem,
      on_bind_of_ok (on_upcoming hb), if_neg hc]
    rfl
  case false =>
    rw [left_later_cons, List.append_assoc, List.cons_append, List.cons_append, hasItem,
      on_bind_of_ok (on_upcoming rfl), if_neg (by decide), if_neg nofun, if_pos rfl,
      on_bind_of_ok on_advance, on_bind_of_ok (on_upcoming hb), if_neg hc]
    rfl

def listStep (item : Reader γ) : Bool × List γ → Reader (Step (Bool × List γ) (List γ)) :=
  fun (first, items) => do
    if ← hasItem first then return .more (false, (← item) :: items)
    else return .done items.reverse

theorem on_listStep_end :
    (listStep item (first, acc)).on (']' :: u) = .ok (.done acc.reverse, ']' :: u) := by
  rw [listStep, on_bind_of_ok on_hasItem_end]
  rfl

theorem on_listStep (hx : Reads item x r) (hu : Stops (left false texts ++ u)) :
    (listStep item (first, acc)).on (left first (x :: texts) ++ u) =
      r.map fun y => (.more (false, y :: acc), left false texts ++ u) := by
  rw [listStep, on_bind_of_ok (on_hasItem hx.begins), if_pos rfl, on_bind, hx.reads _ hu]
  cases r <;> rfl

theorem on_endArray : endArray.on (']' :: u) = .ok ((), u) := by
  rw [endArray, on_bind_of_ok (on_upcoming rfl)]
  rfl

end Items

end Reader

theorem reads_text (s : String) : Reads Reader.text (writeString s) (.ok s) where
  begins := ⟨_, _, rfl, rfl, by decide⟩
  reads rest _ := by
    have ht : writeString s ++ rest = '"' :: (s.toList.flatMap escape ++ '"' :: rest) := by
      simp [writeString]
    rw [ht, Reader.text, Reader.on_bind_of_ok (Reader.on_upcoming rfl), if_pos rfl,
      Reader.on_bind_of_ok Reader.on_advance, Reader.on_string]
    rfl

-- An array is read back if its items are, and with the first error that there is in them.
theorem reads_list {item : Reader γ} {write : β → Chars} {r : β → Except ReadError γ} {xs : List β}
    (h : ∀ x ∈ xs, Reads item (write x) (r x)) :
    Reads (Reader.list item) (writeArray write xs) (xs.mapM r) where
  begins := ⟨_, _, rfl, rfl, by decide⟩
  reads rest hr := by
    have ht : writeArray write xs ++ rest =
        '[' :: (Reader.left true (xs.map write) ++ ']' :: rest) := by
      simp [writeArray, Reader.left]
    have hl := Reader.length_lt_length_left (xs.map write) ']' rest
    rw [List.length_map] at hl
    rw [ht, Reader.list, Reader.on_bind_of_ok (Reader.on_upcoming rfl), if_pos rfl,
      Reader.on_bind_of_ok Reader.on_advance, Reader.on_bind]
    show (Reader.repeatStep (true, []) (Reader.listStep item)).on _ >>= _ = _
    rw [Reader.on_repeatStep, Reader.on_repeatFor_parts (.inl rfl)
      (fun _ _ => Reader.on_listStep_end) (fun x hx _ _ _ => Reader.on_listStep (h x hx)) hl]
    cases xs.mapM r
    case error e => rfl
    case ok ys => exact Reader.on_bind_of_ok (f := fun _ => pure ys) Reader.on_endArray

theorem reads_indices {ns : List Nat} (h : ∀ n ∈ ns, n < UInt64.size) :
    Reads (.list .index) (writeArray writeNat ns) (.ok ns) := by
  have hl := reads_list fun n hn => reads_index (h n hn)
  rwa [Lists.mapM_eq_ok_iff.mpr rfl] at hl

theorem reads_floats {xs : List Float} (h : ∀ x ∈ xs, ReadsBack x) :
    Reads (.list .float) (writeArray writeFloat xs)
      (if ∀ x ∈ xs, x.isFinite then .ok xs else .error .malformed) := by
  have hl := reads_list fun x hx => reads_float (h x hx)
  rwa [Lists.mapM_ite] at hl

section Members

def writeMember (member : String × Chars) : Chars :=
  writeString member.1 ++ ':' :: member.2

namespace Reader

variable {value : Reader γ} {acc : List (String × γ)} {name : String} {o : Except ReadError γ}
  {text u : Chars} {texts : List Chars} {first : Bool}

theorem on_nextName_end : (nextName first).on ('\x7d' :: u) = .ok (none, '\x7d' :: u) := by
  rw [nextName, on_bind_of_ok (on_upcoming rfl)]
  rfl

theorem on_nextName :
    (nextName first).on (left first (writeMember (name, text) :: texts) ++ u) =
      .ok (some name, ':' :: (text ++ (left false texts ++ u))) := by
  have hs : (do return some (← string)).on (name.toList.flatMap escape ++ '"' ::
      ':' :: (text ++ (left false texts ++ u))) =
        .ok (some name, ':' :: (text ++ (left false texts ++ u))) :=
    on_bind_of_ok (f := fun s => pure (some s)) (on_string name)
  have hw : writeMember (name, text) ++ (left false texts ++ u) =
      '"' :: (name.toList.flatMap escape ++ '"' :: ':' :: (text ++ (left false texts ++ u))) := by
    simp [writeMember, writeString]
  cases first
  case true =>
    rw [left_first_cons, List.append_assoc, hw, nextName, on_bind_of_ok (on_upcoming rfl),
      if_neg (by decide), if_pos rfl, if_pos rfl, on_bind_of_ok on_advance]
    exact hs
  case false =>
    rw [left_later_cons, List.cons_append, List.cons_append, List.append_assoc, hw, nextName,
      on_bind_of_ok (on_upcoming rfl), if_neg (by decide), if_neg nofun, if_pos rfl,
      on_bind_of_ok on_advance, on_bind_of_ok (on_upcoming rfl), if_pos rfl,
      on_bind_of_ok on_advance]
    exact hs

theorem on_colon : colon.on (':' :: u) = .ok ((), u) := by
  rw [colon, on_bind_of_ok (on_upcoming rfl)]
  rfl

theorem on_endObject : endObject.on ('\x7d' :: u) = .ok ((), u) := by
  rw [endObject, on_bind_of_ok (on_upcoming rfl)]
  rfl

def memberStep (value : Reader γ) :
    Bool × List (String × γ) → Reader (Step (Bool × List (String × γ)) (List (String × γ))) :=
  fun (first, found) => do
    match ← nextName first with
    | some name =>
      colon
      return .more (false, (name, ← value) :: found)
    | none => return .done found.reverse

theorem on_memberStep_end :
    (memberStep value (first, acc)).on ('\x7d' :: u) = .ok (.done acc.reverse, '\x7d' :: u) := by
  rw [memberStep, on_bind_of_ok on_nextName_end]
  rfl

theorem on_memberStep (ht : Reads value text o) (hu : Stops (left false texts ++ u)) :
    (memberStep value (first, acc)).on (left first (writeMember (name, text) :: texts) ++ u) =
      (o.map (name, ·)).map fun m => (.more (false, m :: acc), left false texts ++ u) := by
  rw [memberStep, on_bind_of_ok on_nextName]
  dsimp only
  rw [on_bind_of_ok on_colon, on_bind, ht.reads _ hu]
  cases o <;> rfl

end Reader

theorem reads_members {value : Reader γ} {write : β → Chars} {r : β → Except ReadError γ}
    {ms : List (String × β)} (h : ∀ m ∈ ms, Reads value (write m.2) (r m.2)) :
    Reads (Reader.members value) (writeObject (ms.map fun (name, b) => (name, write b)))
      (ms.mapM fun (name, b) => (r b).map (name, ·)) where
  begins := ⟨_, _, rfl, rfl, by decide⟩
  reads rest _ := by
    let text (m : String × β) : Chars := writeMember (m.1, write m.2)
    have ht : writeObject (ms.map fun (name, b) => (name, write b)) ++ rest =
        '\x7b' :: (Reader.left true (ms.map text) ++ '\x7d' :: rest) := by
      simp [writeObject, Reader.left, text, writeMember, Function.comp_def]
    have hl := Reader.length_lt_length_left (ms.map text) '\x7d' rest
    rw [List.length_map] at hl
    rw [ht, Reader.members, Reader.on_bind_of_ok (Reader.on_upcoming rfl), if_pos rfl,
      Reader.on_bind_of_ok Reader.on_advance, Reader.on_bind]
    show (Reader.repeatStep (true, []) (Reader.memberStep value)).on _ >>= _ = _
    rw [Reader.on_repeatStep, Reader.on_repeatFor_parts (.inr rfl)
      (fun _ _ => Reader.on_memberStep_end) (fun m hm _ _ _ => Reader.on_memberStep (h m hm)) hl]
    cases ms.mapM fun (name, b) => (r b).map (name, ·)
    case error e => rfl
    case ok found => exact Reader.on_bind_of_ok (f := fun _ => pure found) Reader.on_endObject

end Members

end ConicProgram.Json
