import ConicProgram.Proofs.Json.Collections

namespace ConicProgram.Json

variable {β γ σ : Type}

-- What becomes of a record when its fields are read from the texts of the members.
inductive ReadsFields : List (RecordField σ) → List (String × Chars) → σ → Except ReadError σ → Prop
  | done (r : σ) : ReadsFields [] [] r (.ok r)
  | next {field fields text members r r' o} (ht : Reads (field.read r) text (.ok r'))
      (h : ReadsFields fields members r' o) :
    ReadsFields (field :: fields) ((field.name, text) :: members) r o
  | broken {field fields text members r e} (ht : Reads (field.read r) text (.error e)) :
    ReadsFields (field :: fields) ((field.name, text) :: members) r (.error e)

variable {fields : List (RecordField σ)} {field : RecordField σ} {members : List (String × Chars)}
  {text : Chars} {r : σ} {o : Except ReadError σ}

-- A field whose value is there under a condition only.
theorem ReadsFields.check {a : Reader γ} {f : γ → σ} {b : γ} {c : Prop} [Decidable c]
    {e : ReadError} (ht : Reads a text (if c then .ok b else .error e))
    (hf : field.read r = do return f (← a)) (h : ReadsFields fields members (f b) o) :
    ReadsFields (field :: fields) ((field.name, text) :: members) r
      (if c then o else .error e) := by
  have ht := hf ▸ ht.map f
  by_cases hc : c
  case pos =>
    rw [if_pos hc] at ht ⊢
    exact .next ht h
  case neg =>
    rw [if_neg hc] at ht ⊢
    exact .broken ht

namespace Reader

variable {first : Bool} {before : List (RecordField σ)} {texts : List Chars} {u : Chars}

-- The fields in front are the ones that have been read, the last of them first.

theorem on_nextField_end :
    (nextField before ⟨first, (before.map (·.name)).reverse, r⟩).on ('\x7d' :: u) =
      .ok (.done r, '\x7d' :: u) := by
  have ha : before.all fun f => f.presence != .required ||
      (before.map (·.name)).reverse.contains f.name := by
    simp only [List.all_eq_true, Bool.or_eq_true, List.contains_iff_mem, List.mem_reverse]
    exact fun f hf => .inr (List.mem_map_of_mem hf)
  rw [nextField, on_bind_of_ok on_nextName_end]
  dsimp only
  rw [if_pos ha]
  rfl

theorem on_nextField (ht : Reads (field.read r) text o) (hu : Stops (left false texts ++ u))
    (hn : ((before ++ field :: fields).map (·.name)).Nodup) :
    (nextField (before ++ field :: fields) ⟨first, (before.map (·.name)).reverse, r⟩).on
        (left first (writeMember (field.name, text) :: texts) ++ u) =
      o.map fun r => (.more ⟨false, ((before ++ [field]).map (·.name)).reverse, r⟩,
        left false texts ++ u) := by
  have hb : field.name ∉ before.map (·.name) := by
    rw [List.map_append, List.map_cons] at hn
    exact fun h => (List.nodup_append.mp hn).2.2 _ h _ (List.mem_cons_self ..) rfl
  have hf : (before ++ field :: fields).find? (·.name == field.name) = some field := by
    refine List.find?_eq_some_iff_append.mpr ⟨by simp, before, fields, rfl, fun f hf => ?_⟩
    have hm := List.mem_map_of_mem (f := (·.name)) hf
    have hne : f.name ≠ field.name := fun he => hb (he ▸ hm)
    simpa using hne
  have hs : ¬(before.map (·.name)).reverse.contains field.name := by
    simpa using hb
  rw [nextField, on_bind_of_ok on_nextName]
  dsimp only
  rw [hf]
  dsimp only
  rw [if_neg hs, on_bind_of_ok on_colon, on_bind, ht.reads _ hu]
  cases o
  case error e => rfl
  case ok r' =>
    rw [List.map_append, List.reverse_append]
    rfl

theorem on_repeatFor_nextField {k : Nat} (h : ReadsFields fields members r o)
    (hn : ((before ++ fields).map (·.name)).Nodup) (hk : members.length < k) :
    (repeatFor k (nextField (before ++ fields)) ⟨first, (before.map (·.name)).reverse, r⟩).on
        (left first (members.map writeMember) ++ '\x7d' :: u) = o.map (·, '\x7d' :: u) := by
  induction k generalizing fields members r first before
  case zero => cases hk
  case succ k hi =>
    cases h
    case done =>
      rw [List.append_nil, List.map_nil, left_nil, List.nil_append,
        on_repeatFor_of_done on_nextField_end]
      rfl
    case next ht h =>
      rw [List.map_cons, on_repeatFor_of_more (on_nextField ht (stops_left (.inr rfl)) hn)]
      rw [List.append_cons] at hn ⊢
      exact hi h hn (Nat.lt_of_succ_lt_succ hk)
    case broken ht =>
      rw [List.map_cons, on_repeatFor_of_error (on_nextField ht (stops_left (.inr rfl)) hn)]
      rfl

end Reader

-- A record is read back from an object that has its fields in their order.
theorem reads_record (h : ReadsFields fields members r o) (hn : (fields.map (·.name)).Nodup) :
    Reads (Reader.record fields r) (writeObject members) o where
  begins := ⟨_, _, rfl, rfl, by decide⟩
  reads rest hr := by
    have ht : writeObject members ++ rest =
        '\x7b' :: (Reader.left true (members.map writeMember) ++ '\x7d' :: rest) := by
      show _ :: (listed (members.map writeMember) ++ ['\x7d']) ++ rest = _
      simp [Reader.left]
    have hl := Reader.length_lt_length_left (members.map writeMember) '\x7d' rest
    rw [List.length_map] at hl
    have hf : (Reader.repeatFor _ (Reader.nextField ([] ++ fields)) ⟨true, [], r⟩).on _ = _ :=
      Reader.on_repeatFor_nextField (u := rest) h hn hl
    rw [ht, Reader.record, Reader.on_bind_of_ok (Reader.on_upcoming rfl)]
    show (Reader.repeatStep ⟨true, [], r⟩ (Reader.nextField fields) >>= fun r => do
      Reader.endObject; return r).on (Reader.left true (members.map writeMember) ++ _) = _
    rw [Reader.on_bind, Reader.on_repeatStep, ← List.nil_append fields, hf]
    cases o
    case error e => rfl
    case ok r => exact Reader.on_bind_of_ok (f := fun _ => pure r) Reader.on_endObject

-- What is read of a value that stands alone.
theorem Form.parse_text {form : Form β} {b : β} {r : Except ReadError β}
    (h : Reads form.read (form.write b) r) : form.parse (form.text b) = r := by
  show ((do let value ← form.read; Reader.skipBlanks; return value : Reader β).on
    (String.ofList (form.write b)).toList >>= _) = _
  rw [String.toList_ofList, Reader.on_bind, h.on_text]
  cases r <;> rfl

end ConicProgram.Json
