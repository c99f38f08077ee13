import ConicProgram.Action

namespace ConicProgram

namespace Attempt

variable {ε δ β : Type}

theorem mapCause_eq_ok_iff {f : ε → δ} {a : Attempt ε β} {b : β} :
    mapCause f a = .ok b ↔ a = .ok b := by
  rcases a with (_ | _) | _ <;> simp [mapCause, fault, refuse]

theorem ofOption_eq_ok_iff {o : Option β} {b : β} :
    (ofOption o : Attempt ε β) = .ok b ↔ o = some b := by
  cases o <;> simp [ofOption, fault]

theorem ofExcept_eq_ok_iff {e : Except ε β} {b : β} : ofExcept e = .ok b ↔ e = .ok b := by
  cases e <;> simp [ofExcept, refuse]

theorem bind_eq_ok_iff {a : Attempt ε β} {f : β → Attempt ε δ} {d : δ} :
    (a >>= f) = .ok d ↔ ∃ b, a = .ok b ∧ f b = .ok d := by
  cases a <;> simp [bind, Except.bind]

theorem bind_eq_error_iff {a : Attempt ε β} {f : β → Attempt ε δ} {e : Failure ε} :
    (a >>= f) = .error e ↔ a = .error e ∨ ∃ b, a = .ok b ∧ f b = .error e := by
  cases a <;> simp [bind, Except.bind]

section Meets

variable {γ : Type} {a : Attempt ε β} {f : β → Attempt ε δ} {q q' : β → Prop} {r : δ → Prop}

-- The attempt does not end in a fault, and what comes of it is as it should be.
def Meets : Attempt ε β → (β → Prop) → Prop
  | .ok b, q => q b
  | .error .fault, _ => False
  | .error (.refused _), _ => True

theorem meets_iff : a.Meets q ↔ a ≠ .error .fault ∧ ∀ b, a = .ok b → q b := by
  rcases a with (_ | _) | _ <;> simp [Meets]

theorem Meets.ne_fault (h : a.Meets q) : a ≠ .error .fault :=
  (meets_iff.mp h).1

-- What is known of a result in another way.
theorem Meets.of_ok (h : a.Meets q) (hq : ∀ b, a = .ok b → q' b) : a.Meets q' :=
  meets_iff.mpr ⟨h.ne_fault, hq⟩

theorem meets_ofOption {o : Option β} {b : β} (h : o = some b) (hq : q b) :
    (ofOption o : Attempt ε β).Meets q := by
  rw [h]
  exact hq

theorem meets_ofExcept {e : Except ε β} (h : ∀ b, e = .ok b → q b) : (ofExcept e).Meets q := by
  cases e
  case error => trivial
  case ok b => exact h b rfl

theorem meets_check {c : Prop} [Decidable c] {cause : ε} (h : ¬c → a.Meets q) :
    (if c then refuse cause else a).Meets q := by
  split
  case isTrue => trivial
  case isFalse hc => exact h hc

theorem Meets.bind (h : a.Meets q) (hf : ∀ b, q b → (f b).Meets r) : (a >>= f).Meets r := by
  rcases a with (_ | _) | _
  case error.fault => exact h
  case error.refused => trivial
  case ok b => exact hf b h

-- The induction is on the list: each step keeps what holds of the value that is built up.
theorem meets_foldlM {p : γ → Prop} {g : γ → β → Attempt ε γ} {xs : List β} {c : γ} (hc : p c)
    (h : ∀ x ∈ xs, ∀ c, p c → (g c x).Meets p) : (xs.foldlM g c).Meets p := by
  induction xs generalizing c
  case nil => exact hc
  case cons x xs hi =>
    rw [List.foldlM_cons]
    refine (h x (List.mem_cons_self ..) c hc).bind fun c hc => ?_
    exact hi hc fun y hy => h y (List.mem_cons_of_mem _ hy)

theorem meets_mapM {xs : List β} (h : ∀ x ∈ xs, (f x).Meets r) :
    (xs.mapM f).Meets fun ys => ∀ y ∈ ys, r y := by
  induction xs
  case nil => exact List.forall_mem_nil _
  case cons x xs hi =>
    rw [List.mapM_cons]
    refine (h x (List.mem_cons_self ..)).bind fun y hy => ?_
    refine (hi fun z hz => h z (List.mem_cons_of_mem _ hz)).bind fun ys hys => ?_
    exact List.forall_mem_cons.mpr ⟨hy, hys⟩

end Meets
end Attempt

namespace Action

variable {α σ τ ω ε δ β γ : Type} {c c' : Context α σ ω}

@[simp]
theorem perform_pure (b : β) : (pure b : Action α σ ω ε β).perform c = (.ok b, c) :=
  rfl

theorem perform_bind (a : Action α σ ω ε β) (f : β → Action α σ ω ε γ) :
    (a >>= f).perform c = match a.perform c with
      | (.ok b, d) => (f b).perform d
      | (.error e, d) => (.error e, d) := by
  show ExceptT.bindCont f (a.perform c).1 (a.perform c).2 = _
  rcases a.perform c with ⟨_ | _, _⟩ <;> rfl

theorem perform_bind_of_ok {a : Action α σ ω ε β} {f : β → Action α σ ω ε γ} {b : β}
    (h : a.perform c = (.ok b, c')) : (a >>= f).perform c = (f b).perform c' := by
  rw [perform_bind, h]

theorem perform_bind_of_error {a : Action α σ ω ε β} {f : β → Action α σ ω ε γ} {e : Failure ε}
    (h : a.perform c = (.error e, c')) : (a >>= f).perform c = (.error e, c') := by
  rw [perform_bind, h]

-- An action in two parts succeeds if both of them do, the second one where the first one ends.
theorem perform_bind_eq_ok_iff {a : Action α σ ω ε β} {f : β → Action α σ ω ε γ} {r : γ} :
    (a >>= f).perform c = (.ok r, c') ↔
      ∃ b d, a.perform c = (.ok b, d) ∧ (f b).perform d = (.ok r, c') := by
  rw [perform_bind]
  rcases a.perform c with ⟨_ | b, d⟩
  case error => simp
  case ok => exact ⟨fun h => ⟨b, d, rfl, h⟩, fun ⟨_, _, hb, h⟩ => by cases hb; exact h⟩

@[simp]
theorem perform_ofAttempt (a : Attempt ε β) :
    (ofAttempt a : Action α σ ω ε β).perform c = (a, c) := by
  cases a <;> rfl

@[simp]
theorem perform_ofOption (o : Option β) :
    (ofOption o : Action α σ ω ε β).perform c = (.ofOption o, c) :=
  perform_ofAttempt _

@[simp]
theorem perform_ofExcept (e : Except ε β) :
    (ofExcept e : Action α σ ω ε β).perform c = (.ofExcept e, c) :=
  perform_ofAttempt _

@[simp]
theorem perform_record (e : Event α) :
    (record e : Action α σ ω ε Unit).perform c = (.ok (), { c with log := c.log ++ [e] }) :=
  rfl

@[simp]
theorem perform_state : (state : Action α σ ω ε σ).perform c = (.ok c.state, c) :=
  rfl

@[simp]
theorem perform_modifyState (f : σ → σ) :
    (modifyState f : Action α σ ω ε Unit).perform c = (.ok (), { c with state := f c.state }) :=
  rfl

theorem perform_ask (question : StateM ω β) :
    (ask question : Action α σ ω ε β).perform c =
      (.ok (question.run c.outside).1, { c with outside := (question.run c.outside).2 }) :=
  rfl

theorem perform_mapCause (f : ε → δ) (a : Action α σ ω ε β) :
    (a.mapCause f).perform c = (Attempt.mapCause f (a.perform c).1, (a.perform c).2) :=
  rfl

theorem perform_runOn (s : σ) (a : Action α σ ω ε β) (d : Context α τ ω) :
    (a.runOn s : Action α τ ω δ (Attempt ε β × σ)).perform d =
      let r := a.perform { d with state := s }
      (.ok (r.1, r.2.state), { r.2 with state := d.state }) :=
  rfl

theorem perform_startOn (s : σ) (a : Action α σ ω ε β) (d : Context α τ ω) :
    (a.startOn s : Action α τ ω ε (β × σ)).perform d =
      let r := a.perform { d with state := s }
      (r.1.map (·, r.2.state), { r.2 with state := d.state }) := by
  simp only [startOn, perform_bind, perform_runOn, perform_ofAttempt]
  cases (a.perform { d with state := s }).1 <;> rfl

theorem perform_within (part : τ → σ) (replace : σ → τ → τ) (a : Action α σ ω ε β)
    (d : Context α τ ω) :
    (a.within part replace).perform d =
      let r := a.perform { d with state := part d.state }
      (r.1, { r.2 with state := replace r.2.state d.state }) := by
  simp only [within, perform_bind, perform_state, perform_runOn, perform_modifyState,
    perform_ofAttempt]

section Yields

variable {s s' s'' : σ} {b : β} {r : γ} {a : Action α σ ω ε β} {f : β → Action α σ ω ε γ}

-- From `s` the action succeeds with `b` and leaves `s'`, without asking what lies outside.
def Yields (a : Action α σ ω ε β) (s : σ) (b : β) (s' : σ) : Prop :=
  ∀ outside log, ∃ log', a.perform ⟨s, outside, log⟩ = (.ok b, ⟨s', outside, log'⟩)

-- Where anything lies outside, there is one way to succeed.
theorem Yields.unique {b' : β} (o : ω) (h₁ : a.Yields s b s') (h₂ : a.Yields s b' s'') :
    b = b' ∧ s' = s'' := by
  have ⟨_, h₁⟩ := h₁ o []
  have ⟨_, h₂⟩ := h₂ o []
  cases h₁.symm.trans h₂
  exact ⟨rfl, rfl⟩

theorem yields_pure : (pure b : Action α σ ω ε β).Yields s b s :=
  fun _ log => ⟨log, rfl⟩

theorem Yields.bind (h₁ : a.Yields s b s') (h₂ : (f b).Yields s' r s'') :
    (a >>= f).Yields s r s'' := by
  intro outside log
  have ⟨log', h₁⟩ := h₁ outside log
  have ⟨log'', h₂⟩ := h₂ outside log'
  exact ⟨log'', by rw [perform_bind_of_ok h₁, h₂]⟩

theorem yields_ofAttempt {t : Attempt ε β} (h : t = .ok b) :
    (ofAttempt t : Action α σ ω ε β).Yields s b s := by
  intro _ log
  exact ⟨log, by rw [perform_ofAttempt, h]⟩

theorem yields_ofOption {o : Option β} (h : o = some b) :
    (ofOption o : Action α σ ω ε β).Yields s b s :=
  yields_ofAttempt (Attempt.ofOption_eq_ok_iff.mpr h)

theorem yields_record (e : Event α) : (record e : Action α σ ω ε Unit).Yields s () s :=
  fun _ log => ⟨log ++ [e], rfl⟩

theorem yields_state : (state : Action α σ ω ε σ).Yields s s s :=
  fun _ log => ⟨log, rfl⟩

theorem yields_modifyState (f : σ → σ) : (modifyState f : Action α σ ω ε Unit).Yields s () (f s) :=
  fun _ log => ⟨log, rfl⟩

theorem yields_ask {question : StateM ω β} (h : question = pure b) :
    (ask question : Action α σ ω ε β).Yields s b s := by
  rw [h]
  exact fun _ log => ⟨log, rfl⟩

theorem Yields.mapCause (h : a.Yields s b s') (f : ε → δ) : (a.mapCause f).Yields s b s' := by
  intro outside log
  have ⟨log', h⟩ := h outside log
  exact ⟨log', by rw [perform_mapCause, h]; rfl⟩

theorem Yields.startOn (h : a.Yields s b s') (t : τ) :
    (a.startOn s : Action α τ ω ε (β × σ)).Yields t (b, s') t := by
  intro outside log
  have ⟨log', h⟩ := h outside log
  exact ⟨log', by rw [perform_startOn, h]; rfl⟩

theorem Yields.runOn (h : a.Yields s b s') (t : τ) :
    (a.runOn s : Action α τ ω δ (Attempt ε β × σ)).Yields t (.ok b, s') t := by
  intro outside log
  have ⟨log', h⟩ := h outside log
  exact ⟨log', by rw [perform_runOn, h]⟩

theorem Yields.within {part : τ → σ} {replace : σ → τ → τ} {t : τ} (h : a.Yields (part t) b s') :
    (a.within part replace).Yields t b (replace s' t) := by
  intro outside log
  have ⟨log', h⟩ := h outside log
  exact ⟨log', by rw [perform_within, h]⟩

end Yields

section Keeps

variable {f : σ → τ} {a : Action α σ ω ε β} {g : β → Action α σ ω ε γ}

-- However the action ends, what is read off the state is as it was.
def Keeps (a : Action α σ ω ε β) (f : σ → τ) : Prop :=
  ∀ c, f (a.perform c).2.state = f c.state

theorem keeps_pure (b : β) : (pure b : Action α σ ω ε β).Keeps f :=
  fun _ => rfl

theorem Keeps.bind (ha : a.Keeps f) (hg : ∀ b, (g b).Keeps f) : (a >>= g).Keeps f := by
  intro c
  have hc := ha c
  cases h : a.perform c
  case mk r d =>
    rw [h] at hc
    cases r
    case error e => rw [perform_bind_of_error h, hc]
    case ok b => rw [perform_bind_of_ok h, hg b d, hc]

theorem keeps_ofAttempt (t : Attempt ε β) : (ofAttempt t : Action α σ ω ε β).Keeps f := by
  intro c
  rw [perform_ofAttempt]

theorem keeps_record (e : Event α) : (record e : Action α σ ω ε Unit).Keeps f :=
  fun _ => rfl

theorem keeps_state : (state : Action α σ ω ε σ).Keeps f :=
  fun _ => rfl

theorem keeps_modifyState {g : σ → σ} (h : ∀ s, f (g s) = f s) :
    (modifyState g : Action α σ ω ε Unit).Keeps f :=
  fun c => h c.state

theorem keeps_ask (question : StateM ω β) : (ask question : Action α σ ω ε β).Keeps f :=
  fun _ => rfl

-- What is done on another state does not concern the one at hand.
theorem keeps_startOn {g : τ → δ} (s : σ) (a : Action α σ ω ε β) :
    (a.startOn s : Action α τ ω ε (β × σ)).Keeps g := by
  intro c
  rw [perform_startOn]

-- What is kept in the part is kept in the whole.
theorem Keeps.within {ρ κ : Type} {part : ρ → σ} {replace : σ → ρ → ρ} {g : ρ → κ}
    (h : a.Keeps f) (hg : ∀ s t, f s = f (part t) → g (replace s t) = g t) :
    (a.within part replace).Keeps g := by
  intro c
  rw [perform_within]
  exact hg _ _ (h { c with state := part c.state })

theorem Keeps.eq_of_yields {s s' : σ} {b : β} (h : a.Keeps f) (o : ω) (hy : a.Yields s b s') :
    f s' = f s := by
  have ⟨_, hy⟩ := hy o []
  have hk := h ⟨s, o, []⟩
  rw [hy] at hk
  exact hk

end Keeps

section Hereditary

-- What is true of an action if it is true of the parts that it is put together from.
structure Hereditary (P : ∀ {β : Type}, Action α σ ω ε β → Prop) : Prop where
  pure      : ∀ {β : Type} (b : β), P (pure b : Action α σ ω ε β)
  ofAttempt : ∀ {β : Type} (t : Attempt ε β), P (ofAttempt t : Action α σ ω ε β)
  record    : ∀ e : Event α, P (record e : Action α σ ω ε Unit)
  bind      : ∀ {β γ : Type} {a : Action α σ ω ε β} {f : β → Action α σ ω ε γ},
    P a → (∀ b, P (f b)) → P (a >>= f)

theorem hereditary_keeps (f : σ → τ) :
    Hereditary fun {β} (a : Action α σ ω ε β) => a.Keeps f where
  pure := keeps_pure
  ofAttempt := keeps_ofAttempt
  record := keeps_record
  bind := Keeps.bind

end Hereditary

section Silent

variable {a : Action α σ ω ε β} {f : β → Action α σ ω ε γ}

-- However the action ends, nothing that lies outside has been asked.
def Silent (a : Action α σ ω ε β) : Prop :=
  ∀ c, (a.perform c).2.outside = c.outside

theorem silent_ofAttempt (t : Attempt ε β) : (ofAttempt t : Action α σ ω ε β).Silent := by
  intro c
  rw [perform_ofAttempt]

theorem silent_state : (state : Action α σ ω ε σ).Silent :=
  fun _ => rfl

theorem silent_modifyState (g : σ → σ) : (modifyState g : Action α σ ω ε Unit).Silent :=
  fun _ => rfl

theorem outside_bind_of_silent (hf : ∀ b, (f b).Silent) :
    ((a >>= f).perform c).2.outside = (a.perform c).2.outside := by
  cases h : a.perform c
  case mk r d =>
    cases r
    case error e => rw [perform_bind_of_error h]
    case ok b => rw [perform_bind_of_ok h, hf b d]

theorem Silent.bind (ha : a.Silent) (hf : ∀ b, (f b).Silent) : (a >>= f).Silent :=
  fun c => (outside_bind_of_silent hf).trans (ha c)

theorem hereditary_silent : Hereditary fun {β} (a : Action α σ ω ε β) => a.Silent where
  pure _ _ := rfl
  ofAttempt := silent_ofAttempt
  record _ _ := rfl
  bind := Silent.bind

theorem Silent.runOn (h : a.Silent) (s : σ) :
    (a.runOn s : Action α τ ω δ (Attempt ε β × σ)).Silent := by
  intro c
  rw [perform_runOn]
  exact h { c with state := s }

theorem Silent.within {ρ : Type} {part : ρ → σ} {replace : σ → ρ → ρ} (h : a.Silent) :
    (a.within part replace).Silent := by
  intro c
  rw [perform_within]
  exact h { c with state := part c.state }

end Silent

section Ensures

variable {s s' : σ} {b : β} {a : Action α σ ω ε β} {f : β → Action α σ ω ε γ}
  {Q : Attempt ε β → σ → Prop} {R : Attempt ε γ → σ → Prop}

-- Started from `s` the action ends with `Q` of what comes out of it and of the state it leaves.
def Ensures (a : Action α σ ω ε β) (s : σ) (Q : Attempt ε β → σ → Prop) : Prop :=
  ∀ outside log, Q (a.perform ⟨s, outside, log⟩).1 (a.perform ⟨s, outside, log⟩).2.state

theorem ensures_pure (h : Q (.ok b) s) : (pure b : Action α σ ω ε β).Ensures s Q :=
  fun _ _ => h

theorem ensures_ofAttempt {t : Attempt ε β} (h : Q t s) :
    (ofAttempt t : Action α σ ω ε β).Ensures s Q := by
  intro outside log
  rw [perform_ofAttempt]
  exact h

theorem Ensures.mono {Q' : Attempt ε β → σ → Prop} (h : a.Ensures s Q)
    (hq : ∀ r s', Q r s' → Q' r s') : a.Ensures s Q' :=
  fun outside log => hq _ _ (h outside log)

theorem Ensures.bind (ha : a.Ensures s Q) (hok : ∀ b s', Q (.ok b) s' → (f b).Ensures s' R)
    (herror : ∀ e s', Q (.error e) s' → R (.error e) s') : (a >>= f).Ensures s R := by
  intro outside log
  have hq := ha outside log
  cases h : a.perform ⟨s, outside, log⟩
  case mk r d =>
    rw [h] at hq
    cases r
    case error e =>
      rw [perform_bind_of_error h]
      exact herror e d.state hq
    case ok b =>
      rw [perform_bind_of_ok h]
      exact hok b d.state hq d.outside d.log

theorem Yields.ensures_bind (ha : a.Yields s b s') (hf : (f b).Ensures s' R) :
    (a >>= f).Ensures s R := by
  intro outside log
  have ⟨log', h⟩ := ha outside log
  rw [perform_bind_of_ok h]
  exact hf outside log'

theorem Keeps.ensures {g : σ → τ} (h : a.Keeps g) (s : σ) :
    a.Ensures s fun _ s' => g s' = g s :=
  fun outside log => h ⟨s, outside, log⟩

-- On another state an action can do nothing to the one at hand.
theorem Ensures.runOn (h : a.Ensures s Q) (t : τ) :
    (a.runOn s : Action α τ ω δ (Attempt ε β × σ)).Ensures t fun r t' =>
      t' = t ∧ ∃ b s', r = .ok (b, s') ∧ Q b s' :=
  fun outside log => ⟨rfl, _, _, rfl, h outside log⟩

theorem Ensures.and {Q' : Attempt ε β → σ → Prop} (h : a.Ensures s Q) (h' : a.Ensures s Q') :
    a.Ensures s fun r s' => Q r s' ∧ Q' r s' :=
  fun outside log => ⟨h outside log, h' outside log⟩

-- The state that is left to a failed action is lost.
theorem Ensures.startOn_cases (h : a.Ensures s Q) (t : τ) :
    (a.startOn s : Action α τ ω ε (β × σ)).Ensures t fun r t' =>
      t' = t ∧ ((∃ e s', r = .error e ∧ Q (.error e) s') ∨
        ∃ b s', r = .ok (b, s') ∧ Q (.ok b) s') := by
  intro outside log
  have hq := h outside log
  rw [perform_startOn]
  refine ⟨rfl, ?_⟩
  dsimp only
  cases hp : (a.perform ⟨s, outside, log⟩).1 <;> rw [hp] at hq
  case error e => exact .inl ⟨e, _, rfl, hq⟩
  case ok b => exact .inr ⟨b, _, rfl, hq⟩

theorem Ensures.startOn (h : a.Ensures s Q) (t : τ) :
    (a.startOn s : Action α τ ω ε (β × σ)).Ensures t fun r t' =>
      t' = t ∧ ∀ b s', r = .ok (b, s') → Q (.ok b) s' := by
  refine (h.startOn_cases t).mono fun r t' ⟨ht, hr⟩ => ⟨ht, fun b s' he => ?_⟩
  rcases hr with ⟨_, _, rfl, _⟩ | ⟨_, _, rfl, hq⟩ <;> cases he
  exact hq

end Ensures
end Action
end ConicProgram
