import Clif.Effect.State

/-!
# Effect.Wp — what holds of the history whenever a program ends

`Wp p Q h` says that `p`, started after the history `h`, ends with a result and a history that
satisfy `Q`, whatever the outside world answers.  Each way of building a program has its rule, an
`iff` that moves the condition backwards through the program; `wp_keep` carries along what no
exchange of the program can break.
-/

namespace Effect

variable {S : Sig} {E σ τ α β : Type}

/-! ## Histories -/

/-- Every entry is allowed by the ones before it. -/
def Guarded (P : List α → α → Prop) (t : List α) : Prop :=
  ∀ t₁ e t₂, t = t₁ ++ e :: t₂ → P t₁ e

section Guarded

variable {P : List α → α → Prop} {h : List α} {e : α}

theorem guarded_nil : Guarded P [] := by
  intro t₁ e t₂ ht
  simp at ht

theorem guarded_snoc : Guarded P (h ++ [e]) ↔ Guarded P h ∧ P h e := by
  constructor
  · intro hg
    refine ⟨fun t₁ e' t₂ ht => hg t₁ e' (t₂ ++ [e]) ?_, hg h e [] rfl⟩
    rw [ht, List.append_assoc, List.cons_append]
  · rintro ⟨hg, he⟩ t₁ e' t₂ ht
    rcases List.eq_nil_or_concat t₂ with rfl | ⟨t₃, e'', rfl⟩
    · obtain ⟨rfl, hee⟩ := List.append_inj' ht rfl
      cases hee
      exact he
    · rw [List.concat_eq_append, ← List.cons_append, ← List.append_assoc] at ht
      obtain ⟨rfl, -⟩ := List.append_inj' ht rfl
      exact hg t₁ e' t₃ rfl

end Guarded

section

variable {φ : Event S → Prop} {I : List (Event S) → Prop} {h t : List (Event S)}

/-- What no exchange of `t` breaks holds after `t`. -/
theorem keep_append (hI : ∀ h e, I h → φ e → I (h ++ [e])) (ht : ∀ e ∈ t, φ e) (hi : I h) :
    I (h ++ t) := by
  induction t generalizing h with
  | nil => rwa [List.append_nil]
  | cons e t ih =>
    obtain ⟨he, ht⟩ := List.forall_mem_cons.mp ht
    have hstep := ih ht (hI h e hi he)
    rwa [List.append_assoc] at hstep

end

/-! ## Conditions at the end of a run -/

/-- Every run of `p` after the history `h` ends with `Q`. -/
def Wp (p : Act S E α) (Q : Except E α → List (Event S) → Prop) (h : List (Event S)) : Prop :=
  ∀ t r, Runs p t r → Q r (h ++ t)

/-- Every run of `p` on `s` after the history `h` ends with `Q`. -/
def WpOn (p : StAct S E σ α) (Q : Except E α → List (Event S) → σ → Prop) (h : List (Event S))
    (s : σ) : Prop :=
  ∀ t r s', RunsOn p s t r s' → Q r (h ++ t) s'

section Wp

variable {p : Act S E α} {f : α → Act S E β} {Q Q' : Except E α → List (Event S) → Prop}
  {h : List (Event S)}

theorem Wp.mono (hp : Wp p Q h) (hQ : ∀ r h', Q r h' → Q' r h') : Wp p Q' h :=
  fun t r hr => hQ r (h ++ t) (hp t r hr)

theorem wp_pure {a : α} : Wp (pure a : Act S E α) Q h ↔ Q (.ok a) h := by
  constructor
  · intro hp
    have hq := hp [] (.ok a) ⟨rfl, rfl⟩
    rwa [List.append_nil] at hq
  · rintro hq t r ⟨rfl, rfl⟩
    rwa [List.append_nil]

theorem wp_throw {e : E} : Wp (throw e : Act S E α) Q h ↔ Q (.error e) h := by
  constructor
  · intro hp
    have hq := hp [] (.error e) ⟨rfl, rfl⟩
    rwa [List.append_nil] at hq
  · rintro hq t r ⟨rfl, rfl⟩
    rwa [List.append_nil]

theorem wp_fromExcept {x : Except E α} : Wp (fromExcept x : Act S E α) Q h ↔ Q x h := by
  constructor
  · intro hp
    have hq := hp [] x ⟨rfl, rfl⟩
    rwa [List.append_nil] at hq
  · rintro hq t r ⟨rfl, rfl⟩
    rwa [List.append_nil]

theorem wp_ask {op : S.Op} {Q : Except E (S.Ans op) → List (Event S) → Prop} :
    Wp (ask op : Act S E _) Q h ↔ ∀ ans, Q (.ok ans) (h ++ [⟨op, ans⟩]) := by
  constructor
  · exact fun hp ans => hp _ _ (runs_ask.mpr ⟨ans, rfl, rfl⟩)
  · intro hq t r hr
    obtain ⟨ans, rfl, rfl⟩ := runs_ask.mp hr
    exact hq ans

/-- How the condition of a sequence reaches its first part. -/
def andThen (f : α → Act S E β) (Q : Except E β → List (Event S) → Prop) :
    Except E α → List (Event S) → Prop
  | .ok a, h => Wp (f a) Q h
  | .error e, h => Q (.error e) h

theorem wp_bind {Q : Except E β → List (Event S) → Prop} :
    Wp (p >>= f) Q h ↔ Wp p (andThen f Q) h := by
  constructor
  · intro hp t r hr
    cases r with
    | ok a =>
      intro t' r' hr'
      rw [List.append_assoc]
      exact hp _ _ (runs_bind_ok hr hr')
    | error e => exact hp _ _ (runs_bind_error hr)
  · intro hp t r hr
    rcases runs_bind.mp hr with ⟨a, t₁, t₂, rfl, h₁, h₂⟩ | ⟨e, h₁, rfl⟩
    · rw [← List.append_assoc]
      exact hp _ _ h₁ _ _ h₂
    · exact hp _ _ h₁

theorem wp_attempt {Q : Except E (Except E α) → List (Event S) → Prop} :
    Wp (attempt p) Q h ↔ Wp p (fun x h' => Q (.ok x) h') h := by
  constructor
  · exact fun hp t x hx => hp t (.ok x) (runs_attempt.mpr ⟨x, hx, rfl⟩)
  · intro hp t r hr
    obtain ⟨x, hx, rfl⟩ := runs_attempt.mp hr
    exact hp t x hx

theorem wp_attempt_bind {g : Except E α → Act S E β} {Q : Except E β → List (Event S) → Prop} :
    Wp (attempt p >>= g) Q h ↔ Wp p (fun x h' => Wp (g x) Q h') h := by
  rw [wp_bind, wp_attempt]
  rfl

theorem wp_any (hQ : ∀ r h', Q r h') : Wp p Q h := fun t r _ => hQ r (h ++ t)

/-- Where the first part leaves no trace in the condition. -/
theorem wp_bind_any {Q : Except E β → List (Event S) → Prop} (hf : ∀ a h', Wp (f a) Q h')
    (he : ∀ e h', Q (.error e) h') : Wp (p >>= f) Q h := by
  rw [wp_bind]
  refine wp_any fun r h' => ?_
  cases r with
  | ok a => exact hf a h'
  | error e => exact he e h'

theorem wp_attempt_any {g : Except E α → Act S E β} {Q : Except E β → List (Event S) → Prop}
    (hg : ∀ x h', Wp (g x) Q h') : Wp (attempt p >>= g) Q h :=
  wp_attempt_bind.mpr (wp_any hg)

/-- What no exchange of the program breaks still holds when it ends. -/
theorem wp_keep {φ : Event S → Prop} {I : List (Event S) → Prop} (hp : Emits p φ)
    (hI : ∀ h e, I h → φ e → I (h ++ [e])) (hi : I h) : Wp p (fun _ h' => I h') h :=
  fun t r hr => keep_append hI (hp t r hr) hi

end Wp

section WpOn

variable {p : StAct S E σ α} {f : α → StAct S E σ β}
  {Q Q' : Except E α → List (Event S) → σ → Prop} {h : List (Event S)} {s : σ}

theorem WpOn.mono (hp : WpOn p Q h s) (hQ : ∀ r h' s', Q r h' s' → Q' r h' s') : WpOn p Q' h s :=
  fun t r s' hr => hQ r (h ++ t) s' (hp t r s' hr)

theorem wpOn_pure {a : α} : WpOn (pure a : StAct S E σ α) Q h s ↔ Q (.ok a) h s := by
  constructor
  · intro hp
    have hq := hp [] (.ok a) s (runsOn_pure.mpr ⟨rfl, rfl, rfl⟩)
    rwa [List.append_nil] at hq
  · intro hq t r s' hr
    obtain ⟨rfl, rfl, rfl⟩ := runsOn_pure.mp hr
    rwa [List.append_nil]

theorem wpOn_throw {e : E} : WpOn (throw e : StAct S E σ α) Q h s ↔ Q (.error e) h s := by
  constructor
  · intro hp
    have hq := hp [] (.error e) s (runsOn_throw.mpr ⟨rfl, rfl, rfl⟩)
    rwa [List.append_nil] at hq
  · intro hq t r s' hr
    obtain ⟨rfl, rfl, rfl⟩ := runsOn_throw.mp hr
    rwa [List.append_nil]

theorem wpOn_lift {q : Act S E α} :
    WpOn (lift q : StAct S E σ α) Q h s ↔ Wp q (fun r h' => Q r h' s) h := by
  constructor
  · exact fun hp t r hr => hp t r s (runsOn_lift.mpr ⟨hr, rfl⟩)
  · intro hp t r s' hr
    obtain ⟨hq, rfl⟩ := runsOn_lift.mp hr
    exact hp t r hq

/-- How the condition of a sequence reaches its first part. -/
def andThenOn (f : α → StAct S E σ β) (Q : Except E β → List (Event S) → σ → Prop) :
    Except E α → List (Event S) → σ → Prop
  | .ok a, h, s => WpOn (f a) Q h s
  | .error e, h, s => Q (.error e) h s

theorem wpOn_bind {Q : Except E β → List (Event S) → σ → Prop} :
    WpOn (p >>= f) Q h s ↔ WpOn p (andThenOn f Q) h s := by
  constructor
  · intro hp t r s₁ hr
    cases r with
    | ok a =>
      intro t' r' s' hr'
      rw [List.append_assoc]
      exact hp _ _ _ (runsOn_bind_ok hr hr')
    | error e => exact hp _ _ _ (runsOn_bind.mpr (Or.inr ⟨e, hr, rfl⟩))
  · intro hp t r s' hr
    rcases runsOn_bind.mp hr with ⟨a, t₁, t₂, s₁, rfl, h₁, h₂⟩ | ⟨e, h₁, rfl⟩
    · rw [← List.append_assoc]
      exact hp _ _ _ h₁ _ _ _ h₂
    · exact hp _ _ _ h₁

/-- A sequence, from what is known of its first part. -/
theorem WpOn.bind {R : Except E α → List (Event S) → σ → Prop}
    {Q : Except E β → List (Event S) → σ → Prop} (hp : WpOn p R h s)
    (hf : ∀ a h' s', R (.ok a) h' s' → WpOn (f a) Q h' s')
    (he : ∀ e h' s', R (.error e) h' s' → Q (.error e) h' s') : WpOn (p >>= f) Q h s := by
  rw [wpOn_bind]
  refine hp.mono fun r h' s' hr => ?_
  cases r with
  | ok a => exact hf a h' s' hr
  | error e => exact he e h' s' hr

/-- A sequence whose first part does not touch the object. -/
theorem Wp.lift_bind {q : Act S E α} {R : Except E α → List (Event S) → Prop}
    {Q : Except E β → List (Event S) → σ → Prop} (hq : Wp q R h)
    (hf : ∀ a h', R (.ok a) h' → WpOn (f a) Q h' s)
    (he : ∀ e h', R (.error e) h' → Q (.error e) h' s) : WpOn (lift q >>= f) Q h s := by
  rw [wpOn_bind, wpOn_lift]
  refine hq.mono fun r h' hr => ?_
  cases r with
  | ok a => exact hf a h' hr
  | error e => exact he e h' hr

/-- Where that part leaves no trace in the condition either. -/
theorem wpOn_lift_bind_any {q : Act S E α} {Q : Except E β → List (Event S) → σ → Prop}
    (hf : ∀ a h', WpOn (f a) Q h' s) (he : ∀ e h', Q (.error e) h' s) :
    WpOn (lift q >>= f) Q h s :=
  (wp_any fun _ _ => trivial : Wp q (fun _ _ => True) h).lift_bind (fun a h' _ => hf a h')
    fun e h' _ => he e h'

theorem wpOn_get_bind {g : σ → StAct S E σ β} {Q : Except E β → List (Event S) → σ → Prop} :
    WpOn (get >>= g) Q h s ↔ WpOn (g s) Q h s := by
  constructor
  · exact fun hp t r s' hr => hp t r s' (runsOn_get_bind.mpr hr)
  · exact fun hp t r s' hr => hp t r s' (runsOn_get_bind.mp hr)

theorem wpOn_modify_bind {m : σ → σ} {g : PUnit → StAct S E σ β}
    {Q : Except E β → List (Event S) → σ → Prop} :
    WpOn (modify m >>= g) Q h s ↔ WpOn (g ⟨⟩) Q h (m s) := by
  constructor
  · exact fun hp t r s' hr => hp t r s' (runsOn_modify_bind.mpr hr)
  · exact fun hp t r s' hr => hp t r s' (runsOn_modify_bind.mp hr)

theorem wpOn_attempt_bind {g : Except E α → StAct S E σ β}
    {Q : Except E β → List (Event S) → σ → Prop} :
    WpOn (attemptOn p >>= g) Q h s ↔ WpOn p (fun x h' s' => WpOn (g x) Q h' s') h s := by
  constructor
  · intro hp t x s₁ hx t' r s' hr
    rw [List.append_assoc]
    exact hp _ _ _ (runsOn_attempt_bind.mpr ⟨x, t, t', s₁, rfl, hx, hr⟩)
  · intro hp t r s' hr
    obtain ⟨x, t₁, t₂, s₁, rfl, hx, h₂⟩ := runsOn_attempt_bind.mp hr
    rw [← List.append_assoc]
    exact hp _ _ _ hx _ _ _ h₂

theorem wpOn_focus {g : τ → σ} {pt : σ → τ → τ} {u : τ}
    {Q : Except E α → List (Event S) → τ → Prop} :
    WpOn (focus g pt p) Q h u ↔ WpOn p (fun r h' s' => Q r h' (pt s' u)) h (g u) := by
  constructor
  · exact fun hp t r s' hr => hp t r _ (runsOn_focus.mpr ⟨s', hr, rfl⟩)
  · intro hp t r u' hr
    obtain ⟨s', hs, rfl⟩ := runsOn_focus.mp hr
    exact hp t r s' hs

end WpOn

end Effect
