import Clif.Effect.State

/-!
# Effect.Rely — what a program owes to a world that keeps its word

`Rely R G p Q`: as long as the outside world answers as `R` allows, `p` returns a value that
satisfies `Q`, and every one of its exchanges satisfies `G`.  Unlike `Wp`, it says that the program
does return.
-/

namespace Effect

variable {S : Sig} {E σ τ α β : Type} {R G : Event S → Prop}

def Rely (R G : Event S → Prop) (p : Act S E α) (Q : α → Prop) : Prop :=
  ∀ t r, Runs p t r → (∀ e ∈ t, R e) → (∃ a, r = .ok a ∧ Q a) ∧ ∀ e ∈ t, G e

/-- The same for a program over a mutable object, started on `s`. -/
def RelyOn (R G : Event S → Prop) (p : StAct S E σ α) (s : σ) (Q : α → σ → Prop) : Prop :=
  ∀ t r s', RunsOn p s t r s' → (∀ e ∈ t, R e) → (∃ a, r = .ok a ∧ Q a s') ∧ ∀ e ∈ t, G e

section Rely

variable {p : Act S E α} {f : α → Act S E β} {P : α → Prop} {Q : β → Prop}

theorem rely_pure {a : α} (h : P a) : Rely R G (pure a : Act S E α) P := by
  rintro t r ⟨rfl, rfl⟩ -
  exact ⟨⟨a, rfl, h⟩, by simp⟩

theorem rely_fromExcept {x : Except E α} {a : α} (hx : x = .ok a) (h : P a) :
    Rely R G (fromExcept x : Act S E α) P := by
  rintro t r ⟨rfl, rfl⟩ -
  exact ⟨⟨a, hx, h⟩, by simp⟩

theorem rely_ask {op : S.Op} {P : S.Ans op → Prop}
    (h : ∀ ans, R ⟨op, ans⟩ → P ans ∧ G ⟨op, ans⟩) : Rely R G (ask op : Act S E _) P := by
  intro t r hr ht
  obtain ⟨ans, rfl, rfl⟩ := runs_ask.mp hr
  obtain ⟨hans, hg⟩ := h ans (ht _ (List.mem_singleton_self _))
  refine ⟨⟨ans, rfl, hans⟩, fun e he => ?_⟩
  rw [List.mem_singleton.mp he]
  exact hg

/-- A sequence, from what its first part returns. -/
theorem rely_bind (hp : Rely R G p P) (hf : ∀ a, P a → Rely R G (f a) Q) :
    Rely R G (p >>= f) Q := by
  intro t r hr ht
  rcases runs_bind.mp hr with ⟨a, t₁, t₂, rfl, h₁, h₂⟩ | ⟨x, h₁, -⟩
  · obtain ⟨ht₁, ht₂⟩ := List.forall_mem_append.mp ht
    obtain ⟨⟨a', ha', hP⟩, hg₁⟩ := hp _ _ h₁ ht₁
    obtain rfl := Except.ok.inj ha'
    obtain ⟨hr, hg₂⟩ := hf a hP _ _ h₂ ht₂
    exact ⟨hr, List.forall_mem_append.mpr ⟨hg₁, hg₂⟩⟩
  · obtain ⟨⟨a, ha, -⟩, -⟩ := hp _ _ h₁ ht
    cases ha

/-- What is tried does not raise. -/
theorem rely_attempt (hp : Rely R G p P) :
    Rely R G (attempt p) fun x => ∃ a, x = .ok a ∧ P a := by
  intro t r hr ht
  obtain ⟨x, h, rfl⟩ := runs_attempt.mp hr
  obtain ⟨⟨a, rfl, hP⟩, hg⟩ := hp _ _ h ht
  exact ⟨⟨_, rfl, a, rfl, hP⟩, hg⟩

end Rely

section RelyOn

variable {p : StAct S E σ α} {f : α → StAct S E σ β} {P P' : α → σ → Prop} {Q : β → σ → Prop}
  {s : σ}

theorem RelyOn.mono (h : RelyOn R G p s P) (hP : ∀ a s', P a s' → P' a s') :
    RelyOn R G p s P' := by
  intro t r s' hr ht
  obtain ⟨⟨a, ha, hPa⟩, hg⟩ := h t r s' hr ht
  exact ⟨⟨a, ha, hP a s' hPa⟩, hg⟩

theorem relyOn_pure {a : α} (h : P a s) : RelyOn R G (pure a : StAct S E σ α) s P := by
  intro t r s' hr _
  obtain ⟨rfl, rfl, rfl⟩ := runsOn_pure.mp hr
  exact ⟨⟨a, rfl, h⟩, by simp⟩

theorem relyOn_bind (hp : RelyOn R G p s P) (hf : ∀ a s', P a s' → RelyOn R G (f a) s' Q) :
    RelyOn R G (p >>= f) s Q := by
  intro t r s' hr ht
  rcases runsOn_bind.mp hr with ⟨a, t₁, t₂, s₁, rfl, h₁, h₂⟩ | ⟨x, h₁, -⟩
  · obtain ⟨ht₁, ht₂⟩ := List.forall_mem_append.mp ht
    obtain ⟨⟨a', ha', hP⟩, hg₁⟩ := hp _ _ _ h₁ ht₁
    obtain rfl := Except.ok.inj ha'
    obtain ⟨hr, hg₂⟩ := hf a s₁ hP _ _ _ h₂ ht₂
    exact ⟨hr, List.forall_mem_append.mpr ⟨hg₁, hg₂⟩⟩
  · obtain ⟨⟨a, ha, -⟩, -⟩ := hp _ _ _ h₁ ht
    cases ha

theorem relyOn_lift_bind {q : Act S E α} {P : α → Prop} (hq : Rely R G q P)
    (hf : ∀ a, P a → RelyOn R G (f a) s Q) : RelyOn R G (lift q >>= f) s Q := by
  intro t r s' hr ht
  rcases runsOn_lift_bind.mp hr with ⟨a, t₁, t₂, rfl, h₁, h₂⟩ | ⟨x, h₁, -⟩
  · obtain ⟨ht₁, ht₂⟩ := List.forall_mem_append.mp ht
    obtain ⟨⟨a', ha', hP⟩, hg₁⟩ := hq _ _ h₁ ht₁
    obtain rfl := Except.ok.inj ha'
    obtain ⟨hr, hg₂⟩ := hf a hP _ _ _ h₂ ht₂
    exact ⟨hr, List.forall_mem_append.mpr ⟨hg₁, hg₂⟩⟩
  · obtain ⟨⟨a, ha, -⟩, -⟩ := hq _ _ h₁ ht
    cases ha

theorem relyOn_get_bind {g : σ → StAct S E σ β} (h : RelyOn R G (g s) s Q) :
    RelyOn R G (get >>= g) s Q := fun t r s' hr => h t r s' (runsOn_get_bind.mp hr)

theorem relyOn_modify_bind {m : σ → σ} {g : PUnit → StAct S E σ β}
    (h : RelyOn R G (g ⟨⟩) (m s) Q) : RelyOn R G (modify m >>= g) s Q :=
  fun t r s' hr => h t r s' (runsOn_modify_bind.mp hr)

theorem relyOn_attempt_bind {g : Except E α → StAct S E σ β} (hp : RelyOn R G p s P)
    (hg : ∀ a s', P a s' → RelyOn R G (g (.ok a)) s' Q) :
    RelyOn R G (attemptOn p >>= g) s Q := by
  intro t r s' hr ht
  obtain ⟨x, t₁, t₂, s₁, rfl, h₁, h₂⟩ := runsOn_attempt_bind.mp hr
  obtain ⟨ht₁, ht₂⟩ := List.forall_mem_append.mp ht
  obtain ⟨⟨a, rfl, hP⟩, hg₁⟩ := hp _ _ _ h₁ ht₁
  obtain ⟨hr, hg₂⟩ := hg a s₁ hP _ _ _ h₂ ht₂
  exact ⟨hr, List.forall_mem_append.mpr ⟨hg₁, hg₂⟩⟩

/-- A program on a part of a larger object. -/
theorem relyOn_focus {g : τ → σ} {pt : σ → τ → τ} {u : τ} {Q : α → τ → Prop}
    (h : RelyOn R G p (g u) fun a s' => Q a (pt s' u)) : RelyOn R G (focus g pt p) u Q := by
  intro t r u' hr ht
  obtain ⟨s', hs, rfl⟩ := runsOn_focus.mp hr
  exact h t r s' hs ht

end RelyOn

end Effect
