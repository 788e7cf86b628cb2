import Mathlib.Data.List.Induction

/-!
# Effect.Run — runs of a labelled step relation

`Run step s es s'` is a finite run from `s` to `s'` that shows the labels `es`, newest last.  An
invariant may speak of the labels so far, so it can say what has happened as well as what holds.
-/

namespace Effect

variable {σ ε : Type} {step : σ → ε → σ → Prop} {s s' : σ} {es : List ε}

inductive Run (step : σ → ε → σ → Prop) (s : σ) : List ε → σ → Prop where
  | nil : Run step s [] s
  | snoc {es : List ε} {s' : σ} {e : ε} {s'' : σ} (h : Run step s es s') (hs : step s' e s'') :
      Run step s (es ++ [e]) s''

/-- What holds at the start and is kept by every step holds after every run. -/
theorem Run.invariant (I : List ε → σ → Prop) (h0 : I [] s)
    (hstep : ∀ es s' e s'', Run step s es s' → I es s' → step s' e s'' → I (es ++ [e]) s'')
    (h : Run step s es s') : I es s' := by
  induction h with
  | nil => exact h0
  | snoc h hs ih => exact hstep _ _ _ _ h ih hs

/-- The run before the last step. -/
theorem Run.snoc_inv {e : ε} {s'' : σ} (h : Run step s (es ++ [e]) s'') :
    ∃ s', Run step s es s' ∧ step s' e s'' := by
  generalize hl : es ++ [e] = l at h
  cases h with
  | nil => simp at hl
  | snoc h hs =>
    obtain ⟨rfl, he⟩ := List.append_inj' hl rfl
    cases he
    exact ⟨_, h, hs⟩

theorem Run.single {e : ε} (h : step s e s') : Run step s [e] s' := Run.snoc .nil h

/-- A run in two parts. -/
theorem Run.append_inv {es₁ es₂ : List ε} (h : Run step s (es₁ ++ es₂) s') :
    ∃ s₁, Run step s es₁ s₁ ∧ Run step s₁ es₂ s' := by
  induction es₂ using List.reverseRecOn generalizing s' with
  | nil =>
    rw [List.append_nil] at h
    exact ⟨s', h, .nil⟩
  | append_singleton es₂ e ih =>
    rw [← List.append_assoc] at h
    obtain ⟨s₂, h₂, he⟩ := h.snoc_inv
    obtain ⟨s₁, h₁, hrest⟩ := ih h₂
    exact ⟨s₁, h₁, .snoc hrest he⟩

/-- Two runs in a row. -/
theorem Run.append {es' : List ε} {s'' : σ} (h : Run step s es s') (h' : Run step s' es' s'') :
    Run step s (es ++ es') s'' := by
  induction h' with
  | nil =>
    rw [List.append_nil]
    exact h
  | snoc _ hs ih =>
    rw [← List.append_assoc]
    exact .snoc ih hs

theorem Run.cons {e : ε} {s'' : σ} (h : step s e s') (h' : Run step s' es s'') :
    Run step s (e :: es) s'' := Run.append (.single h) h'

/-- The first step of a run. -/
theorem Run.cons_inv {e : ε} (h : Run step s (e :: es) s') :
    ∃ s₁, step s e s₁ ∧ Run step s₁ es s' := by
  obtain ⟨s₁, h₁, hrest⟩ := @Run.append_inv _ _ _ _ _ [e] _ h
  obtain ⟨s₀, h₀, he⟩ := @Run.snoc_inv _ _ _ _ [] _ _ h₁
  generalize hnil : ([] : List ε) = l at h₀
  cases h₀ with
  | nil => exact ⟨s₁, he, hrest⟩
  | snoc h hs => simp at hnil

/-- A run up to a label it shows. -/
theorem Run.split {e : ε} (h : Run step s es s') (he : e ∈ es) :
    ∃ es₁ es₂ s₁ s₂, es = es₁ ++ e :: es₂ ∧ Run step s es₁ s₁ ∧ step s₁ e s₂ := by
  induction h with
  | nil => cases he
  | @snoc es s₁ e' s₂ h hs ih =>
    rcases List.mem_append.mp he with he | he
    · obtain ⟨es₁, es₂, u₁, u₂, rfl, h₁, h₂⟩ := ih he
      exact ⟨es₁, es₂ ++ [e'], u₁, u₂, by simp, h₁, h₂⟩
    · rw [List.mem_singleton.mp he]
      exact ⟨es, [], s₁, s₂, rfl, h, hs⟩

/-- The step of a run that makes `P` true. -/
theorem Run.first {P : σ → Prop} (h : Run step s es s') (h0 : ¬ P s) (h1 : P s') :
    ∃ es₁ e es₂ u v, es = es₁ ++ e :: es₂ ∧ Run step s es₁ u ∧ step u e v ∧ ¬ P u ∧ P v ∧
      Run step v es₂ s' := by
  induction h with
  | nil => exact absurd h1 h0
  | @snoc es u e v h hs ih =>
    by_cases hu : P u
    · obtain ⟨es₁, e₁, es₂, u₁, v₁, rfl, hrun, hstep, hu₁, hv₁, hrest⟩ := ih hu
      exact ⟨es₁, e₁, es₂ ++ [e], u₁, v₁, by simp, hrun, hstep, hu₁, hv₁, .snoc hrest hs⟩
    · exact ⟨es, e, [], u, v, rfl, h, hs, hu, h1, .nil⟩

/-- Runs of a relation that allows more steps. -/
theorem Run.mono {step' : σ → ε → σ → Prop} (hle : ∀ s e s', step s e s' → step' s e s')
    (h : Run step s es s') : Run step' s es s' := by
  induction h with
  | nil => exact .nil
  | snoc _ hs ih => exact .snoc ih (hle _ _ _ hs)

/-- The run of a step function. -/
theorem Run.of_foldlM {f : σ → ε → Option σ} (h : es.foldlM f s = some s') :
    Run (fun s e s' => f s e = some s') s es s' := by
  induction es generalizing s with
  | nil =>
    cases h
    exact .nil
  | cons e es ih =>
    obtain ⟨u, hu, hrest⟩ := Option.bind_eq_some_iff.mp h
    exact .cons hu (ih hrest)

/-! ## What holds all along a run -/

/-- `P` holds of every state that the run of `es` from `s` passes. -/
def Throughout (step : σ → ε → σ → Prop) (s : σ) (P : List ε → σ → Prop) (es : List ε) : Prop :=
  ∀ es₁ s₁, es₁ <+: es → Run step s es₁ s₁ → P es₁ s₁

/-- `Q` holds of every step of the run of `es` from `s`. -/
def EachStep (step : σ → ε → σ → Prop) (s : σ) (Q : σ → ε → Prop) (es : List ε) : Prop :=
  ∀ es₁ e s₁, es₁ ++ [e] <+: es → Run step s es₁ s₁ → Q s₁ e

theorem Throughout.shorter {P : List ε → σ → Prop} {es' : List ε} (h : Throughout step s P es')
    (hpre : es <+: es') : Throughout step s P es :=
  fun es₁ s₁ h₁ => h es₁ s₁ (h₁.trans hpre)

theorem EachStep.shorter {Q : σ → ε → Prop} {es' : List ε} (h : EachStep step s Q es')
    (hpre : es <+: es') : EachStep step s Q es :=
  fun es₁ e s₁ h₁ => h es₁ e s₁ (h₁.trans hpre)

theorem Run.nil_inv (h : Run step s [] s') : s' = s := by
  generalize hl : ([] : List ε) = l at h
  cases h with
  | nil => rfl
  | snoc h hs => simp at hl

theorem EachStep.anti {step' : σ → ε → σ → Prop} {Q : σ → ε → Prop}
    (hle : ∀ s e s', step s e s' → step' s e s') (h : EachStep step' s Q es) :
    EachStep step s Q es :=
  fun es₁ e s₁ hpre hrun => h es₁ e s₁ hpre (hrun.mono hle)

theorem EachStep.nil {Q : σ → ε → Prop} : EachStep step s Q [] :=
  fun es₁ e s₁ hpre _ => by simp at hpre

theorem EachStep.cons {Q : σ → ε → Prop} {e : ε} (h : Q s e)
    (hrest : ∀ s₁, step s e s₁ → EachStep step s₁ Q es) : EachStep step s Q (e :: es) := by
  intro es₁ e₁ s₁ hpre hrun
  cases es₁ with
  | nil =>
    obtain rfl := (List.cons_prefix_cons.mp hpre).1
    rw [hrun.nil_inv]
    exact h
  | cons e₀ es₁ =>
    obtain ⟨rfl, hpre'⟩ := List.cons_prefix_cons.mp hpre
    obtain ⟨s₂, hstep, hrun'⟩ := hrun.cons_inv
    exact hrest s₂ hstep es₁ e₁ s₁ hpre' hrun'

/-- What every step keeps, as long as `Q` holds of it, holds after a run of such steps. -/
theorem Run.invariant_of_eachStep (I : List ε → σ → Prop) {Q : σ → ε → Prop} (h0 : I [] s)
    (hstep : ∀ es s' e s'', Run step s es s' → I es s' → Q s' e → step s' e s'' →
      I (es ++ [e]) s'')
    (h : Run step s es s') (hq : EachStep step s Q es) : I es s' := by
  induction h with
  | nil => exact h0
  | snoc h hs ih =>
    have hlast := hq _ _ _ List.prefix_rfl h
    exact hstep _ _ _ _ h (ih (hq.shorter (List.prefix_append _ _))) hlast hs

section Deterministic

variable (hdet : ∀ s e s₁ s₂, step s e s₁ → step s e s₂ → s₁ = s₂)

include hdet

theorem Run.deterministic {s'' : σ} (h : Run step s es s') (h' : Run step s es s'') :
    s' = s'' := by
  induction h generalizing s'' with
  | nil => exact (Run.invariant (fun es u => es = [] → s = u) (fun _ => rfl)
      (fun es u e v _ _ _ hnil => by simp at hnil) h') rfl
  | snoc h hs ih =>
    obtain ⟨u, hu, hstep⟩ := h'.snoc_inv
    obtain rfl := ih hu
    exact hdet _ _ _ _ hs hstep

/-- A run of steps that meet `Q`, where the labels determine the states. -/
theorem Run.eachStep {Q : σ → ε → Prop} (h : Run (fun s e s' => step s e s' ∧ Q s e) s es s') :
    EachStep step s Q es := by
  rintro es₁ e s₁ ⟨es₂, rfl⟩ hrun
  rw [List.append_assoc] at h
  obtain ⟨u, hu, hrest⟩ := h.append_inv
  obtain ⟨v, hstep, -⟩ := Run.cons_inv hrest
  have hsame := Run.deterministic hdet hrun (hu.mono fun _ _ _ hs => hs.1)
  rw [hsame]
  exact hstep.2

/-- Where each step keeps `P` exactly if `Q` holds of it, `P` holds all along a run exactly if `Q`
holds of each step. -/
theorem Run.throughout_iff {P : List ε → σ → Prop} {Q : σ → ε → Prop} (h0 : P [] s)
    (hstep : ∀ es s' e s'', Run step s es s' → step s' e s'' → P es s' →
      (P (es ++ [e]) s'' ↔ Q s' e))
    (h : Run step s es s') : Throughout step s P es ↔ EachStep step s Q es := by
  induction h with
  | nil =>
    refine ⟨fun _ es₁ e s₁ hpre _ => by simp at hpre, fun _ es₁ s₁ hpre h₁ => ?_⟩
    obtain rfl := List.prefix_nil.mp hpre
    rw [← Run.deterministic hdet .nil h₁]
    exact h0
  | @snoc es u e v h hs ih =>
    constructor
    · intro hP es₁ e₁ s₁ hpre h₁
      have hPes := hP.shorter (List.prefix_append es [e])
      rcases List.prefix_concat_iff.mp hpre with heq | hpre'
      · obtain ⟨rfl, he⟩ := List.append_inj' heq rfl
        cases he
        obtain rfl := Run.deterministic hdet h h₁
        exact (hstep _ _ _ _ h hs (hPes _ _ List.prefix_rfl h)).mp
          (hP _ _ List.prefix_rfl (.snoc h hs))
      · exact ih.mp hPes es₁ e₁ s₁ hpre' h₁
    · intro hQ es₁ s₁ hpre h₁
      have hPes := ih.mpr (hQ.shorter (List.prefix_append es [e]))
      rcases List.prefix_concat_iff.mp hpre with rfl | hpre'
      · obtain rfl := Run.deterministic hdet (.snoc h hs) h₁
        exact (hstep _ _ _ _ h hs (hPes _ _ List.prefix_rfl h)).mpr
          (hQ _ _ _ List.prefix_rfl h)
      · exact hPes es₁ s₁ hpre' h₁

end Deterministic

end Effect
