import Clif.Effect.Prog

/-!
# Effect.State — programs over a mutable object

`StAct S E σ α` is a program over an object of type `σ`.  The changes made before an exception stay,
as they do for an object a Python function was handed.  `focus` runs a program on a part of a
larger object, `runLocal` on an object of its own.
-/

namespace Effect

variable {S : Sig} {E σ τ α β : Type}

/-- A program over a mutable `σ`.  An exception does not undo the changes made before it. -/
abbrev StAct (S : Sig) (E σ α : Type) := ExceptT E (StateT σ (Prog S)) α

/-- `p` started on `s`, answered as in `t`, ends with `r` and leaves `s'`. -/
def RunsOn (p : StAct S E σ α) (s : σ) (t : List (Event S)) (r : Except E α) (s' : σ) : Prop :=
  Prog.Runs (StateT.run (ExceptT.run p) s) t (r, s')

/-- A program that does not touch the object. -/
def lift (p : Act S E α) : StAct S E σ α := ExceptT.mk (StateT.lift (ExceptT.run p))

instance : MonadLift (ExceptT E (Prog S)) (ExceptT E (StateT σ (Prog S))) := ⟨lift⟩

def attemptOn (p : StAct S E σ α) : StAct S E σ (Except E α) := ExceptT.lift (ExceptT.run p)

def fromExceptOn (x : Except E α) : StAct S E σ α := ExceptT.mk (pure x)

/-- Run `p` on the part of the object that `g` reads and `pt` writes back. -/
def focus (g : τ → σ) (pt : σ → τ → τ) (p : StAct S E σ α) : StAct S E τ α :=
  ExceptT.mk fun u => StateT.run (ExceptT.run p) (g u) >>= fun x => pure (x.1, pt x.2 u)

/-- Run `p` on an object of its own, which an exception takes along. -/
def runLocal (p : StAct S E σ α) (s : σ) : Act S E (α × σ) :=
  ExceptT.mk (StateT.run (ExceptT.run p) s >>= fun x => pure (x.1.map (·, x.2)))

def execOn (env : (op : S.Op) → S.Ans op) (p : StAct S E σ α) (s : σ) :
    List (Event S) × Except E α × σ :=
  Prog.exec env (StateT.run (ExceptT.run p) s)

section StAct

variable {p : StAct S E σ α} {f : α → StAct S E σ β} {s s' : σ} {t : List (Event S)}

@[simp] theorem runsOn_pure {a : α} {r : Except E α} :
    RunsOn (pure a : StAct S E σ α) s t r s' ↔ t = [] ∧ r = .ok a ∧ s' = s := by
  show t = [] ∧ (r, s') = (.ok a, s) ↔ _
  simp

@[simp] theorem runsOn_throw {e : E} {r : Except E α} :
    RunsOn (throw e : StAct S E σ α) s t r s' ↔ t = [] ∧ r = .error e ∧ s' = s := by
  show t = [] ∧ (r, s') = (.error e, s) ↔ _
  simp

@[simp] theorem runsOn_get {r : Except E σ} :
    RunsOn (get : StAct S E σ σ) s t r s' ↔ t = [] ∧ r = .ok s ∧ s' = s := by
  show t = [] ∧ (r, s') = (.ok s, s) ↔ _
  simp

@[simp] theorem runsOn_modify {g : σ → σ} {r : Except E PUnit} :
    RunsOn (modify g : StAct S E σ PUnit) s t r s' ↔ t = [] ∧ r = .ok ⟨⟩ ∧ s' = g s := by
  show t = [] ∧ (r, s') = (.ok ⟨⟩, g s) ↔ _
  simp

theorem runsOn_bind {r : Except E β} : RunsOn (p >>= f) s t r s' ↔
    (∃ a t₁ t₂ s₁, t = t₁ ++ t₂ ∧ RunsOn p s t₁ (.ok a) s₁ ∧ RunsOn (f a) s₁ t₂ r s') ∨
      ∃ e, RunsOn p s t (.error e) s' ∧ r = .error e := by
  show Prog.Runs (StateT.run (ExceptT.run p) s >>= fun x =>
    StateT.run (ExceptT.bindCont f x.1) x.2) t (r, s') ↔ _
  rw [Prog.runs_bind]
  constructor
  · rintro ⟨⟨x, s₁⟩, t₁, t₂, rfl, h₁, h₂⟩
    cases x with
    | ok a => exact Or.inl ⟨a, t₁, t₂, s₁, rfl, h₁, h₂⟩
    | error e =>
      obtain ⟨rfl, h⟩ := h₂
      obtain ⟨rfl, rfl⟩ := Prod.mk.inj h
      exact Or.inr ⟨e, by rw [List.append_nil]; exact h₁, rfl⟩
  · rintro (⟨a, t₁, t₂, s₁, rfl, h₁, h₂⟩ | ⟨e, h₁, rfl⟩)
    · exact ⟨(.ok a, s₁), t₁, t₂, rfl, h₁, h₂⟩
    · exact ⟨(.error e, s'), t, [], by simp, h₁, rfl, rfl⟩

@[simp] theorem runsOn_lift {q : Act S E α} {r : Except E α} :
    RunsOn (lift q : StAct S E σ α) s t r s' ↔ Runs q t r ∧ s' = s := by
  show Prog.Runs (ExceptT.run q >>= fun x => pure (x, s)) t (r, s') ↔ _
  rw [Prog.runs_bind]
  constructor
  · rintro ⟨x, t₁, t₂, rfl, h, rfl, hx⟩
    obtain ⟨rfl, rfl⟩ := Prod.mk.inj hx
    exact ⟨by rw [List.append_nil]; exact h, rfl⟩
  · rintro ⟨h, rfl⟩
    exact ⟨r, t, [], by simp, h, rfl, rfl⟩

@[simp] theorem runsOn_monadLift {q : ExceptT E (Prog S) α} {r : Except E α} :
    RunsOn (monadLift q : StAct S E σ α) s t r s' ↔ Runs q t r ∧ s' = s := runsOn_lift

@[simp] theorem runsOn_attempt {r : Except E (Except E α)} :
    RunsOn (attemptOn p) s t r s' ↔ ∃ x, RunsOn p s t x s' ∧ r = .ok x := by
  show Prog.Runs (StateT.run (ExceptT.run p) s >>= fun x => pure (Except.ok x.1, x.2)) t (r, s') ↔ _
  rw [Prog.runs_bind]
  constructor
  · rintro ⟨⟨x, s₁⟩, t₁, t₂, rfl, h, rfl, hx⟩
    obtain ⟨rfl, rfl⟩ := Prod.mk.inj hx
    exact ⟨x, by rw [List.append_nil]; exact h, rfl⟩
  · rintro ⟨x, h, rfl⟩
    exact ⟨(x, s'), t, [], by simp, h, rfl, rfl⟩

@[simp] theorem runsOn_fromExcept {x r : Except E α} :
    RunsOn (fromExceptOn x : StAct S E σ α) s t r s' ↔ t = [] ∧ r = x ∧ s' = s := by
  show t = [] ∧ (r, s') = (x, s) ↔ _
  simp

theorem runsOn_bind_ok {a : α} {t₁ t₂ : List (Event S)} {s₁ : σ} {r : Except E β}
    (h₁ : RunsOn p s t₁ (.ok a) s₁) (h₂ : RunsOn (f a) s₁ t₂ r s') :
    RunsOn (p >>= f) s (t₁ ++ t₂) r s' :=
  runsOn_bind.mpr (Or.inl ⟨a, t₁, t₂, s₁, rfl, h₁, h₂⟩)

theorem runsOn_get_bind {g : σ → StAct S E σ β} {r : Except E β} :
    RunsOn (get >>= g) s t r s' ↔ RunsOn (g s) s t r s' := by
  rw [runsOn_bind]
  constructor
  · rintro (⟨a, t₁, t₂, s₁, rfl, h₁, h₂⟩ | ⟨e, h₁, -⟩)
    · obtain ⟨rfl, ha, rfl⟩ := runsOn_get.mp h₁
      cases ha
      exact h₂
    · cases (runsOn_get.mp h₁).2.1
  · exact fun h => Or.inl ⟨s, [], t, s, rfl, runsOn_get.mpr ⟨rfl, rfl, rfl⟩, h⟩

theorem runsOn_modify_bind {m : σ → σ} {g : PUnit → StAct S E σ β} {r : Except E β} :
    RunsOn (modify m >>= g) s t r s' ↔ RunsOn (g ⟨⟩) (m s) t r s' := by
  rw [runsOn_bind]
  constructor
  · rintro (⟨a, t₁, t₂, s₁, rfl, h₁, h₂⟩ | ⟨e, h₁, -⟩)
    · obtain ⟨rfl, -, rfl⟩ := runsOn_modify.mp h₁
      exact h₂
    · cases (runsOn_modify.mp h₁).2.1
  · exact fun h => Or.inl ⟨⟨⟩, [], t, m s, rfl, runsOn_modify.mpr ⟨rfl, rfl, rfl⟩, h⟩

theorem runsOn_lift_bind {q : Act S E α} {r : Except E β} :
    RunsOn (lift q >>= f) s t r s' ↔
      (∃ a t₁ t₂, t = t₁ ++ t₂ ∧ Runs q t₁ (.ok a) ∧ RunsOn (f a) s t₂ r s') ∨
        ∃ e, Runs q t (.error e) ∧ r = .error e ∧ s' = s := by
  rw [runsOn_bind]
  constructor
  · rintro (⟨a, t₁, t₂, s₁, rfl, h₁, h₂⟩ | ⟨e, h₁, rfl⟩)
    · obtain ⟨hq, rfl⟩ := runsOn_lift.mp h₁
      exact Or.inl ⟨a, t₁, t₂, rfl, hq, h₂⟩
    · obtain ⟨hq, rfl⟩ := runsOn_lift.mp h₁
      exact Or.inr ⟨e, hq, rfl, rfl⟩
  · rintro (⟨a, t₁, t₂, rfl, hq, h₂⟩ | ⟨e, hq, rfl, rfl⟩)
    · exact Or.inl ⟨a, t₁, t₂, s, rfl, runsOn_lift.mpr ⟨hq, rfl⟩, h₂⟩
    · exact Or.inr ⟨e, runsOn_lift.mpr ⟨hq, rfl⟩, rfl⟩

theorem runsOn_attempt_bind {g : Except E α → StAct S E σ β} {r : Except E β} :
    RunsOn (attemptOn p >>= g) s t r s' ↔
      ∃ x t₁ t₂ s₁, t = t₁ ++ t₂ ∧ RunsOn p s t₁ x s₁ ∧ RunsOn (g x) s₁ t₂ r s' := by
  rw [runsOn_bind]
  constructor
  · rintro (⟨a, t₁, t₂, s₁, rfl, h₁, h₂⟩ | ⟨e, h₁, -⟩)
    · obtain ⟨x, hx, ha⟩ := runsOn_attempt.mp h₁
      cases ha
      exact ⟨_, t₁, t₂, s₁, rfl, hx, h₂⟩
    · obtain ⟨x, -, ha⟩ := runsOn_attempt.mp h₁
      cases ha
  · rintro ⟨x, t₁, t₂, s₁, rfl, hx, h₂⟩
    exact Or.inl ⟨x, t₁, t₂, s₁, rfl, runsOn_attempt.mpr ⟨x, hx, rfl⟩, h₂⟩

@[simp] theorem runsOn_focus {g : τ → σ} {pt : σ → τ → τ} {u u' : τ} {r : Except E α} :
    RunsOn (focus g pt p) u t r u' ↔ ∃ s', RunsOn p (g u) t r s' ∧ u' = pt s' u := by
  show Prog.Runs (StateT.run (ExceptT.run p) (g u) >>= fun x => pure (x.1, pt x.2 u)) t (r, u') ↔ _
  rw [Prog.runs_bind]
  constructor
  · rintro ⟨⟨x, s₁⟩, t₁, t₂, rfl, h, rfl, hx⟩
    obtain ⟨rfl, rfl⟩ := Prod.mk.inj hx
    exact ⟨s₁, by rw [List.append_nil]; exact h, rfl⟩
  · rintro ⟨s₁, h, rfl⟩
    exact ⟨(r, s₁), t, [], by simp, h, rfl, rfl⟩

@[simp] theorem runs_runLocal {r : Except E (α × σ)} :
    Runs (runLocal p s) t r ↔ ∃ x s', RunsOn p s t x s' ∧ r = x.map (·, s') := by
  show Prog.Runs (StateT.run (ExceptT.run p) s >>= fun x => pure (x.1.map (·, x.2))) t r ↔ _
  rw [Prog.runs_bind]
  constructor
  · rintro ⟨⟨x, s₁⟩, t₁, t₂, rfl, h, rfl, rfl⟩
    exact ⟨x, s₁, by rw [List.append_nil]; exact h, rfl⟩
  · rintro ⟨x, s₁, h, rfl⟩
    exact ⟨(x, s₁), t, [], by simp, h, rfl, rfl⟩

theorem execOn_runs (env : (op : S.Op) → S.Ans op) (p : StAct S E σ α) (s : σ) :
    RunsOn p s (execOn env p s).1 (execOn env p s).2.1 (execOn env p s).2.2 :=
  Prog.exec_runs env _

end StAct

/-! ## What every event of a run satisfies -/

/-- Every exchange of every run of `p` satisfies `φ`. -/
def EmitsOn (p : StAct S E σ α) (φ : Event S → Prop) : Prop :=
  ∀ s t r s', RunsOn p s t r s' → ∀ e ∈ t, φ e

section EmitsOn

variable {p : StAct S E σ α} {f : α → StAct S E σ β} {φ ψ : Event S → Prop}

theorem EmitsOn.mono (h : EmitsOn p φ) (hφ : ∀ e, φ e → ψ e) : EmitsOn p ψ :=
  fun s t r s' hr e he => hφ e (h s t r s' hr e he)

@[simp] theorem emitsOn_pure (a : α) : EmitsOn (pure a : StAct S E σ α) φ := by
  intro s t r s' hr e he
  obtain ⟨rfl, -⟩ := runsOn_pure.mp hr
  simp at he

@[simp] theorem emitsOn_throw (x : E) : EmitsOn (throw x : StAct S E σ α) φ := by
  intro s t r s' hr e he
  obtain ⟨rfl, -⟩ := runsOn_throw.mp hr
  simp at he

@[simp] theorem emitsOn_get : EmitsOn (get : StAct S E σ σ) φ := by
  intro s t r s' hr e he
  obtain ⟨rfl, -⟩ := runsOn_get.mp hr
  simp at he

@[simp] theorem emitsOn_modify (g : σ → σ) : EmitsOn (modify g : StAct S E σ PUnit) φ := by
  intro s t r s' hr e he
  obtain ⟨rfl, -⟩ := runsOn_modify.mp hr
  simp at he

@[simp] theorem emitsOn_fromExcept (x : Except E α) :
    EmitsOn (fromExceptOn x : StAct S E σ α) φ := by
  intro s t r s' hr e he
  obtain ⟨rfl, -⟩ := runsOn_fromExcept.mp hr
  simp at he

theorem emitsOn_bind (hp : EmitsOn p φ) (hf : ∀ a, EmitsOn (f a) φ) : EmitsOn (p >>= f) φ := by
  intro s t r s' hr e he
  rcases runsOn_bind.mp hr with ⟨a, t₁, t₂, s₁, rfl, h₁, h₂⟩ | ⟨x, h₁, -⟩
  · rcases List.mem_append.mp he with he | he
    · exact hp _ _ _ _ h₁ e he
    · exact hf a _ _ _ _ h₂ e he
  · exact hp _ _ _ _ h₁ e he

theorem emitsOn_lift {q : Act S E α} (h : Emits q φ) : EmitsOn (lift q : StAct S E σ α) φ := by
  intro s t r s' hr
  exact h t r (runsOn_lift.mp hr).1

theorem emitsOn_attempt (h : EmitsOn p φ) : EmitsOn (attemptOn p) φ := by
  intro s t r s' hr
  obtain ⟨x, hx, -⟩ := runsOn_attempt.mp hr
  exact h s t x s' hx

theorem emitsOn_focus {g : τ → σ} {pt : σ → τ → τ} (h : EmitsOn p φ) :
    EmitsOn (focus g pt p) φ := by
  intro u t r u' hr
  obtain ⟨s', hs, -⟩ := runsOn_focus.mp hr
  exact h _ t r s' hs

end EmitsOn

/-! ## What a returned value satisfies -/

/-- Every value `p` returns satisfies `P`. -/
def Yields (p : StAct S E σ α) (P : α → Prop) : Prop :=
  ∀ s t a s', RunsOn p s t (.ok a) s' → P a

section Yields

variable {p : StAct S E σ α} {f : α → StAct S E σ β} {P : β → Prop}

theorem yields_pure {b : β} (h : P b) : Yields (pure b : StAct S E σ β) P := by
  intro s t a s' hr
  cases (runsOn_pure.mp hr).2.1
  exact h

theorem yields_bind {Q : α → Prop} (hp : Yields p Q) (h : ∀ a, Q a → Yields (f a) P) :
    Yields (p >>= f) P := by
  intro s t b s' hr
  rcases runsOn_bind.mp hr with ⟨a, t₁, t₂, s₁, -, h₁, h₂⟩ | ⟨e, -, he⟩
  · exact h a (hp _ _ _ _ h₁) _ _ _ _ h₂
  · cases he

theorem yields_any : Yields p fun _ => True := fun _ _ _ _ _ => trivial

end Yields

/-! ## What a program on a state raises -/

/-- Every exception a run of `p` ends with satisfies `φ`. -/
def RaisesOn (p : StAct S E σ α) (φ : E → Prop) : Prop :=
  ∀ s t e s', RunsOn p s t (.error e) s' → φ e

section RaisesOn

variable {p : StAct S E σ α} {f : α → StAct S E σ β} {φ ψ : E → Prop}

theorem raisesOn_pure (a : α) : RaisesOn (pure a : StAct S E σ α) φ := by
  intro s t e s' hr
  cases (runsOn_pure.mp hr).2.1

theorem raisesOn_throw {e : E} (h : φ e) : RaisesOn (throw e : StAct S E σ α) φ := by
  intro s t e' s' hr
  cases (runsOn_throw.mp hr).2.1
  exact h

theorem raisesOn_get : RaisesOn (get : StAct S E σ σ) φ := by
  intro s t e s' hr
  cases (runsOn_get.mp hr).2.1

theorem raisesOn_modify (g : σ → σ) : RaisesOn (modify g : StAct S E σ PUnit) φ := by
  intro s t e s' hr
  cases (runsOn_modify.mp hr).2.1

theorem raisesOn_bind (hp : RaisesOn p φ) (hf : ∀ a, RaisesOn (f a) φ) :
    RaisesOn (p >>= f) φ := by
  intro s t e s' hr
  rcases runsOn_bind.mp hr with ⟨a, t₁, t₂, s₁, -, -, h₂⟩ | ⟨x, h₁, hx⟩
  · exact hf a _ _ _ _ h₂
  · cases hx
    exact hp _ _ _ _ h₁

theorem raisesOn_lift {q : Act S E α} (h : Raises q φ) :
    RaisesOn (lift q : StAct S E σ α) φ := by
  intro s t e s' hr
  exact h t e (runsOn_lift.mp hr).1

theorem raisesOn_attempt_bind {g : Except E α → StAct S E σ β} (hp : RaisesOn p φ)
    (hok : ∀ a, RaisesOn (g (.ok a)) ψ) (herr : ∀ e, φ e → RaisesOn (g (.error e)) ψ) :
    RaisesOn (attemptOn p >>= g) ψ := by
  intro s t e s' hr
  obtain ⟨x, t₁, t₂, s₁, -, h₁, h₂⟩ := runsOn_attempt_bind.mp hr
  cases x with
  | ok a => exact hok a _ _ _ _ h₂
  | error e' => exact herr e' (hp _ _ _ _ h₁) _ _ _ _ h₂

theorem raisesOn_focus {g : τ → σ} {pt : σ → τ → τ} (h : RaisesOn p φ) :
    RaisesOn (focus g pt p) φ := by
  intro u t e u' hr
  obtain ⟨s', hs, -⟩ := runsOn_focus.mp hr
  exact h _ t e s' hs

end RaisesOn

end Effect
