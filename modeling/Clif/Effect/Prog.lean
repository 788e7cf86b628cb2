import Mathlib.Logic.Basic
import Mathlib.Tactic.Basic

/-!
# Effect.Prog — programs that talk to an outside world nobody controls

A program `Prog S α` either returns or asks one operation of the interface `S` and goes on with
whatever answer it gets.  Nothing is assumed about the answers: `p.Runs t a` says that `p`, given
the answers recorded in the trace `t`, asks exactly the operations of `t` and returns `a`.  A
statement "for every trace" is a statement about every behaviour of the outside world, at every
moment; a statement about one particular world restricts `t`.

`Act S E α` is a program that may also raise an exception of type `E`, and `exec` runs a program
against a world that answers the same question always the same way.
-/

namespace Effect

/-- An interface to the outside world: its operations and the type of each one's answer. -/
structure Sig where
  Op : Type
  Ans : Op → Type

/-- One exchange with the outside world. -/
structure Event (S : Sig) where
  op : S.Op
  ans : S.Ans op

inductive Prog (S : Sig) (α : Type) : Type where
  | ret (a : α)
  | ask (op : S.Op) (k : S.Ans op → Prog S α)

variable {S : Sig} {E α β : Type}

namespace Prog

def bind : Prog S α → (α → Prog S β) → Prog S β
  | ret a, f => f a
  | ask op k, f => ask op fun ans => (k ans).bind f

instance : Monad (Prog S) where
  pure := ret
  bind := bind

theorem bind_ret (p : Prog S α) : p.bind ret = p := by
  induction p with
  | ret a => rfl
  | ask op k ih => exact congrArg (ask op) (funext ih)

theorem bind_bind {γ : Type} (p : Prog S α) (f : α → Prog S β) (g : β → Prog S γ) :
    (p.bind f).bind g = p.bind fun a => (f a).bind g := by
  induction p with
  | ret a => rfl
  | ask op k ih => exact congrArg (ask op) (funext ih)

instance : LawfulMonad (Prog S) :=
  LawfulMonad.mk' (Prog S) bind_ret (fun _ _ => rfl) bind_bind

/-- `p`, answered as in `t`, asks exactly the operations of `t` and returns `b`. -/
def Runs : Prog S α → List (Event S) → α → Prop
  | ret a, t, b => t = [] ∧ b = a
  | ask op k, t, b => ∃ ans t', t = ⟨op, ans⟩ :: t' ∧ (k ans).Runs t' b

/-- Run `p` in the world `env`; the trace comes with the result. -/
def exec (env : (op : S.Op) → S.Ans op) : Prog S α → List (Event S) × α
  | ret a => ([], a)
  | ask op k => let r := (k (env op)).exec env; (⟨op, env op⟩ :: r.1, r.2)

/-- Run `p` in a world that changes: `env n` answers exchange number `n`. -/
def execFrom (env : Nat → (op : S.Op) → S.Ans op) : Prog S α → Nat → List (Event S) × α
  | ret a, _ => ([], a)
  | ask op k, n =>
    let r := (k (env n op)).execFrom env (n + 1)
    (⟨op, env n op⟩ :: r.1, r.2)

theorem execFrom_runs (env : Nat → (op : S.Op) → S.Ans op) (p : Prog S α) (n : Nat) :
    p.Runs (p.execFrom env n).1 (p.execFrom env n).2 := by
  induction p generalizing n with
  | ret a => exact ⟨rfl, rfl⟩
  | ask op k ih => exact ⟨env n op, _, rfl, ih (env n op) (n + 1)⟩

theorem runs_bind {p : Prog S α} {f : α → Prog S β} {t : List (Event S)} {b : β} :
    (p >>= f).Runs t b ↔ ∃ a t₁ t₂, t = t₁ ++ t₂ ∧ p.Runs t₁ a ∧ (f a).Runs t₂ b := by
  show (p.bind f).Runs t b ↔ _
  induction p generalizing t with
  | ret a =>
    constructor
    · exact fun h => ⟨a, [], t, rfl, ⟨rfl, rfl⟩, h⟩
    · rintro ⟨a', t₁, t₂, rfl, ⟨rfl, rfl⟩, h⟩
      exact h
  | ask op k ih =>
    constructor
    · rintro ⟨ans, t', rfl, h⟩
      obtain ⟨a, t₁, t₂, rfl, h₁, h₂⟩ := (ih ans).mp h
      exact ⟨a, ⟨op, ans⟩ :: t₁, t₂, rfl, ⟨ans, t₁, rfl, h₁⟩, h₂⟩
    · rintro ⟨a, t₁, t₂, rfl, ⟨ans, t', rfl, h₁⟩, h₂⟩
      exact ⟨ans, t' ++ t₂, rfl, (ih ans).mpr ⟨a, t', t₂, rfl, h₁, h₂⟩⟩

theorem exec_runs (env : (op : S.Op) → S.Ans op) (p : Prog S α) :
    p.Runs (p.exec env).1 (p.exec env).2 := by
  induction p with
  | ret a => exact ⟨rfl, rfl⟩
  | ask op k ih => exact ⟨env op, _, rfl, ih (env op)⟩

/-- The answers of a world are what it answers. -/
theorem exec_answers (env : (op : S.Op) → S.Ans op) (p : Prog S α) :
    ∀ e ∈ (p.exec env).1, e.ans = env e.op := by
  induction p with
  | ret a => simp [exec]
  | ask op k ih => exact List.forall_mem_cons.mpr ⟨rfl, ih (env op)⟩

/-- The answers of a world that changes are what it answers at some moment. -/
theorem execFrom_answers (env : Nat → (op : S.Op) → S.Ans op) (p : Prog S α) (n : Nat) :
    ∀ e ∈ (p.execFrom env n).1, ∃ m, e.ans = env m e.op := by
  induction p generalizing n with
  | ret a => simp [execFrom]
  | ask op k ih => exact List.forall_mem_cons.mpr ⟨⟨n, rfl⟩, ih (env n op) (n + 1)⟩

/-- A run whose answers are those of a world is the run in that world. -/
theorem Runs.eq_exec {env : (op : S.Op) → S.Ans op} {p : Prog S α} {t : List (Event S)} {a : α}
    (h : p.Runs t a) (henv : ∀ e ∈ t, e.ans = env e.op) : p.exec env = (t, a) := by
  induction p generalizing t with
  | ret b =>
    obtain ⟨rfl, rfl⟩ := h
    rfl
  | ask op k ih =>
    obtain ⟨ans, t', rfl, h'⟩ := h
    obtain ⟨hans, ht'⟩ := List.forall_mem_cons.mp henv
    obtain rfl : ans = env op := hans
    rw [exec, ih _ h' ht']

/-- The answers determine the run: of two runs that read one history, neither outlives the other. -/
theorem Runs.prefix_unique {p : Prog S α} {t₁ t₂ u₁ u₂ : List (Event S)} {a₁ a₂ : α}
    (h₁ : p.Runs t₁ a₁) (h₂ : p.Runs t₂ a₂) (h : t₁ ++ u₁ = t₂ ++ u₂) :
    t₁ = t₂ ∧ a₁ = a₂ ∧ u₁ = u₂ := by
  induction p generalizing t₁ t₂ with
  | ret a =>
    obtain ⟨rfl, rfl⟩ := h₁
    obtain ⟨rfl, rfl⟩ := h₂
    exact ⟨rfl, rfl, h⟩
  | ask op k ih =>
    obtain ⟨ans, t₁, rfl, h₁⟩ := h₁
    obtain ⟨ans', t₂, rfl, h₂⟩ := h₂
    simp only [List.cons_append, List.cons.injEq, Event.mk.injEq, heq_eq_eq, true_and] at h
    obtain ⟨rfl, h⟩ := h
    obtain ⟨rfl, ha, hu⟩ := ih ans h₁ h₂ h
    exact ⟨rfl, ha, hu⟩

end Prog

/-! ## Histories that agree -/

/-- As long as they ask the same, they hear the same. -/
def Agree (t u : List (Event S)) : Prop :=
  ∀ pre e e' t' u', t = pre ++ e :: t' → u = pre ++ e' :: u' → e.op = e'.op → e = e'

theorem agree_refl (t : List (Event S)) : Agree t t := by
  rintro pre e e' t' u' rfl hu -
  exact (List.cons.inj (List.append_cancel_left hu)).1

theorem agree_nil {t : List (Event S)} : Agree t [] := by
  rintro pre e e' t' u' - hu -
  cases (List.append_eq_nil_iff.mp hu.symm).2

theorem agree_cons {e : Event S} {t u : List (Event S)} : Agree (e :: t) (e :: u) ↔ Agree t u := by
  constructor
  · intro h pre e₁ e₂ t' u' ht hu
    exact h (e :: pre) e₁ e₂ t' u' (by rw [ht]; rfl) (by rw [hu]; rfl)
  · intro h pre e₁ e₂ t' u' ht hu hop
    cases pre with
    | nil =>
      obtain ⟨rfl, -⟩ := List.cons.inj ht
      obtain ⟨rfl, -⟩ := List.cons.inj hu
      rfl
    | cons e₀ pre =>
      obtain ⟨-, ht⟩ := List.cons.inj ht
      obtain ⟨-, hu⟩ := List.cons.inj hu
      exact h pre e₁ e₂ t' u' ht hu hop

/-- Two runs of a program that agree are one. -/
theorem Prog.Runs.of_agree {p : Prog S α} {t u : List (Event S)} {a b : α} (ht : p.Runs t a)
    (hu : p.Runs u b) (h : Agree t u) : t = u ∧ a = b := by
  induction p generalizing t u with
  | ret c =>
    obtain ⟨rfl, rfl⟩ := ht
    obtain ⟨rfl, rfl⟩ := hu
    exact ⟨rfl, rfl⟩
  | ask op k ih =>
    obtain ⟨ans, t', rfl, ht'⟩ := ht
    obtain ⟨ans', u', rfl, hu'⟩ := hu
    have heq := h [] _ _ t' u' rfl rfl rfl
    simp only [Event.mk.injEq, heq_eq_eq, true_and] at heq
    subst heq
    obtain ⟨rfl, rfl⟩ := ih ans ht' hu' (agree_cons.mp h)
    exact ⟨rfl, rfl⟩

/-! ## Programs that may raise -/

/-- A program that returns an `α` or raises an `E`. -/
abbrev Act (S : Sig) (E α : Type) := ExceptT E (Prog S) α

/-- `p`, answered as in `t`, ends with `r`: a value, or an exception it raised. -/
def Runs (p : Act S E α) (t : List (Event S)) (r : Except E α) : Prop :=
  Prog.Runs (ExceptT.run p) t r

/-- Ask one operation. -/
def ask (op : S.Op) : Act S E (S.Ans op) := ExceptT.lift (.ask op .ret)

/-- Return or raise as `x` says. -/
def fromExcept (x : Except E α) : Act S E α := ExceptT.mk (pure x)

/-- Run `p` and hand over an exception it raises as a value: the `try` of a `try … except`. -/
def attempt (p : Act S E α) : Act S E (Except E α) := ExceptT.lift (ExceptT.run p)

/-- Run `p` in the world `env`. -/
def exec (env : (op : S.Op) → S.Ans op) (p : Act S E α) : List (Event S) × Except E α :=
  Prog.exec env (ExceptT.run p)

/-- Run `p` in a world that changes. -/
def execFrom (env : Nat → (op : S.Op) → S.Ans op) (p : Act S E α) (n : Nat) :
    List (Event S) × Except E α :=
  Prog.execFrom env (ExceptT.run p) n

section Act

variable {p : Act S E α} {f : α → Act S E β} {t : List (Event S)}

@[simp] theorem runs_pure {a : α} {r : Except E α} :
    Runs (pure a : Act S E α) t r ↔ t = [] ∧ r = .ok a := Iff.rfl

@[simp] theorem runs_throw {e : E} {r : Except E α} :
    Runs (throw e : Act S E α) t r ↔ t = [] ∧ r = .error e := Iff.rfl

@[simp] theorem runs_fromExcept {x r : Except E α} :
    Runs (fromExcept x : Act S E α) t r ↔ t = [] ∧ r = x := Iff.rfl

theorem runs_bind {r : Except E β} : Runs (p >>= f) t r ↔
    (∃ a t₁ t₂, t = t₁ ++ t₂ ∧ Runs p t₁ (.ok a) ∧ Runs (f a) t₂ r) ∨
      ∃ e, Runs p t (.error e) ∧ r = .error e := by
  show Prog.Runs (ExceptT.run p >>= ExceptT.bindCont f) t r ↔ _
  rw [Prog.runs_bind]
  constructor
  · rintro ⟨x, t₁, t₂, rfl, h₁, h₂⟩
    cases x with
    | ok a => exact Or.inl ⟨a, t₁, t₂, rfl, h₁, h₂⟩
    | error e =>
      obtain ⟨rfl, rfl⟩ := h₂
      exact Or.inr ⟨e, by rw [List.append_nil]; exact h₁, rfl⟩
  · rintro (⟨a, t₁, t₂, rfl, h₁, h₂⟩ | ⟨e, h₁, rfl⟩)
    · exact ⟨.ok a, t₁, t₂, rfl, h₁, h₂⟩
    · exact ⟨.error e, t, [], by simp, h₁, rfl, rfl⟩

@[simp] theorem runs_ask {op : S.Op} {r : Except E (S.Ans op)} :
    Runs (ask op : Act S E _) t r ↔ ∃ ans, t = [⟨op, ans⟩] ∧ r = .ok ans := by
  constructor
  · rintro ⟨ans, t', rfl, rfl, rfl⟩
    exact ⟨ans, rfl, rfl⟩
  · rintro ⟨ans, rfl, rfl⟩
    exact ⟨ans, [], rfl, rfl, rfl⟩

@[simp] theorem runs_attempt {r : Except E (Except E α)} :
    Runs (attempt p) t r ↔ ∃ x, Runs p t x ∧ r = .ok x := by
  show Prog.Runs (ExceptT.run p >>= fun x => pure (Except.ok x)) t r ↔ _
  rw [Prog.runs_bind]
  constructor
  · rintro ⟨x, t₁, t₂, rfl, h, rfl, rfl⟩
    exact ⟨x, by rw [List.append_nil]; exact h, rfl⟩
  · rintro ⟨x, h, rfl⟩
    exact ⟨x, t, [], by simp, h, rfl, rfl⟩

theorem runs_bind_ok {a : α} {t₁ t₂ : List (Event S)} {r : Except E β} (h₁ : Runs p t₁ (.ok a))
    (h₂ : Runs (f a) t₂ r) : Runs (p >>= f) (t₁ ++ t₂) r :=
  runs_bind.mpr (Or.inl ⟨a, t₁, t₂, rfl, h₁, h₂⟩)

theorem runs_bind_error {e : E} (h : Runs p t (.error e)) :
    Runs (p >>= f) t (.error e : Except E β) :=
  runs_bind.mpr (Or.inr ⟨e, h, rfl⟩)

theorem runs_bind_eq_ok {b : β} (h : Runs (p >>= f) t (.ok b)) :
    ∃ a t₁ t₂, t = t₁ ++ t₂ ∧ Runs p t₁ (.ok a) ∧ Runs (f a) t₂ (.ok b) := by
  rcases runs_bind.mp h with h | ⟨e, -, he⟩
  · exact h
  · cases he

theorem runs_attempt_bind {g : Except E α → Act S E β} {r : Except E β} :
    Runs (attempt p >>= g) t r ↔ ∃ x t₁ t₂, t = t₁ ++ t₂ ∧ Runs p t₁ x ∧ Runs (g x) t₂ r := by
  rw [runs_bind]
  constructor
  · rintro (⟨x, t₁, t₂, rfl, h₁, h₂⟩ | ⟨e, h₁, -⟩)
    · obtain ⟨y, hy, hx⟩ := runs_attempt.mp h₁
      cases hx
      exact ⟨_, t₁, t₂, rfl, hy, h₂⟩
    · obtain ⟨y, -, hx⟩ := runs_attempt.mp h₁
      cases hx
  · rintro ⟨x, t₁, t₂, rfl, h₁, h₂⟩
    exact Or.inl ⟨x, t₁, t₂, rfl, runs_attempt.mpr ⟨x, h₁, rfl⟩, h₂⟩

theorem runs_ask_bind {op : S.Op} {g : S.Ans op → Act S E β} {r : Except E β} :
    Runs ((ask op : Act S E _) >>= g) t r ↔ ∃ ans t', t = ⟨op, ans⟩ :: t' ∧ Runs (g ans) t' r := by
  rw [runs_bind]
  constructor
  · rintro (⟨a, t₁, t₂, rfl, h₁, h₂⟩ | ⟨e, h₁, -⟩)
    · obtain ⟨ans, rfl, ha⟩ := runs_ask.mp h₁
      cases ha
      exact ⟨a, t₂, rfl, h₂⟩
    · obtain ⟨ans, -, ha⟩ := runs_ask.mp h₁
      cases ha
  · rintro ⟨ans, t', rfl, h⟩
    exact Or.inl ⟨ans, [⟨op, ans⟩], t', rfl, runs_ask.mpr ⟨ans, rfl, rfl⟩, h⟩

theorem runs_fromExcept_bind {x : Except E α} {r : Except E β} :
    Runs ((fromExcept x : Act S E α) >>= f) t r ↔
      (∃ a, x = .ok a ∧ Runs (f a) t r) ∨ ∃ e, x = .error e ∧ t = [] ∧ r = .error e := by
  rw [runs_bind]
  constructor
  · rintro (⟨a, t₁, t₂, rfl, h₁, h₂⟩ | ⟨e, h₁, rfl⟩)
    · obtain ⟨rfl, rfl⟩ := runs_fromExcept.mp h₁
      exact Or.inl ⟨a, rfl, h₂⟩
    · obtain ⟨rfl, rfl⟩ := runs_fromExcept.mp h₁
      exact Or.inr ⟨e, rfl, rfl, rfl⟩
  · rintro (⟨a, rfl, h⟩ | ⟨e, rfl, rfl, rfl⟩)
    · exact Or.inl ⟨a, [], t, rfl, ⟨rfl, rfl⟩, h⟩
    · exact Or.inr ⟨e, ⟨rfl, rfl⟩, rfl⟩

theorem exec_runs (env : (op : S.Op) → S.Ans op) (p : Act S E α) :
    Runs p (exec env p).1 (exec env p).2 := Prog.exec_runs env _

theorem execFrom_runs (env : Nat → (op : S.Op) → S.Ans op) (p : Act S E α) (n : Nat) :
    Runs p (execFrom env p n).1 (execFrom env p n).2 := Prog.execFrom_runs env _ n

end Act

/-! ## What every event of a run satisfies -/

/-- Every exchange of every run of `p` satisfies `φ`. -/
def Emits (p : Act S E α) (φ : Event S → Prop) : Prop :=
  ∀ t r, Runs p t r → ∀ e ∈ t, φ e

section Emits

variable {p : Act S E α} {f : α → Act S E β} {φ ψ : Event S → Prop}

@[simp] theorem emits_pure (a : α) : Emits (pure a : Act S E α) φ := by
  rintro t r ⟨rfl, -⟩ e he
  simp at he

@[simp] theorem emits_throw (x : E) : Emits (throw x : Act S E α) φ := by
  rintro t r ⟨rfl, -⟩ e he
  simp at he

@[simp] theorem emits_fromExcept (x : Except E α) : Emits (fromExcept x : Act S E α) φ := by
  rintro t r ⟨rfl, -⟩ e he
  simp at he

theorem emits_bind (hp : Emits p φ) (hf : ∀ a, Emits (f a) φ) : Emits (p >>= f) φ := by
  intro t r hr e he
  rcases runs_bind.mp hr with ⟨a, t₁, t₂, rfl, h₁, h₂⟩ | ⟨x, h₁, -⟩
  · rcases List.mem_append.mp he with he | he
    · exact hp _ _ h₁ e he
    · exact hf a _ _ h₂ e he
  · exact hp _ _ h₁ e he

theorem emits_ask {op : S.Op} (h : ∀ ans, φ ⟨op, ans⟩) : Emits (ask op : Act S E _) φ := by
  intro t r hr e he
  obtain ⟨ans, rfl, -⟩ := runs_ask.mp hr
  rw [List.mem_singleton.mp he]
  exact h ans

theorem emits_attempt (h : Emits p φ) : Emits (attempt p) φ := by
  intro t r hr
  obtain ⟨x, hx, -⟩ := runs_attempt.mp hr
  exact h t x hx

end Emits

/-! ## What a program raises -/

/-- Every exception a run of `p` ends with satisfies `φ`. -/
def Raises (p : Act S E α) (φ : E → Prop) : Prop :=
  ∀ t e, Runs p t (.error e) → φ e

section Raises

variable {p : Act S E α} {f : α → Act S E β} {φ ψ : E → Prop}

@[simp] theorem raises_pure (a : α) : Raises (pure a : Act S E α) φ := by
  rintro t e ⟨-, he⟩
  cases he

theorem raises_throw {e : E} (h : φ e) : Raises (throw e : Act S E α) φ := by
  rintro t e' ⟨-, he⟩
  cases he
  exact h

theorem raises_fromExcept {x : Except E α} (h : ∀ e, x = .error e → φ e) :
    Raises (fromExcept x : Act S E α) φ := by
  rintro t e ⟨-, he⟩
  exact h e he.symm

theorem raises_bind (hp : Raises p φ) (hf : ∀ a, Raises (f a) φ) : Raises (p >>= f) φ := by
  intro t e hr
  rcases runs_bind.mp hr with ⟨a, t₁, t₂, -, -, h₂⟩ | ⟨x, h₁, hx⟩
  · exact hf a _ _ h₂
  · cases hx
    exact hp _ _ h₁

@[simp] theorem raises_ask {op : S.Op} : Raises (ask op : Act S E _) φ := by
  intro t e hr
  obtain ⟨ans, -, he⟩ := runs_ask.mp hr
  cases he

/-- What is tried does not raise; what follows knows what it raised. -/
theorem raises_attempt_bind {g : Except E α → Act S E β} (hp : Raises p φ)
    (hok : ∀ a, Raises (g (.ok a)) ψ) (herr : ∀ e, φ e → Raises (g (.error e)) ψ) :
    Raises (attempt p >>= g) ψ := by
  intro t e hr
  obtain ⟨x, t₁, t₂, -, h₁, h₂⟩ := runs_attempt_bind.mp hr
  cases x with
  | ok a => exact hok a _ _ h₂
  | error e' => exact herr e' (hp _ _ h₁) _ _ h₂

end Raises

end Effect
