import Mathlib.Logic.Function.Basic

/-!
# Ledger — a server with idempotency keys

Under each key the server remembers the body it served first and its response.  The same body is
answered with the same response, another body with a conflict; a request may also be refused, and
the answer to one that was served may get lost.
-/

namespace Effect

universe u v w

/-- The body and the response recorded under each key. -/
abbrev Ledger (K : Type u) (B : Type v) (R : Type w) := K → Option (B × R)

/-- How a request was answered. -/
inductive Answer (R : Type w) where
  | served (response : R)
  | conflict
  /-- Any other failure, as the client sees it. -/
  | failed
deriving DecidableEq

section

variable {K : Type u} {B : Type v} {R : Type w} [DecidableEq K]

/-- One request under `key` with the body `body`: its answer, and the ledger after it. -/
inductive Ledger.Step (m : Ledger K B R) (key : K) (body : B) : Answer R → Ledger K B R → Prop
  | replay {response : R} (h : m key = some (body, response)) :
      Step m key body (.served response) m
  | conflict {first : B} {response : R} (h : m key = some (first, response)) (hne : first ≠ body) :
      Step m key body .conflict m
  | serve {response : R} (h : m key = none) :
      Step m key body (.served response) (Function.update m key (some (body, response)))
  | fail : Step m key body .failed m
  /-- Served, but the client does not get the answer. -/
  | lose {response : R} (h : m key = none) :
      Step m key body .failed (Function.update m key (some (body, response)))

/-- What is recorded stays recorded. -/
def Ledger.Le (m m' : Ledger K B R) : Prop :=
  ∀ key entry, m key = some entry → m' key = some entry

omit [DecidableEq K] in
theorem Ledger.Le.refl (m : Ledger K B R) : m.Le m := fun _ _ h => h

omit [DecidableEq K] in
theorem Ledger.Le.trans {m₁ m₂ m₃ : Ledger K B R} (h₁ : m₁.Le m₂) (h₂ : m₂.Le m₃) : m₁.Le m₃ :=
  fun key entry h => h₂ key entry (h₁ key entry h)

/-- A free entry may be written. -/
theorem Ledger.le_update {m : Ledger K B R} {key : K} {entry : Option (B × R)}
    (h : m key = none) : m.Le (Function.update m key entry) := by
  intro k e hk
  have hne : k ≠ key := by
    rintro rfl
    rw [h] at hk
    cases hk
  rw [Function.update_of_ne hne]
  exact hk

variable {m m' : Ledger K B R} {key : K} {body : B} {answer : Answer R}

theorem Ledger.Step.le (h : m.Step key body answer m') : m.Le m' := by
  cases h with
  | replay h => exact .refl m
  | conflict h hne => exact .refl m
  | serve h => exact le_update h
  | fail => exact .refl m
  | lose h => exact le_update h

/-- A response that was given is recorded. -/
theorem Ledger.Step.served {response : R} (h : m.Step key body (.served response) m') :
    m' key = some (body, response) := by
  cases h with
  | replay h => exact h
  | serve h => exact Function.update_self ..

/-- A recorded response is given again, to its own body only. -/
theorem Ledger.Step.replayed {response : R} {first : B} {recorded : R}
    (h : m.Step key body (.served response) m') (hm : m key = some (first, recorded)) :
    first = body ∧ recorded = response := by
  have hself := h.le key _ hm
  rw [h.served] at hself
  cases hself
  exact ⟨rfl, rfl⟩

/-- A conflict is about another body. -/
theorem Ledger.Step.other (h : m.Step key body .conflict m') :
    ∃ first response, m key = some (first, response) ∧ first ≠ body := by
  cases h with
  | conflict h hne => exact ⟨_, _, h, hne⟩

end

end Effect
