import Clif.Effect.Wp

/-!
# Effect.Interleave — several programs and an environment take turns

A history of moves: each is an exchange of one of the programs, or a step of the environment.  The
exchanges of one program are its part of the history, and what every run of the program guards
its own part guards as well.
-/

namespace Effect

variable {S : Sig} {E σ α ι ε χ : Type}

/-- A step of the environment, or an exchange of the program `i`. -/
inductive Move (ι ε χ : Type) where
  | proc (i : ι) (e : ε)
  | env (x : χ)

section Part

variable [DecidableEq ι] {i : ι} {h h₁ h₂ : List (Move ι ε χ)} {e : ε}

/-- The exchange of `i` in a move. -/
def Move.ofProc (i : ι) : Move ι ε χ → Option ε
  | .proc j e => if j = i then some e else none
  | .env _ => none

/-- The part of the program `i` in a history. -/
def part (i : ι) (h : List (Move ι ε χ)) : List ε := h.filterMap (Move.ofProc i)

@[simp] theorem part_append : part i (h₁ ++ h₂) = part i h₁ ++ part i h₂ :=
  List.filterMap_append

@[simp] theorem part_env {x : χ} : part i (.env x :: h) = part i h := rfl

@[simp] theorem part_proc : part i (.proc i e :: h) = e :: part i h := by
  simp [part, Move.ofProc]

theorem part_own {t : List ε} : part i (t.map (.proc i : ε → Move ι ε χ)) = t := by
  induction t with
  | nil => rfl
  | cons e t ih => rw [List.map_cons, part_proc, ih]

theorem part_other {j : ι} {t : List ε} (hj : j ≠ i) :
    part i (t.map (.proc j : ε → Move ι ε χ)) = [] := by
  refine List.filterMap_eq_nil_iff.mpr fun m hm => ?_
  obtain ⟨e, -, rfl⟩ := List.mem_map.mp hm
  exact if_neg hj

/-- An exchange in the part of a program is a move of the history. -/
theorem part_split {t₁ t₂ : List ε} (ht : part i h = t₁ ++ e :: t₂) :
    ∃ h₁ h₂, h = h₁ ++ .proc i e :: h₂ ∧ part i h₁ = t₁ ∧ part i h₂ = t₂ := by
  obtain ⟨h₁, h₂, rfl, hpart₁, hpart₂⟩ := List.filterMap_eq_append_iff.mp ht
  obtain ⟨h₃, m, h₄, rfl, hnone, hm, hpart₄⟩ := List.filterMap_eq_cons_iff.mp hpart₂
  obtain rfl : m = .proc i e := by
    cases m with
    | env x => cases hm
    | proc j e' =>
      by_cases hj : j = i
      · subst hj
        simpa [Move.ofProc] using hm
      · simp [Move.ofProc, hj] at hm
  refine ⟨h₁ ++ h₃, h₄, by simp, ?_, hpart₄⟩
  have hquiet : part i h₃ = [] := List.filterMap_eq_nil_iff.mpr hnone
  rw [part_append, hquiet, List.append_nil]
  exact hpart₁

end Part

/-! ## Programs that have not ended yet -/

/-- A run of `p` begins with `t`. -/
def Begun (p : Act S E α) (t : List (Event S)) : Prop := ∃ t' r, Runs p (t ++ t') r

theorem Begun.append {p : Act S E α} {t t' : List (Event S)} (h : Begun p (t ++ t')) :
    Begun p t := by
  obtain ⟨t'', r, hr⟩ := h
  exact ⟨t' ++ t'', r, by rwa [← List.append_assoc]⟩

/-- What a world has answered after `n` exchanges. -/
theorem begun_exec {p : Act S E α} (env : (op : S.Op) → S.Ans op) (n : Nat) :
    Begun p ((exec env p).1.take n) := by
  refine ⟨(exec env p).1.drop n, (exec env p).2, ?_⟩
  rw [List.take_append_drop]
  exact exec_runs env p

/-- What guards every run of a program guards what it has done so far. -/
theorem Begun.guarded {p : Act S E α} {t : List (Event S)} {P : List (Event S) → Event S → Prop}
    (hp : ∀ t r, Runs p t r → Guarded P t) (h : Begun p t) : Guarded P t := by
  obtain ⟨t', r, hr⟩ := h
  intro t₁ e t₂ ht
  refine hp _ _ hr t₁ e (t₂ ++ t') ?_
  rw [ht, List.append_assoc, List.cons_append]

/-- A run of `p` on `s` begins with `t`. -/
def BegunOn (p : StAct S E σ α) (s : σ) (t : List (Event S)) : Prop :=
  ∃ t' r s', RunsOn p s (t ++ t') r s'

theorem BegunOn.guarded {p : StAct S E σ α} {s : σ} {t : List (Event S)}
    {P : List (Event S) → Event S → Prop} (hp : ∀ t r s', RunsOn p s t r s' → Guarded P t)
    (h : BegunOn p s t) : Guarded P t := by
  obtain ⟨t', r, s', hr⟩ := h
  intro t₁ e t₂ ht
  refine hp _ _ _ hr t₁ e (t₂ ++ t') ?_
  rw [ht, List.append_assoc, List.cons_append]

end Effect
