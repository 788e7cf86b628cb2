import Mathlib.Logic.Function.Basic
import Clif.Effect.Run

/-!
# SharedCache — a directory of facts, one file for each key

Several programs look a fact up, and write it down when they had to work it out.  They share no
lock, and a program that stops while it writes leaves a file that no document can be read from.
`hit_true`: if only facts are written, whatever is read is one.
-/

namespace SharedCache

open Effect

variable {κ ν ε : Type} [DecidableEq κ]

/-- What the file of a key holds. -/
inductive Slot (ν : Type) where
  | absent
  | torn
  | whole (v : ν)

abbrev Cache (κ ν : Type) := κ → Slot ν

/-- What an event does to the cache. -/
inductive Access (κ ν : Type) where
  | load (k : κ) (found : Option ν)
  | create (k : κ)
  | dump (k : κ) (v : ν)
  /-- A write that failed half way. -/
  | tear (k : κ)
  | remove (k : κ)
  | other

/-- A document that is there can still fail to be read. -/
inductive Step (c : Cache κ ν) : Access κ ν → Cache κ ν → Prop
  | hit {k : κ} {v : ν} (h : c k = .whole v) : Step c (.load k (some v)) c
  | miss {k : κ} : Step c (.load k none) c
  | create {k : κ} : Step c (.create k) (Function.update c k .torn)
  | dump {k : κ} {v : ν} : Step c (.dump k v) (Function.update c k (.whole v))
  | tear {k : κ} : Step c (.tear k) (Function.update c k .torn)
  | remove {k : κ} : Step c (.remove k) (Function.update c k .absent)
  | other : Step c .other c

/-- Every document that can be read is a fact. -/
def Holds (Fact : κ → ν → Prop) (c : Cache κ ν) : Prop := ∀ k v, c k = .whole v → Fact k v

section

variable {Fact : κ → ν → Prop} {c c' : Cache κ ν} {access : ε → Access κ ν}

theorem Holds.update (h : Holds Fact c) {k : κ} {s : Slot ν} (hs : ∀ v, s = .whole v → Fact k v) :
    Holds Fact (Function.update c k s) := by
  intro k' v hv
  by_cases hk : k' = k
  · subst hk
    rw [Function.update_self] at hv
    exact hs v hv
  · rw [Function.update_of_ne hk] at hv
    exact h k' v hv

theorem Step.holds {a : Access κ ν} (hstep : Step c a c') (h : Holds Fact c)
    (hdump : ∀ k v, a = .dump k v → Fact k v) : Holds Fact c' := by
  cases hstep with
  | hit hk => exact h
  | miss => exact h
  | create => exact h.update nofun
  | @dump k v =>
    refine h.update fun v' hv => ?_
    cases hv
    exact hdump k v rfl
  | tear => exact h.update nofun
  | remove => exact h.update nofun
  | other => exact h

/-- Where only facts are written, only facts are read. -/
theorem hit_true {es : List ε} (hrun : Run (fun c e c' => Step c (access e) c') c es c')
    (h : Holds Fact c) (hdump : ∀ e ∈ es, ∀ k v, access e = .dump k v → Fact k v) :
    ∀ e ∈ es, ∀ k v, access e = .load k (some v) → Fact k v := by
  have hall : Holds Fact c' ∧ ∀ e ∈ es, ∀ k v, access e = .load k (some v) → Fact k v := by
    induction hrun with
    | nil => exact ⟨h, by simp⟩
    | @snoc es c₁ e c₂ hrun hstep ih =>
      obtain ⟨hbefore, hlast⟩ := List.forall_mem_append.mp hdump
      obtain ⟨hholds, hhits⟩ := ih hbefore
      refine ⟨hstep.holds hholds (hlast e (List.mem_singleton_self e)), ?_⟩
      refine List.forall_mem_append.mpr ⟨hhits, fun e' he' k v hload => ?_⟩
      rw [List.mem_singleton.mp he'] at hload
      rw [hload] at hstep
      cases hstep with
      | hit hk => exact hholds k v hk
  exact hall.2

end

end SharedCache
