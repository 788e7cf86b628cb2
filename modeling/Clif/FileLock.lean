import Mathlib.Logic.Function.Basic

/-!
# FileLock — a lock file: one path, and exclusive locks on the files it has led to

A lock belongs to the file that was opened, not to the path: once the path is unlinked, the next
open makes another file, with a lock of its own.
-/

structure FileLock (ρ : Type) where
  /-- The file that the path leads to. -/
  path : Option Nat
  /-- No file has this number yet. -/
  fresh : Nat
  /-- Who holds the lock of a file. -/
  holder : Nat → Option ρ
  text : Nat → String

namespace FileLock

variable {ρ : Type} {h h' : FileLock ρ} {p q : ρ} {i j : Nat} {s : String}

/-- Opens the path, and makes a file if it leads to none. -/
def openOrCreate (h : FileLock ρ) : Nat × FileLock ρ :=
  match h.path with
  | some i => (i, h)
  | none => (h.fresh, { h with
      path := some h.fresh, fresh := h.fresh + 1, text := Function.update h.text h.fresh "" })

/-- Takes the lock of the file if nobody holds it. -/
def tryLock (h : FileLock ρ) (p : ρ) (i : Nat) : Option (FileLock ρ) :=
  match h.holder i with
  | none => some { h with holder := Function.update h.holder i (some p) }
  | some _ => none

def write (h : FileLock ρ) (i : Nat) (s : String) : FileLock ρ :=
  { h with text := Function.update h.text i s }

/-- Gives the lock of the file back. -/
def unlock [DecidableEq ρ] (h : FileLock ρ) (p : ρ) (i : Nat) : FileLock ρ :=
  if h.holder i = some p then { h with holder := Function.update h.holder i none } else h

def unlink (h : FileLock ρ) : FileLock ρ := { h with path := none }

/-- The process is gone, and its locks with it. -/
def drop [DecidableEq ρ] (h : FileLock ρ) (p : ρ) : FileLock ρ :=
  { h with holder := fun i => if h.holder i = some p then none else h.holder i }

/-- `p` holds the lock of the file that the path leads to, and that file is `i`. -/
def Leads (h : FileLock ρ) (p : ρ) (i : Nat) : Prop := h.holder i = some p ∧ h.path = some i

theorem Leads.unique (hp : h.Leads p i) (hq : h.Leads q j) : p = q := by
  have hij : i = j := Option.some.inj (hp.2.symm.trans hq.2)
  subst hij
  exact Option.some.inj (hp.1.symm.trans hq.1)

theorem Leads.openOrCreate (hp : h.Leads p i) : h.openOrCreate.2.Leads p i := by
  unfold FileLock.openOrCreate
  simp only [hp.2]
  exact hp

theorem tryLock_some (hlock : h.tryLock p i = some h') :
    h.holder i = none ∧ h' = { h with holder := Function.update h.holder i (some p) } := by
  unfold tryLock at hlock
  cases hfree : h.holder i with
  | none =>
    rw [hfree] at hlock
    exact ⟨rfl, (Option.some.inj hlock).symm⟩
  | some q =>
    rw [hfree] at hlock
    cases hlock

/-- A lock that is granted on the file of the path. -/
theorem leads_tryLock (hlock : h.tryLock p i = some h') (hpath : h.path = some i) :
    h'.Leads p i := by
  obtain ⟨-, rfl⟩ := tryLock_some hlock
  exact ⟨Function.update_self .., hpath⟩

theorem Leads.tryLock (hq : h.Leads q j) (hlock : h.tryLock p i = some h') : h'.Leads q j := by
  obtain ⟨hfree, rfl⟩ := tryLock_some hlock
  have hne : j ≠ i := by
    rintro rfl
    rw [hq.1] at hfree
    cases hfree
  exact ⟨by simpa [Function.update_of_ne hne] using hq.1, hq.2⟩

theorem Leads.write (hp : h.Leads p i) : (h.write j s).Leads p i := hp

theorem Leads.unlock [DecidableEq ρ] (hq : h.Leads q j) (hne : q ≠ p) :
    (h.unlock p i).Leads q j := by
  unfold FileLock.unlock
  split
  · rename_i hi
    have hji : j ≠ i := by
      rintro rfl
      exact hne (Option.some.inj (hq.1.symm.trans hi))
    exact ⟨by simpa [Function.update_of_ne hji] using hq.1, hq.2⟩
  · exact hq

theorem Leads.drop [DecidableEq ρ] (hq : h.Leads q j) (hne : q ≠ p) : (h.drop p).Leads q j := by
  refine ⟨?_, hq.2⟩
  show (if h.holder j = some p then none else h.holder j) = some q
  rw [hq.1, if_neg fun heq => hne (Option.some.inj heq)]

end FileLock
