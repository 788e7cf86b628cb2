import Clif.Effect.Run
import Clif.FileLock
import Clif.Text

/-!
# SignerLock — `_acquire_fsp_auto_lock` and `_release_fsp_auto_lock`

Any number of processes take the steps of the two functions in any order; a process may die between
any two of its steps.
-/

namespace Clif

/-- Where a process is in the two functions, and the lock file that it has open. -/
inductive LockPhase where
  | idle
  | opened (file : Nat)
  /-- The lock was not granted; then, with the PID that the file names. -/
  | refused (file : Nat)
  | warned (file : Nat) (existingPid : String)
  | locked (file : Nat)
  | truncated (file : Nat)
  /-- `_acquire_fsp_auto_lock` has returned. -/
  | acquired (file : Nat)
  | unlocked (file : Nat)
  | closed
  | ended
deriving DecidableEq

inductive LockAction where
  | openFile
  | flock
  | readPid
  | readFails
  | ftruncate
  | writePid
  | unlock
  | close
  | unlink
  /-- `LOCK_UN` or the `close` of the release raises: it goes on to the unlink. -/
  | releaseFails
  | unlinkFails
  | die
deriving DecidableEq

structure SignerLock where
  file : FileLock Nat
  phase : Nat → LockPhase

/-- The lock of this file was granted to the process, which has not begun to release it. -/
def LockPhase.keeps : LockPhase → Option Nat
  | .locked i | .truncated i | .acquired i => some i
  | _ => none

/-- `os.read(fd, 64).decode().strip() or "unknown"`. -/
def existingPid (text : String) : String :=
  let pid := Py.strip (String.ofList (text.toList.take 64))
  if pid = "" then "unknown" else pid

namespace SignerLock

variable {s s' : SignerLock} {p q : Nat} {a : LockAction} {es : List (Nat × LockAction)}

/-- The process is between an acquire that succeeded and its release. -/
def Signs (s : SignerLock) (p : Nat) : Prop := ∃ i, s.phase p = .acquired i

def put (s : SignerLock) (p : Nat) (file : FileLock Nat) (phase : LockPhase) : SignerLock :=
  ⟨file, Function.update s.phase p phase⟩

@[simp] theorem put_file {file : FileLock Nat} {phase : LockPhase} :
    (s.put p file phase).file = file := rfl

@[simp] theorem put_phase_self {file : FileLock Nat} {phase : LockPhase} :
    (s.put p file phase).phase p = phase := Function.update_self ..

theorem put_phase_ne {file : FileLock Nat} {phase : LockPhase} (h : q ≠ p) :
    (s.put p file phase).phase q = s.phase q := Function.update_of_ne h ..

/-- One step of the process `p`. -/
def step (s : SignerLock) (p : Nat) (a : LockAction) : Option SignerLock :=
  match a, s.phase p with
  | .openFile, .idle => some (s.put p s.file.openOrCreate.2 (.opened s.file.openOrCreate.1))
  | .flock, .opened i =>
    match s.file.tryLock p i with
    | some file => some (s.put p file (.locked i))
    | none => some (s.put p s.file (.refused i))
  | .readPid, .refused i => some (s.put p s.file (.warned i (existingPid (s.file.text i))))
  | .readFails, .refused i => some (s.put p s.file (.warned i "unknown"))
  | .close, .warned _ _ => some (s.put p s.file .ended)
  | .ftruncate, .locked i => some (s.put p (s.file.write i "") (.truncated i))
  | .writePid, .truncated i => some (s.put p (s.file.write i (toString p)) (.acquired i))
  | .unlock, .acquired i => some (s.put p (s.file.unlock p i) (.unlocked i))
  | .close, .unlocked _ => some (s.put p s.file .closed)
  | .releaseFails, .acquired _ => some (s.put p s.file .closed)
  | .releaseFails, .unlocked _ => some (s.put p s.file .closed)
  | .unlink, .closed => some (s.put p s.file.unlink .ended)
  | .unlinkFails, .closed => some (s.put p s.file .ended)
  | .die, _ => some (s.put p (s.file.drop p) .idle)
  | _, _ => none

/-- A step of one of the processes. -/
def Step (s : SignerLock) (e : Nat × LockAction) (s' : SignerLock) : Prop :=
  s.step e.1 e.2 = some s'

/-- No process has been started; the lock file may be left from an earlier boot. -/
def initial (path : Option Nat) (text : String) : SignerLock where
  file := ⟨path, path.elim 0 (· + 1), fun _ => none, fun _ => text⟩
  phase := fun _ => .idle

/-- The lock is granted on the file that the path leads to, and the path is unlinked when no other
process holds the lock of the file it leads to. -/
def Orderly (s : SignerLock) (e : Nat × LockAction) : Prop :=
  (e.2 = .flock → ∀ i, s.phase e.1 = .opened i → s.file.holder i = none → s.file.path = some i) ∧
  (e.2 = .unlink → ∀ i q, s.file.path = some i → s.file.holder i = some q → q = e.1)

/-- Every lock that a process keeps is that of the file that the path leads to. -/
def Led (s : SignerLock) : Prop := ∀ p i, (s.phase p).keeps = some i → s.file.Leads p i

theorem Led.signs_unique (hled : s.Led) (hp : s.Signs p) (hq : s.Signs q) : p = q := by
  obtain ⟨i, hi⟩ := hp
  obtain ⟨j, hj⟩ := hq
  have hpi : s.file.Leads p i := hled p i (by rw [hi]; rfl)
  have hqj : s.file.Leads q j := hled q j (by rw [hj]; rfl)
  exact hpi.unique hqj

/-- A step of `p` keeps the account of the others if the locks that lead survive it. -/
theorem Led.put {file : FileLock Nat} {phase : LockPhase} (hled : s.Led)
    (hfile : ∀ q i, q ≠ p → (s.phase q).keeps = some i → s.file.Leads q i → file.Leads q i)
    (hself : ∀ i, phase.keeps = some i → file.Leads p i) : (s.put p file phase).Led := by
  intro q i hq
  by_cases hqp : q = p
  · subst hqp
    rw [put_phase_self] at hq
    exact hself i hq
  · rw [put_phase_ne hqp] at hq
    exact hfile q i hqp hq (hled q i hq)

/-- An orderly step keeps the locks led to. -/
theorem led_step (hled : s.Led) (hord : Orderly s (p, a)) (hstep : s.step p a = some s') :
    s'.Led := by
  have hown : ∀ i, (s.phase p).keeps = some i → s.file.Leads p i := hled p
  unfold step at hstep
  split at hstep
  · -- open
    cases hstep
    exact hled.put (fun q i _ _ hq => hq.openOrCreate) (fun i hi => by cases hi)
  · -- flock
    rename_i i hphase
    cases hlock : s.file.tryLock p i with
    | some file =>
      rw [hlock] at hstep
      cases hstep
      have hpath : s.file.path = some i :=
        hord.1 rfl i hphase (FileLock.tryLock_some hlock).1
      refine hled.put (fun q j _ _ hq => hq.tryLock hlock) (fun j hj => ?_)
      cases hj
      exact FileLock.leads_tryLock hlock hpath
    | none =>
      rw [hlock] at hstep
      cases hstep
      exact hled.put (fun q j _ _ hq => hq) (fun j hj => by cases hj)
  · -- read
    cases hstep
    exact hled.put (fun q j _ _ hq => hq) (fun j hj => by cases hj)
  · cases hstep
    exact hled.put (fun q j _ _ hq => hq) (fun j hj => by cases hj)
  · cases hstep
    exact hled.put (fun q j _ _ hq => hq) (fun j hj => by cases hj)
  · -- ftruncate
    rename_i i hphase
    cases hstep
    refine hled.put (fun q j _ _ hq => hq.write) (fun j hj => ?_)
    rw [hphase] at hown
    exact (hown j hj).write
  · -- write
    rename_i i hphase
    cases hstep
    refine hled.put (fun q j _ _ hq => hq.write) (fun j hj => ?_)
    rw [hphase] at hown
    exact (hown j hj).write
  · -- unlock
    cases hstep
    exact hled.put (fun q j hqp _ hq => hq.unlock hqp) (fun j hj => by cases hj)
  · cases hstep
    exact hled.put (fun q j _ _ hq => hq) (fun j hj => by cases hj)
  · cases hstep
    exact hled.put (fun q j _ _ hq => hq) (fun j hj => by cases hj)
  · cases hstep
    exact hled.put (fun q j _ _ hq => hq) (fun j hj => by cases hj)
  · -- unlink: the others keep no lock of the file that the path leads to
    cases hstep
    refine hled.put (fun q j hqp _ hq => ?_) (fun j hj => by cases hj)
    exact absurd (hord.2 rfl j q hq.2 hq.1) hqp
  · cases hstep
    exact hled.put (fun q j _ _ hq => hq) (fun j hj => by cases hj)
  · -- die
    cases hstep
    exact hled.put (fun q j hqp _ hq => hq.drop hqp) (fun j hj => by cases hj)
  · cases hstep

/-- In a run of orderly steps at most one process signs. -/
theorem oneSigner {path : Option Nat} {text : String}
    (hrun : Effect.Run Step (initial path text) es s)
    (hord : Effect.EachStep Step (initial path text) Orderly es) :
    ∀ p q, s.Signs p → s.Signs q → p = q := by
  have hled : s.Led := by
    refine Effect.Run.invariant_of_eachStep (fun _ u => u.Led) ?_ ?_ hrun hord
    · intro p i hi
      cases hi
    · intro _ u e v _ hu ho hstep
      exact led_step hu ho hstep
  exact fun p q hp hq => hled.signs_unique hp hq

/-- Once a process signs under a lock that the path does not lead to, the next one signs as well. -/
theorem second_signer {i : Nat} (hp : s.phase p = .acquired i) (hq : s.phase q = .idle)
    (hfree : s.file.openOrCreate.2.holder s.file.openOrCreate.1 = none) :
    ∃ u, Effect.Run Step s [(q, .openFile), (q, .flock), (q, .ftruncate), (q, .writePid)] u ∧
      u.Signs p ∧ u.Signs q := by
  have hqp : p ≠ q := by
    rintro rfl
    rw [hp] at hq
    cases hq
  obtain ⟨file, hlock⟩ : ∃ file,
      s.file.openOrCreate.2.tryLock q s.file.openOrCreate.1 = some file := by
    unfold FileLock.tryLock
    rw [hfree]
    exact ⟨_, rfl⟩
  let s₁ := s.put q s.file.openOrCreate.2 (.opened s.file.openOrCreate.1)
  let s₂ := s₁.put q file (.locked s.file.openOrCreate.1)
  let s₃ := s₂.put q (file.write s.file.openOrCreate.1 "") (.truncated s.file.openOrCreate.1)
  let s₄ := s₃.put q (s₃.file.write s.file.openOrCreate.1 (toString q))
    (.acquired s.file.openOrCreate.1)
  have h₁ : Step s (q, .openFile) s₁ := by
    unfold Step step
    simp only [hq]
    rfl
  have h₂ : Step s₁ (q, .flock) s₂ := by
    unfold Step step
    simp only [s₁, put_phase_self, put_file, hlock]
    rfl
  have h₃ : Step s₂ (q, .ftruncate) s₃ := by
    unfold Step step
    simp only [s₂, put_phase_self, put_file]
    rfl
  have h₄ : Step s₃ (q, .writePid) s₄ := by
    unfold Step step
    simp only [s₃, put_phase_self]
    rfl
  refine ⟨s₄, .cons h₁ (.cons h₂ (.cons h₃ (.single h₄))), ⟨i, ?_⟩, ⟨_, put_phase_self⟩⟩
  rw [put_phase_ne hqp, put_phase_ne hqp, put_phase_ne hqp, put_phase_ne hqp]
  exact hp

/-! ## Two signers -/

def steps (s : SignerLock) (es : List (Nat × LockAction)) : Option SignerLock :=
  es.foldlM (fun s e => s.step e.1 e.2) s

theorem run_of_steps (h : s.steps es = some s') : Effect.Run Step s es s' := .of_foldlM h

/-- The second process opens the file of the first and locks it between its close and its unlink;
the third makes a file of its own. -/
def overlap : List (Nat × LockAction) :=
  [(1, .openFile), (1, .flock), (1, .ftruncate), (1, .writePid), (2, .openFile), (1, .unlock),
    (1, .close), (2, .flock), (2, .ftruncate), (2, .writePid), (1, .unlink), (3, .openFile),
    (3, .flock), (3, .ftruncate), (3, .writePid)]

/-- Two processes sign at a time. -/
theorem overlap_twoSigners : ¬ ∀ path text es s, Effect.Run Step (initial path text) es s →
    ∀ p q, s.Signs p → s.Signs q → p = q := by
  intro hone
  have hsome : ((initial none "").steps overlap).isSome = true := by decide
  obtain ⟨s, hs⟩ := Option.isSome_iff_exists.mp hsome
  have h₂ : ((initial none "").steps overlap).map (fun u => u.phase 2) = some (.acquired 0) := by
    decide
  have h₃ : ((initial none "").steps overlap).map (fun u => u.phase 3) = some (.acquired 1) := by
    decide
  rw [hs] at h₂ h₃
  have heq := hone none "" overlap s (run_of_steps hs) 2 3 ⟨0, Option.some.inj h₂⟩
    ⟨1, Option.some.inj h₃⟩
  cases heq

/-! ## One after the other -/

theorem orderly_iff {e : Nat × LockAction} : Orderly s e ↔
    (e.2 = .flock → match s.phase e.1 with
      | .opened i => s.file.holder i = none → s.file.path = some i
      | _ => True) ∧
    (e.2 = .unlink → match s.file.path with
      | some i => ∀ q ∈ s.file.holder i, q = e.1
      | none => True) := by
  refine and_congr (imp_congr_right fun _ => ?_) (imp_congr_right fun _ => ?_)
  · cases s.phase e.1 <;> simp
  · cases s.file.path with
    | none => simp
    | some j => exact ⟨fun h q hq => h j q rfl hq, fun h i q hi hq => by cases hi; exact h q hq⟩

instance {e : Nat × LockAction} : Decidable (Orderly s e) :=
  have : Decidable (match s.phase e.1 with
      | .opened i => s.file.holder i = none → s.file.path = some i
      | _ => True) := by
    split <;> infer_instance
  have : Decidable (match s.file.path with
      | some i => ∀ q ∈ s.file.holder i, q = e.1
      | none => True) := by
    split <;> infer_instance
  decidable_of_iff _ orderly_iff.symm

/-- The second process is refused; the first releases, and a third one acquires. -/
def handover : List (Nat × LockAction) :=
  [(1, .openFile), (1, .flock), (1, .ftruncate), (1, .writePid), (2, .openFile), (2, .flock),
    (2, .readPid), (2, .close), (1, .unlock), (1, .close), (1, .unlink), (3, .openFile),
    (3, .flock), (3, .ftruncate), (3, .writePid)]

/-- Then the third is the only one that signs. -/
theorem oneSigner_handover : ∃ s, Effect.Run Step (initial none "") handover s ∧ s.Signs 3 ∧
    s.phase 2 = .ended ∧ ∀ p q, s.Signs p → s.Signs q → p = q := by
  let orderlyStep (s : SignerLock) (e : Nat × LockAction) : Option SignerLock :=
    if Orderly s e then s.step e.1 e.2 else none
  have hend : (handover.foldlM orderlyStep (initial none "")).map
      (fun u => (u.phase 2, u.phase 3)) = some (.ended, .acquired 1) := by decide
  obtain ⟨s, hs, hphases⟩ := Option.map_eq_some_iff.mp hend
  obtain ⟨h₂, h₃⟩ := Prod.mk.inj hphases
  have hboth : Effect.Run (fun s e s' => Step s e s' ∧ Orderly s e) (initial none "") handover s :=
    (Effect.Run.of_foldlM hs).mono fun u e v h => by
      by_cases ho : Orderly u e
      · exact ⟨(if_pos ho).symm.trans h, ho⟩
      · rw [show orderlyStep u e = none from if_neg ho] at h
        cases h
  have hdet : ∀ s e s₁ s₂, Step s e s₁ → Step s e s₂ → s₁ = s₂ :=
    fun _ _ _ _ h₁ h₂ => Option.some.inj (h₁.symm.trans h₂)
  have hrun := hboth.mono fun _ _ _ h => h.1
  exact ⟨s, hrun, ⟨1, h₃⟩, h₂, oneSigner hrun (Effect.Run.eachStep hdet hboth)⟩

end SignerLock

end Clif
