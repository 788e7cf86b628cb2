import Mathlib.Tactic.Linarith
import Clif.EpochRun

/-!
# EpochSleep — how long the daemon sleeps, and when its status file looks dead

`next_sleep_seconds` is clamped by constants in seconds, `status_exit_code` measures the age of the
report in poll intervals.  `freshWhileAsleep_iff` says when the first keeps within the second.
-/

namespace Clif

/-! ## The sleep -/

/-- The least of a list with at least one entry. -/
def leastOf (x : ℚ) (xs : List ℚ) : ℚ := xs.foldl min x

/-- When an active epoch wants the next cycle. -/
def EpochObs.wake (now : ℚ) (pollInterval : Int) (o : EpochObs) : ℚ :=
  match o.waitUntil with
  | some t => t
  | none => now + pollInterval

/-- `wake` of `next_sleep_seconds`. -/
def wakeTime (observations : List EpochObs) (currentEpoch : Option Int) (epochEndTs : Int → Int)
    (now : ℚ) (pollInterval initialDelay : Int) : ℚ :=
  match observations.filter fun o => !o.done with
  | [] =>
    match currentEpoch with
    | some e => epochEndTs e + initialDelay
    | none => now + pollInterval
  | o :: active => leastOf (o.wake now pollInterval) (active.map (EpochObs.wake now pollInterval))

/-- `next_sleep_seconds`. -/
def nextSleepSeconds (observations : List EpochObs) (currentEpoch : Option Int)
    (epochEndTs : Int → Int) (now : ℚ) (pollInterval initialDelay : Int) : ℚ :=
  let wake := wakeTime observations currentEpoch epochEndTs now pollInterval initialDelay
  max 60 (min (wake - now) (max pollInterval 3600 : Int))

/-! ## The status -/

/-- `_DEAD_INTERVALS`. -/
def deadIntervals : Int := 3

/-- What `clif status` tells, with the exit code and the values that its line shows. -/
inductive StatusVerdict where
  | noState
  | disabled
  | stale (age : ℚ) (interval : Int)
  | degraded (reasons : List String)
  | healthy
deriving DecidableEq

/-- `EXIT_NO_STATE`, `EXIT_HEALTHY`, `EXIT_DEGRADED`. -/
def StatusVerdict.exitCode : StatusVerdict → Int
  | .noState => 3
  | .disabled => 0
  | .stale .. => 2
  | .degraded _ => 2
  | .healthy => 0

/-- `now - float(raw_ts)`; the time 0 counts as absent, and the text that stands in for it makes
the age infinite. -/
def Report.age (report : Report) (now : ℚ) : Option ℚ :=
  if report.updatedAtTs = 0 then none else some (now - report.updatedAtTs)

/-- `status_exit_code`. -/
def statusExitCode (report : Option Report) (now : ℚ) : Except Exc StatusVerdict :=
  match report with
  | none => .ok .noState
  | some report =>
    if report.disabled then .ok .disabled
    else
      match report.age now with
      | none => .error (.other "OverflowError" "cannot convert float infinity to integer")
      | some age =>
        if deadIntervals * report.pollIntervalSec < age then
          .ok (.stale age report.pollIntervalSec)
        else if report.degraded then .ok (.degraded report.reasons)
        else .ok .healthy

/-! ## A sleeping daemon -/

/-- What a cycle knows when it computes its sleep and writes its report. -/
structure SleepingCycle where
  state : AutoState
  network : Network
  pollInterval : Int
  staleAfterSec : Int
  lastDoneEpoch : Option Int
  currentEpoch : Option Int
  observations : List EpochObs
  epochEndTs : Int → Int
  initialDelay : Int
  /-- The clock when the sleep is computed, and when the report is built. -/
  now : ℚ
  reportedAt : ℚ

def SleepingCycle.sleep (c : SleepingCycle) : ℚ :=
  nextSleepSeconds c.observations c.currentEpoch c.epochEndTs c.now c.pollInterval c.initialDelay

def SleepingCycle.report (c : SleepingCycle) : Report :=
  buildEpochReport c.state c.network c.pollInterval c.staleAfterSec c.lastDoneEpoch c.currentEpoch
    c.observations c.reportedAt

/-- The sleep is within its bounds, and no reader of the report takes the sleeping daemon for a
dead one. -/
structure FreshWhileAsleep (c : SleepingCycle) : Prop where
  floor : 60 ≤ c.sleep
  ceiling : c.sleep ≤ deadIntervals * c.pollInterval
  alive : ∀ t, c.reportedAt ≤ t → t ≤ c.reportedAt + c.sleep →
    ∀ age interval, statusExitCode (some c.report) t ≠ .ok (.stale age interval)

/-- What the cycle waits for comes within three poll intervals: an active epoch is polled or has
its time by then; or, with none active, the window of the current epoch opens by then. -/
def SleepingCycle.WakesInTime (c : SleepingCycle) : Prop :=
  if ∀ o ∈ c.observations, o.done = true then
    ∀ e, c.currentEpoch = some e →
      ((c.epochEndTs e + c.initialDelay : Int) : ℚ) - c.now ≤ deadIntervals * c.pollInterval
  else
    ∃ o ∈ c.observations, o.done = false ∧
      ∀ t, o.waitUntil = some t → t - c.now ≤ deadIntervals * c.pollInterval

theorem leastOf_le {x y : ℚ} {xs : List ℚ} : leastOf x xs ≤ y ↔ x ≤ y ∨ ∃ z ∈ xs, z ≤ y := by
  unfold leastOf
  induction xs generalizing x with
  | nil => simp
  | cons z xs ih =>
    rw [List.foldl_cons, ih, min_le_iff]
    simp [or_assoc]

theorem wake_le {c : SleepingCycle} (hpoll : 1 ≤ c.pollInterval) {o : EpochObs} :
    o.wake c.now c.pollInterval - c.now ≤ deadIntervals * c.pollInterval ↔
      ∀ t, o.waitUntil = some t → t - c.now ≤ deadIntervals * c.pollInterval := by
  have hpoll' : (1 : ℚ) ≤ c.pollInterval := by exact_mod_cast hpoll
  unfold EpochObs.wake
  cases o.waitUntil with
  | some t => simp
  | none =>
    have hthree : (deadIntervals : ℚ) = 3 := by norm_num [deadIntervals]
    simp only [hthree, reduceCtorEq, false_implies, implies_true, iff_true]
    linarith

theorem wakeTime_le {c : SleepingCycle} (hpoll : 1 ≤ c.pollInterval) :
    wakeTime c.observations c.currentEpoch c.epochEndTs c.now c.pollInterval c.initialDelay - c.now
      ≤ deadIntervals * c.pollInterval ↔ c.WakesInTime := by
  have hpoll' : (1 : ℚ) ≤ c.pollInterval := by exact_mod_cast hpoll
  have hthree : (deadIntervals : ℚ) = 3 := by norm_num [deadIntervals]
  unfold wakeTime SleepingCycle.WakesInTime
  cases hactive : c.observations.filter fun o => !o.done with
  | nil =>
    have hall : ∀ o ∈ c.observations, o.done = true := by
      simpa using List.filter_eq_nil_iff.mp hactive
    rw [if_pos hall]
    cases c.currentEpoch with
    | some e => simp
    | none =>
      simp only [hthree, reduceCtorEq, false_implies, implies_true, iff_true]
      linarith
  | cons o active =>
    have hmem : ∀ x, x ∈ o :: active ↔ x ∈ c.observations ∧ x.done = false := by
      intro x
      rw [← hactive, List.mem_filter]
      simp
    have hsome : ¬ ∀ x ∈ c.observations, x.done = true := by
      intro hall
      obtain ⟨hin, hdone⟩ := (hmem o).mp List.mem_cons_self
      rw [hall o hin] at hdone
      cases hdone
    rw [if_neg hsome]
    dsimp only
    rw [sub_le_iff_le_add, leastOf_le, ← sub_le_iff_le_add, wake_le hpoll]
    constructor
    · rintro (hle | ⟨z, hz, hle⟩)
      · obtain ⟨hin, hdone⟩ := (hmem o).mp List.mem_cons_self
        exact ⟨o, hin, hdone, hle⟩
      · obtain ⟨x, hx, rfl⟩ := List.mem_map.mp hz
        obtain ⟨hin, hdone⟩ := (hmem x).mp (List.mem_cons_of_mem _ hx)
        exact ⟨x, hin, hdone, (wake_le hpoll).mp (by linarith)⟩
    · rintro ⟨x, hin, hdone, hle⟩
      rcases List.mem_cons.mp ((hmem x).mpr ⟨hin, hdone⟩) with rfl | hx
      · exact Or.inl hle
      · refine Or.inr ⟨_, List.mem_map_of_mem hx, ?_⟩
        linarith [(wake_le hpoll).mpr hle]

/-- The ceiling of the sleep is three poll intervals exactly from 20 seconds on, and up to 20
minutes only if the cycle wakes in time. -/
theorem sleep_le {c : SleepingCycle} (hpoll : 1 ≤ c.pollInterval) :
    c.sleep ≤ deadIntervals * c.pollInterval ↔
      20 ≤ c.pollInterval ∧ (1200 ≤ c.pollInterval ∨ c.WakesInTime) := by
  have hfloor : (60 : ℚ) ≤ deadIntervals * c.pollInterval ↔ 20 ≤ c.pollInterval := by
    have hcast : (60 : ℚ) ≤ deadIntervals * c.pollInterval ↔
        60 ≤ deadIntervals * c.pollInterval := by
      exact_mod_cast Iff.rfl
    rw [hcast, deadIntervals]
    omega
  have hceiling : (((max c.pollInterval 3600 : Int)) : ℚ) ≤ deadIntervals * c.pollInterval ↔
      1200 ≤ c.pollInterval := by
    have hcast : (((max c.pollInterval 3600 : Int)) : ℚ) ≤ deadIntervals * c.pollInterval ↔
        max c.pollInterval 3600 ≤ deadIntervals * c.pollInterval := by
      exact_mod_cast Iff.rfl
    rw [hcast, deadIntervals]
    omega
  unfold SleepingCycle.sleep nextSleepSeconds
  dsimp only
  rw [max_le_iff, min_le_iff, hfloor, hceiling, wakeTime_le hpoll, or_comm]

/-- A report that is young enough is not stale. -/
theorem not_stale {report : Report} {t age : ℚ} {interval : Int}
    (h : t - report.updatedAtTs ≤ deadIntervals * report.pollIntervalSec) :
    statusExitCode (some report) t ≠ .ok (.stale age interval) := by
  unfold statusExitCode Report.age
  dsimp only
  intro hstale
  split at hstale
  · cases hstale
  · by_cases hzero : report.updatedAtTs = 0
    · rw [if_pos hzero] at hstale
      cases hstale
    · rw [if_neg hzero] at hstale
      dsimp only at hstale
      rw [if_neg (not_lt.mpr h)] at hstale
      split at hstale
      · cases hstale
      · cases hstale

/-- The sleep keeps within the bounds, and the daemon looks alive, exactly if the poll interval is
at least 20 seconds and, below 20 minutes, the cycle wakes in time. -/
theorem freshWhileAsleep_iff (c : SleepingCycle) (hpoll : 1 ≤ c.pollInterval) :
    FreshWhileAsleep c ↔ 20 ≤ c.pollInterval ∧ (1200 ≤ c.pollInterval ∨ c.WakesInTime) := by
  rw [← sleep_le hpoll]
  constructor
  · exact fun h => h.ceiling
  · intro hle
    refine ⟨le_max_left _ _, hle, fun t _ ht age interval => not_stale ?_⟩
    show t - c.reportedAt ≤ deadIntervals * c.pollInterval
    linarith

/-! ### Polling every 15 minutes -/

/-- All epochs are done, and the current one ends in two days. -/
def idleCycle (pollInterval : Int) : SleepingCycle :=
  { state := {}, network := .flare, pollInterval := pollInterval, staleAfterSec := 86400,
    lastDoneEpoch := some 423, currentEpoch := some 424, observations := [],
    epochEndTs := fun _ => 1754172800, initialDelay := 3600, now := 1754000000,
    reportedAt := 1754000000 }

/-- The daemon sleeps for an hour, and after 45 minutes its report is stale. -/
theorem idleCycle_stale : (idleCycle 900).sleep = 3600 ∧
    statusExitCode (some (idleCycle 900).report) (1754000000 + 3000) = .ok (.stale 3000 900) ∧
      ¬ FreshWhileAsleep (idleCycle 900) := by
  have hsleep : (idleCycle 900).sleep = 3600 := by decide +kernel
  have hstale : statusExitCode (some (idleCycle 900).report) (1754000000 + 3000) =
      .ok (.stale 3000 900) := by decide +kernel
  refine ⟨hsleep, hstale, fun h => ?_⟩
  refine h.alive (1754000000 + 3000) ?_ ?_ _ _ hstale
  · show (1754000000 : ℚ) ≤ 1754000000 + 3000
    norm_num
  · rw [hsleep]
    show (1754000000 : ℚ) + 3000 ≤ 1754000000 + 3600
    norm_num

/-- With the default of half an hour it does not. -/
theorem freshWhileAsleep_idle : FreshWhileAsleep (idleCycle 1800) :=
  (freshWhileAsleep_iff (idleCycle 1800) (by decide)).mpr ⟨by decide, Or.inl (by decide)⟩

end Clif
