import Clif.Observe.EngineSteps

/-!
# Observe.Accounted — which rounds the observer accounts for

A round is finalized once in a whole run if it is in flight when its windows close, and never again
in flight after that (`accounted_iff`).
-/

namespace Clif.Observe

/-- A block was processed after the windows of the round. -/
def ObserverState.closed (st : ObserverState) (r : Int) : Bool :=
  match st.lastTs with
  | some last => st.factory.due r last
  | none => false

/-- Every round of the observed time that is closed is among the finalized ones, once. -/
def Accounted (s : EngineState) (done : List RoundState) : Prop :=
  ∀ r, s.obs.observeStartTs ≤ s.obs.factory.startS r → s.obs.closed r = true →
    (done.map RoundState.roundId).count r = 1

/-- Of the rounds that are due at the end of the block, those are in flight that the block closes,
and no others. -/
def Covers [Messaging] (cfg : EngineConfig) (s : EngineState) (h : Happening) : Prop :=
  ∀ blk fdcLogs fuLogs, h.event = .block blk fdcLogs fuLogs →
    ∀ r, s.obs.observeStartTs ≤ s.obs.factory.startS r →
      s.obs.factory.due r blk.timestamp = true →
      (r ∈ (s.gathered cfg blk fdcLogs fuLogs).rounds.keys ↔ s.obs.closed r = false)

section

variable {s s' : EngineState}

theorem due_of_closed {r ts : Int} (hr : s.obs.closed r = true)
    (hts : ∀ last, s.obs.lastTs = some last → last ≤ ts) : s.obs.factory.due r ts = true := by
  unfold ObserverState.closed at hr
  cases hlast : s.obs.lastTs with
  | none => simp [hlast] at hr
  | some last =>
    simp only [hlast, VotingFactory.due, decide_eq_true_eq] at hr ⊢
    exact lt_of_lt_of_le hr (hts last hlast)

theorem closed_of_kept (hlast : s'.obs.lastTs = s.obs.lastTs)
    (hsetup : s'.obs.toObserverSetup = s.obs.toObserverSetup) (r : Int) :
    s'.obs.closed r = s.obs.closed r := by
  have hfactory : s'.obs.factory = s.obs.factory := congrArg ObserverSetup.factory hsetup
  unfold ObserverState.closed
  rw [hlast, hfactory]

end

section

variable [FtsoRules] [Messaging] {cfg : EngineConfig} {s s' s₀ : EngineState} {h : Happening}
  {hs : List Happening}

theorem block_closed {blk : Block} {fdcLogs fuLogs : Option (List Nat)} {r : Int} :
    (s.block cfg blk fdcLogs fuLogs).1.obs.closed r = s.obs.factory.due r blk.timestamp := by
  have hfactory := congrArg ObserverSetup.factory
    (@EngineState.block_setup cfg s _ _ blk fdcLogs fuLogs)
  unfold ObserverState.closed
  rw [EngineState.block_lastTs, hfactory]

omit [FtsoRules] [Messaging] in
theorem pause_closed {a : PauseAnswers} {r : Int} :
    (s.pause cfg a).obs.closed r = s.obs.closed r := by
  have hkept := @EngineState.pause_kept cfg s a
  exact closed_of_kept (hkept.lastTs.trans EngineState.flushTrailing_lastTs)
    (hkept.setup.trans EngineState.flushTrailing_setup) r

/-- A round that is open after a step was open before it. -/
theorem open_of_step (hstep : TimedStep cfg s h s') {r : Int} (hopen : s'.obs.closed r = false) :
    s.obs.closed r = false := by
  rcases hstep.cases with ⟨head, -, rfl, -⟩ |
    ⟨blk, fdcLogs, fuLogs, -, htime, rfl, -⟩ | ⟨a, -, rfl, -⟩
  · rwa [poll_obs] at hopen
  · rw [block_closed] at hopen
    by_contra hc
    have hdue := due_of_closed (by simpa using hc) htime
    rw [hopen] at hdue
    cases hdue
  · rwa [pause_closed] at hopen

/-- How often a step finalizes the round: once if a block finds it in flight and due. -/
theorem count_step (hstep : TimedStep cfg s h s') {r : Int}
    (hr : s.obs.observeStartTs ≤ s.obs.factory.startS r) :
    (∃ blk fdcLogs fuLogs, h.event = .block blk fdcLogs fuLogs ∧
      s'.obs.closed r = s.obs.factory.due r blk.timestamp ∧
      ((finalizedIn h.notices).map RoundState.roundId).count r =
        if r ∈ (s.gathered cfg blk fdcLogs fuLogs).rounds.keys ∧
          s.obs.factory.due r blk.timestamp = true then 1 else 0) ∨
    ((∀ blk fdcLogs fuLogs, h.event ≠ .block blk fdcLogs fuLogs) ∧
      s'.obs.closed r = s.obs.closed r ∧ finalizedIn h.notices = []) := by
  rcases hstep.cases with ⟨head, hevent, rfl, hn⟩ |
    ⟨blk, fdcLogs, fuLogs, hevent, -, rfl, hn⟩ | ⟨a, hevent, rfl, hn⟩
  · have hno : ∀ blk fdcLogs fuLogs, h.event ≠ .block blk fdcLogs fuLogs := by simp [hevent]
    have hnone : finalizedIn h.notices = [] := by rw [hn]; rfl
    refine .inr ⟨hno, ?_, hnone⟩
    rw [poll_obs]
  · have hsetup := @EngineState.gathered_setup cfg s _ blk fdcLogs fuLogs
    refine .inl ⟨blk, fdcLogs, fuLogs, hevent, block_closed, ?_⟩
    rw [hn, EngineState.block_finalized, ObserverState.sweep_swept.count,
      congrArg ObserverSetup.factory hsetup, congrArg ObserverSetup.observeStartTs hsetup]
    simp only [hr, and_true]
  · have hno : ∀ blk fdcLogs fuLogs, h.event ≠ .block blk fdcLogs fuLogs := by simp [hevent]
    have hnone : finalizedIn h.notices = [] := by rw [hn]; rfl
    exact .inr ⟨hno, pause_closed, hnone⟩

omit [FtsoRules] [Messaging] in
theorem count_concat {r : Int} :
    ((finalizedIn (noticesOf (hs ++ [h]))).map RoundState.roundId).count r =
      ((finalizedIn (noticesOf hs)).map RoundState.roundId).count r +
        ((finalizedIn h.notices).map RoundState.roundId).count r := by
  rw [noticesOf_concat, finalizedIn_append, List.map_append, List.count_append]

/-- No round is finalized before it is closed. -/
theorem count_zero_of_open (hrun : Effect.Run (TimedStep cfg) s₀ hs s) {r : Int}
    (hr : s.obs.observeStartTs ≤ s.obs.factory.startS r) (hopen : s.obs.closed r = false) :
    ((finalizedIn (noticesOf hs)).map RoundState.roundId).count r = 0 := by
  induction hrun with
  | nil => rfl
  | @snoc hs u h v hrun hstep ih =>
    have hsetup := hstep.setup
    have hr' : u.obs.observeStartTs ≤ u.obs.factory.startS r := by
      rw [← congrArg ObserverSetup.observeStartTs hsetup, ← congrArg ObserverSetup.factory hsetup]
      exact hr
    rw [count_concat, ih hr' (open_of_step hstep hopen)]
    rcases count_step hstep hr' with ⟨blk, fdcLogs, fuLogs, -, hclosed, hcount⟩ | ⟨-, -, hnone⟩
    · rw [hclosed] at hopen
      rw [hcount, hopen]
      simp
    · rw [hnone]
      rfl

/-- One step keeps the account exactly if it covers the rounds that it closes. -/
theorem accounted_step (hrun : Effect.Run (TimedStep cfg) s₀ hs s) (hstep : TimedStep cfg s h s')
    (hacc : Accounted s (finalizedIn (noticesOf hs))) :
    Accounted s' (finalizedIn (noticesOf (hs ++ [h]))) ↔ Covers cfg s h := by
  have hsetup := hstep.setup
  have hfrom : ∀ r, s'.obs.observeStartTs ≤ s'.obs.factory.startS r ↔
      s.obs.observeStartTs ≤ s.obs.factory.startS r := by
    intro r
    rw [congrArg ObserverSetup.observeStartTs hsetup, congrArg ObserverSetup.factory hsetup]
  constructor
  · intro hacc' blk fdcLogs fuLogs hevent r hr hdue
    rcases count_step hstep hr with ⟨blk', fdcLogs', fuLogs', hevent', hclosed, hcount⟩ |
      ⟨hno, -⟩
    · rw [hevent] at hevent'
      cases hevent'
      have hone := hacc' r ((hfrom r).mpr hr) (hclosed.trans hdue)
      rw [count_concat, hcount] at hone
      cases hc : s.obs.closed r with
      | true =>
        have hbefore := hacc r hr hc
        refine iff_of_false (fun hmem => ?_) (by simp)
        rw [hbefore, if_pos ⟨hmem, hdue⟩] at hone
        omega
      | false =>
        have hbefore := count_zero_of_open hrun hr hc
        refine iff_of_true ?_ rfl
        by_contra hmem
        rw [hbefore, if_neg fun h => hmem h.1] at hone
        omega
    · exact absurd hevent (hno blk fdcLogs fuLogs)
  · intro hcov r hr hclosed'
    have hr' := (hfrom r).mp hr
    rw [count_concat]
    rcases count_step hstep hr' with ⟨blk, fdcLogs, fuLogs, hevent, hclosed, hcount⟩ |
      ⟨-, hclosed, hnone⟩
    · have hdue := hclosed.symm.trans hclosed'
      have hmem := hcov blk fdcLogs fuLogs hevent r hr' hdue
      rw [hcount]
      cases hc : s.obs.closed r with
      | true =>
        have hout : r ∉ (s.gathered cfg blk fdcLogs fuLogs).rounds.keys := by
          rw [hmem, hc]
          simp
        rw [hacc r hr' hc, if_neg fun h => hout h.1]
      | false =>
        rw [count_zero_of_open hrun hr' hc, if_pos ⟨hmem.mpr hc, hdue⟩]
    · rw [hclosed] at hclosed'
      rw [hacc r hr' hclosed', hnone]
      rfl

/-- All along a run every round of the observed time that is closed was finalized once, if and only
if at the end of each block just those rounds of it are in flight and due that the block closes. -/
theorem accounted_iff {setup : ObserverSetup} {first : Nat} {file : List RoundRecord}
    {tallies : List IqrTally} {a : PauseAnswers}
    (hrun : Effect.Run (TimedStep cfg) (EngineState.start cfg setup first file tallies a) hs s) :
    Effect.Throughout (TimedStep cfg) (EngineState.start cfg setup first file tallies a)
        (fun hs s => Accounted s (finalizedIn (noticesOf hs))) hs ↔
      Effect.EachStep (TimedStep cfg) (EngineState.start cfg setup first file tallies a)
        (Covers cfg) hs := by
  have hstart := @EngineState.start_started cfg setup first file tallies a
  refine Effect.Run.throughout_iff TimedStep.deterministic ?_ ?_ hrun
  · intro r _ hclosed
    simp [ObserverState.closed, hstart.lastTs] at hclosed
  · intro hs u h v hrun hstep hacc
    exact accounted_step hrun hstep hacc

/-! ## A round in which nothing happens -/

/-- Rounds of 90 s, with 45 s to reveal. -/
def sampleSetup : ObserverSetup where
  ourSubmit := "0x00000000000000000000000000000000000000a1"
  ourSig := "0x00000000000000000000000000000000000000a2"
  windowRounds := 40
  observeStartTs := 0
  factory := VotingFactory.grid 0 90 45

def sampleConfig : EngineConfig where
  submission := "0x00000000000000000000000000000000000000b1"
  fdcHub := true
  fastUpdater := true
  mincondHistory := true
  registration := false
  validator := false
  iqrOn := false
  registrationRefreshSec := 3600
  liveLagBlocks := 8
  confirmations := 0

/-- No node answers. -/
def noAnswers : PauseAnswers where
  now := 0
  fdcLogs := none
  fuLogs := none
  registration := none
  iqr := none
  uptime := none
  budget := none
  report := false

def sampleStart : EngineState := EngineState.start sampleConfig sampleSetup 1 [] [] noAnswers

/-- Two blocks without a transaction, 300 s apart. -/
def silentEvents : List EngineEvent :=
  [.poll (some 2), .block ⟨0, []⟩ none none, .block ⟨300, []⟩ none none]

end

/-- Rules and parsers for a stream without messages. -/
@[reducible] def noRules : FtsoRules := ⟨fun _ _ _ _ => "", fun _ => ⟨0, 0, 0⟩⟩

@[reducible] def noMessages : Messaging :=
  ⟨fun _ => none, fun _ => none, fun _ => none, fun _ => none, fun _ => none⟩

theorem silent_allowed :
    @allowedAll noRules noMessages sampleConfig sampleStart silentEvents = true := by
  decide +kernel

/-- The round 0 is closed, and was not finalized. -/
theorem silent_unaccounted :
    let _ := noRules
    let _ := noMessages
    ¬ Accounted (after sampleConfig sampleStart silentEvents)
      (finalizedIn (noticesOf (happenings sampleConfig sampleStart silentEvents))) := by
  intro _ _ hacc
  have hclosed : (after sampleConfig sampleStart silentEvents).obs.closed 0 = true := by
    decide +kernel
  have hnone : (finalizedIn (noticesOf (happenings sampleConfig sampleStart silentEvents))).map
      RoundState.roundId = [] := by decide +kernel
  have hone := hacc 0 (by decide +kernel) hclosed
  rw [hnone] at hone
  simp at hone

/-- A run over two blocks that leaves a closed round out. -/
theorem silentRound_skipped :
    let _ := noRules
    let _ := noMessages
    sampleSetup.factory.Lawful ∧ ∃ hs s, Effect.Run (TimedStep sampleConfig) sampleStart hs s ∧
      ¬ Accounted s (finalizedIn (noticesOf hs)) :=
  let _ := noRules
  let _ := noMessages
  ⟨VotingFactory.grid_lawful (by decide) (by decide), _, _, run_of_allowed silent_allowed,
    silent_unaccounted⟩

/-- So the run has a block that does not cover what it closes. -/
theorem silentRound_uncovered :
    let _ := noRules
    let _ := noMessages
    ¬ Effect.EachStep (TimedStep sampleConfig) sampleStart (Covers sampleConfig)
      (happenings sampleConfig sampleStart silentEvents) :=
  let _ := noRules
  let _ := noMessages
  fun hcov =>
    have hrun := run_of_allowed silent_allowed
    silent_unaccounted ((accounted_iff hrun).mpr hcov _ _ List.prefix_rfl hrun)

end Clif.Observe
