import Clif.Observe.Accounted

/-!
# Observe.RegEpoch — the tracked reward epoch

Two writers move `reg["epoch"]`: the rounds that reach the ledger, and the hourly probe of the chain
(`regEpoch_forward`).
-/

namespace Clif.Observe

/-- The tracked epoch is there, and not before `e`. -/
def Reached (tracked : Option Int) (e : Int) : Prop := ∃ x, tracked = some x ∧ e ≤ x

def NotBefore (tracked tracked' : Option Int) : Prop :=
  ∀ x, tracked = some x → Reached tracked' x

theorem NotBefore.refl (tracked : Option Int) : NotBefore tracked tracked :=
  fun x hx => ⟨x, hx, le_rfl⟩

theorem Reached.later {tracked tracked' : Option Int} {e : Int} (h : Reached tracked e)
    (h' : NotBefore tracked tracked') : Reached tracked' e := by
  obtain ⟨x, hx, hex⟩ := h
  obtain ⟨y, hy, hxy⟩ := h' x hx
  exact ⟨y, hy, hex.trans hxy⟩

theorem NotBefore.trans {o o' o'' : Option Int} (h : NotBefore o o') (h' : NotBefore o' o'') :
    NotBefore o o'' :=
  fun x hx => (h x hx).later h'

/-- What the chain answered to the probes of a run. -/
def probesIn (hs : List Happening) : List (Int × Bool) :=
  hs.flatMap fun h =>
    match h.event with
    | .pause a => a.registration.toList
    | _ => []

namespace EngineState

variable {cfg : EngineConfig} {s : EngineState}

/-- Whether the registration is read. -/
def probes (cfg : EngineConfig) (s : EngineState) (now : ℚ) : Prop :=
  cfg.registration = true ∧
    (s.reg.epoch.isSome → cfg.registrationRefreshSec ≤ now - s.reg.checked)

/-- The probe writes its answer, or nothing. -/
theorem refreshRegistration_cases {a : PauseAnswers} :
    s.refreshRegistration cfg a = s ∨
    ∃ ep registered, s.probes cfg a.now ∧ a.registration = some (ep, registered) ∧
      s.refreshRegistration cfg a = { s with reg := ⟨some registered, some ep, a.now⟩ } := by
  unfold refreshRegistration
  by_cases hcfg : cfg.registration = true
  · by_cases hfresh : s.reg.epoch.isSome ∧ a.now - s.reg.checked < cfg.registrationRefreshSec
    · simp [hcfg, hfresh]
    · have hprobes : s.probes cfg a.now :=
        ⟨hcfg, fun hsome => not_lt.mp fun hlt => hfresh ⟨hsome, hlt⟩⟩
      cases hreg : a.registration with
      | none => simp [hcfg]
      | some answer =>
        obtain ⟨ep, registered⟩ := answer
        refine .inr ⟨ep, registered, hprobes, rfl, ?_⟩
        simp only [hcfg, Bool.not_true, Bool.false_eq_true, if_false, if_neg hfresh]
  · simp [hcfg]

theorem refresh_reg {a : PauseAnswers} :
    (s.refresh cfg a).reg = (s.refreshRegistration cfg a).reg := by
  obtain ⟨_, _, _, hiqr⟩ := @refreshIqr_frame cfg (s.refreshRegistration cfg a) a
  obtain ⟨_, hup⟩ := @refreshUptime_frame cfg ((s.refreshRegistration cfg a).refreshIqr cfg a) a
  obtain ⟨_, hbud⟩ := @refreshBudget_frame cfg
    (((s.refreshRegistration cfg a).refreshIqr cfg a).refreshUptime cfg a) a
  show ((((s.refreshRegistration cfg a).refreshIqr cfg a).refreshUptime cfg a).refreshBudget
    cfg a).reg = _
  rw [hbud, hup, hiqr]

theorem refresh_mincondEpoch {a : PauseAnswers} :
    (s.refresh cfg a).mincondEpoch = s.mincondEpoch := by
  obtain ⟨_, _, _, _, _, _, h⟩ := @refresh_frame cfg s a
  rw [h]

/-! ## The two writers -/

/-- A pause keeps the registration, or writes what a probe answered. -/
theorem pause_reg {a : PauseAnswers} :
    (s.pause cfg a).mincondEpoch = s.mincondEpoch ∧ ((s.pause cfg a).reg = s.reg ∨
      ∃ ep registered, s.probes cfg a.now ∧ a.registration = some (ep, registered) ∧
        (s.pause cfg a).reg = ⟨some registered, some ep, a.now⟩) := by
  have hsettled : (s.settled cfg a).reg = s.reg ∧
      (s.settled cfg a).mincondEpoch = s.mincondEpoch := by
    unfold settled flushTrailing
    split <;> exact ⟨rfl, rfl⟩
  have hprune : ∀ u : EngineState, (u.prune cfg a.report).reg = u.reg ∧
      (u.prune cfg a.report).mincondEpoch = u.mincondEpoch := by
    intro u
    unfold prune
    split
    · split <;> exact ⟨rfl, rfl⟩
    · exact ⟨rfl, rfl⟩
  unfold pause
  rw [(hprune _).1, (hprune _).2, refresh_reg, refresh_mincondEpoch, hsettled.2]
  refine ⟨rfl, ?_⟩
  rcases @refreshRegistration_cases cfg (s.settled cfg a) a with h |
    ⟨ep, registered, hprobes, hanswer, h⟩
  · rw [h]
    exact .inl hsettled.1
  · rw [h]
    unfold probes at hprobes
    rw [hsettled.1] at hprobes
    exact .inr ⟨ep, registered, hprobes, hanswer, rfl⟩

/-- The ledger's epoch has been reached. -/
def Tracked (s : EngineState) : Prop := ∀ o, s.mincondEpoch = some o → Reached s.reg.epoch o

/-- What the rounds of a block do to the tracked epoch. -/
structure Moved (s s' : EngineState) : Prop where
  forward : NotBefore s.reg.epoch s'.reg.epoch
  tracked : s'.Tracked
  registered : s'.reg.registered = none ∨
    s'.reg.registered = s.reg.registered ∧ s'.reg.epoch = s.reg.epoch

theorem Moved.refl (h : s.Tracked) : Moved s s := ⟨.refl _, h, .inr ⟨rfl, rfl⟩⟩

theorem Moved.trans {s' s'' : EngineState} (h : Moved s s') (h' : Moved s' s'') :
    Moved s s'' := by
  refine ⟨h.forward.trans h'.forward, h'.tracked, ?_⟩
  rcases h'.registered with hnone | ⟨hreg, hepoch⟩
  · exact .inl hnone
  · rcases h.registered with hnone | ⟨hreg', hepoch'⟩
    · exact .inl (hreg.trans hnone)
    · exact .inr ⟨hreg.trans hreg', hepoch.trans hepoch'⟩

theorem rollover_moved {re : Int} (h : s.Tracked)
    (hfirst : s.mincondEpoch = none → Reached s.reg.epoch re) :
    Moved s (s.rollover re).1 ∧ Reached (s.rollover re).1.reg.epoch re := by
  unfold rollover
  cases hold : s.mincondEpoch with
  | none =>
    refine ⟨⟨.refl _, ?_, .inr ⟨rfl, rfl⟩⟩, hfirst hold⟩
    intro o ho
    cases ho
    exact hfirst hold
  | some old =>
    obtain ⟨x, hx, hxold⟩ := h old hold
    by_cases hlt : old < re
    · simp only [hlt, if_true, expireEpochOverlays, hx, Option.getD_some]
      by_cases hxre : x < re
      · simp only [hxre, if_true]
        have hforward : NotBefore s.reg.epoch (some re) := by
          intro y hy
          rw [hx] at hy
          cases hy
          exact ⟨re, rfl, hxre.le⟩
        refine ⟨⟨hforward, ?_, .inl rfl⟩, ⟨re, rfl, le_rfl⟩⟩
        intro o ho
        cases ho
        exact ⟨re, rfl, le_rfl⟩
      · simp only [hxre, if_false]
        have hre : Reached (some x) re := ⟨x, rfl, not_lt.mp hxre⟩
        refine ⟨⟨?_, ?_, .inr ⟨rfl, hx.symm⟩⟩, hre⟩
        · rw [hx]
          exact .refl _
        · intro o ho
          cases ho
          exact hre
    · simp only [hlt, if_false]
      exact ⟨Moved.refl h, ⟨x, hx, (not_lt.mp hlt).trans hxold⟩⟩

theorem recordRound_moved {rs : RoundState} (h : s.Tracked)
    (hfirst : cfg.mincondHistory = true → s.mincondEpoch = none →
      rs.roundId ∉ s.mincondRecs.keys → Reached s.reg.epoch (epochOf rs.roundId)) :
    Moved s (s.recordRound cfg rs).1 ∧ ∀ rec ∈ recordedIn (s.recordRound cfg rs).2,
      Reached (s.recordRound cfg rs).1.reg.epoch (epochOf rec.rid) := by
  by_cases hknown : cfg.mincondHistory = false ∨ rs.roundId ∈ s.mincondRecs.keys
  · rw [recordRound_known hknown]
    exact ⟨.refl h, fun rec hrec => by cases hrec⟩
  · rw [not_or] at hknown
    have hcfg : cfg.mincondHistory = true := by simpa using hknown.1
    obtain ⟨hmoved, hre⟩ := rollover_moved h fun hnone => hfirst hcfg hnone hknown.2
    rw [recordRound_new hcfg hknown.2]
    refine ⟨⟨hmoved.forward, hmoved.tracked, hmoved.registered⟩, fun rec hrec => ?_⟩
    have hrolled := @rollover_recorded s (epochOf rs.roundId)
    unfold recordedIn at hrec hrolled
    rw [List.cons_append, List.filterMap_cons, List.filterMap_append, hrolled] at hrec
    cases List.mem_singleton.mp hrec
    exact hre

theorem rollover_tracks {re : Int} : (s.rollover re).1.mincondEpoch ≠ none := by
  unfold rollover
  cases hold : s.mincondEpoch with
  | none => simp
  | some old =>
    by_cases hlt : old < re
    · simp [hlt]
    · simp [hlt, hold]

theorem recordRounds_moved {done : List RoundState} (h : s.Tracked)
    (hfirst : cfg.mincondHistory = true → s.mincondEpoch = none →
      ∀ rs ∈ done, rs.roundId ∉ s.mincondRecs.keys → Reached s.reg.epoch (epochOf rs.roundId)) :
    Moved s (s.recordRounds cfg done).1 ∧ ∀ rec ∈ recordedIn (s.recordRounds cfg done).2,
      Reached (s.recordRounds cfg done).1.reg.epoch (epochOf rec.rid) := by
  induction done generalizing s with
  | nil => exact ⟨.refl h, fun rec hrec => by cases hrec⟩
  | cons rs done ih =>
    obtain ⟨hmoved, hrecs⟩ := @recordRound_moved cfg s rs h
      fun hcfg hnone hnew => hfirst hcfg hnone rs List.mem_cons_self hnew
    have hrest : cfg.mincondHistory = true → (s.recordRound cfg rs).1.mincondEpoch = none →
        ∀ rs' ∈ done, rs'.roundId ∉ (s.recordRound cfg rs).1.mincondRecs.keys →
          Reached (s.recordRound cfg rs).1.reg.epoch (epochOf rs'.roundId) := by
      intro hcfg hnone rs' hrs' hnew
      by_cases hknown : cfg.mincondHistory = false ∨ rs.roundId ∈ s.mincondRecs.keys
      · rw [recordRound_known hknown] at hnone hnew ⊢
        exact hfirst hcfg hnone rs' (List.mem_cons_of_mem _ hrs') hnew
      · rw [not_or] at hknown
        rw [recordRound_new hcfg hknown.2] at hnone
        exact absurd hnone rollover_tracks
    obtain ⟨hmoved', hrecs'⟩ := ih hmoved.tracked hrest
    refine ⟨hmoved.trans hmoved', fun rec hrec => ?_⟩
    have hsplit := @recordedIn_append (s.recordRound cfg rs).2
      ((s.recordRound cfg rs).1.recordRounds cfg done).2
    rcases List.mem_append.mp (hsplit ▸ hrec) with hrec | hrec
    · exact (hrecs rec hrec).later hmoved'.forward
    · exact hrecs' rec hrec

end EngineState

/-! ## Runs -/

section

variable [FtsoRules] [Messaging] {cfg : EngineConfig} {s s' : EngineState} {h : Happening}
  {hs : List Happening}

/-- A probe does not answer an epoch before the tracked one, and the rounds that are due when the
ledger has no epoch yet are of the tracked one, or earlier. -/
structure Current (cfg : EngineConfig) (s : EngineState) (h : Happening) : Prop where
  probe : ∀ a ep registered, h.event = .pause a → s.probes cfg a.now →
    a.registration = some (ep, registered) → NotBefore s.reg.epoch (some ep)
  first : ∀ blk fdcLogs fuLogs, h.event = .block blk fdcLogs fuLogs →
    cfg.mincondHistory = true → s.mincondEpoch = none →
    ∀ r ∈ (s.gathered cfg blk fdcLogs fuLogs).rounds.keys,
      s.obs.factory.due r blk.timestamp = true → s.obs.observeStartTs ≤ s.obs.factory.startS r →
      r ∉ s.mincondRecs.keys → Reached s.reg.epoch (epochOf r)

/-- What the run has shown is behind the tracked epoch. -/
structure Tracks (answers : List (Int × Bool)) (records : List RoundRecord) (s : EngineState) :
    Prop where
  tracked : s.Tracked
  recorded : ∀ rec ∈ records, Reached s.reg.epoch (epochOf rec.rid)
  answered : ∀ b, s.reg.registered = some b → ∃ ep, s.reg.epoch = some ep ∧ (ep, b) ∈ answers

theorem block_moved {blk : Block} {fdcLogs fuLogs : Option (List Nat)} (htracked : s.Tracked)
    (hevent : h.event = .block blk fdcLogs fuLogs) (hcur : Current cfg s h) :
    s.Moved (s.block cfg blk fdcLogs fuLogs).1 ∧
      ∀ rec ∈ recordedIn (s.block cfg blk fdcLogs fuLogs).2,
        Reached (s.block cfg blk fdcLogs fuLogs).1.reg.epoch (epochOf rec.rid) := by
  have hsetup := @EngineState.gathered_setup cfg s _ blk fdcLogs fuLogs
  have hscanned : (s.scanned cfg blk fdcLogs fuLogs).Tracked := htracked
  obtain ⟨hmoved, hrecs⟩ := @EngineState.recordRounds_moved cfg _
    ((s.gathered cfg blk fdcLogs fuLogs).sweep blk.timestamp).1 hscanned
    fun hcfg hnone rs hrs hnew => by
      obtain ⟨hmem, hdue, hfrom⟩ := ObserverState.sweep_swept.mem hrs
      rw [congrArg ObserverSetup.factory hsetup] at hdue hfrom
      rw [congrArg ObserverSetup.observeStartTs hsetup] at hfrom
      exact hcur.first blk fdcLogs fuLogs hevent hcfg hnone _ hmem hdue hfrom hnew
  exact ⟨⟨hmoved.forward, hmoved.tracked, hmoved.registered⟩, hrecs⟩

/-- One step moves the tracked epoch forward, if it moves it. -/
theorem tracks_step {answers : List (Int × Bool)} {records : List RoundRecord}
    (htracks : Tracks answers records s) (hcur : Current cfg s h) (hstep : EngineStep cfg s h s') :
    NotBefore s.reg.epoch s'.reg.epoch ∧
      Tracks (answers ++ probesIn [h]) (records ++ recordedIn h.notices) s' := by
  have hkept : ∀ b, s.reg.registered = some b →
      ∃ ep, s.reg.epoch = some ep ∧ (ep, b) ∈ answers ++ probesIn [h] := by
    intro b hb
    obtain ⟨ep, hep, hmem⟩ := htracks.answered b hb
    exact ⟨ep, hep, List.mem_append_left _ hmem⟩
  rcases hstep.cases with ⟨head, -, rfl, hn⟩ | ⟨blk, fdcLogs, fuLogs, hevent, rfl, hn⟩ |
    ⟨a, hevent, rfl, hn⟩
  · have hreg : (s.poll cfg head).reg = s.reg := by cases head <;> rfl
    have hepoch : (s.poll cfg head).mincondEpoch = s.mincondEpoch := by cases head <;> rfl
    rw [hn, hreg]
    refine ⟨.refl _, fun o ho => ?_, fun rec hrec => ?_, fun b hb => ?_⟩
    · rw [hepoch] at ho
      rw [hreg]
      exact htracks.tracked o ho
    · rw [hreg]
      exact htracks.recorded rec (by simpa [recordedIn] using hrec)
    · rw [hreg] at hb ⊢
      exact hkept b hb
  · obtain ⟨hmoved, hrecs⟩ := block_moved htracks.tracked hevent hcur
    rw [hn]
    refine ⟨hmoved.forward, hmoved.tracked, fun rec hrec => ?_, fun b hb => ?_⟩
    · rcases List.mem_append.mp hrec with hrec | hrec
      · exact (htracks.recorded rec hrec).later hmoved.forward
      · exact hrecs rec hrec
    · rcases hmoved.registered with hnone | ⟨hreg, hepoch⟩
      · rw [hnone] at hb
        cases hb
      · rw [hreg] at hb
        rw [hepoch]
        exact hkept b hb
  · obtain ⟨hepoch, hreg | ⟨ep, registered, hprobes, hanswer, hreg⟩⟩ :=
      @EngineState.pause_reg cfg s a
    · rw [hn, hreg]
      refine ⟨.refl _, fun o ho => ?_, fun rec hrec => ?_, fun b hb => ?_⟩
      · rw [hepoch] at ho
        rw [hreg]
        exact htracks.tracked o ho
      · rw [hreg]
        exact htracks.recorded rec (by simpa [recordedIn] using hrec)
      · rw [hreg] at hb ⊢
        exact hkept b hb
    · have hforward := hcur.probe a ep registered hevent hprobes hanswer
      rw [hn, hreg]
      refine ⟨hforward, fun o ho => ?_, fun rec hrec => ?_, fun b hb => ?_⟩
      · rw [hepoch] at ho
        rw [hreg]
        exact (htracks.tracked o ho).later hforward
      · rw [hreg]
        have hrec' : rec ∈ records := by simpa [recordedIn] using hrec
        exact (htracks.recorded rec hrec').later hforward
      · rw [hreg] at hb ⊢
        cases hb
        refine ⟨ep, rfl, List.mem_append_right _ ?_⟩
        simp [probesIn, hevent, hanswer]

omit [FtsoRules] [Messaging] in
theorem start_tracks {setup : ObserverSetup} {first : Nat} {file : List RoundRecord}
    {tallies : List IqrTally} {a : PauseAnswers} :
    Tracks a.registration.toList [] (EngineState.start cfg setup first file tallies a) := by
  let s₀ : EngineState :=
    { obs := { toObserverSetup := setup }, cursor := first, scanLo := first, lastBlock := first }
  let u := EngineState.start cfg setup first file tallies a
  have hreg : u.reg = (s₀.refreshRegistration cfg a).reg := by
    rw [← EngineState.refresh_reg]
    show (EngineState.start cfg setup first file tallies a).reg = _
    unfold EngineState.start
    cases cfg.mincondHistory <;> rfl
  have hepoch : u.mincondEpoch = none ∨ u.mincondEpoch = u.reg.epoch := by
    show (EngineState.start cfg setup first file tallies a).mincondEpoch = none ∨ _
    have hnone : (s₀.refresh cfg a).mincondEpoch = none := EngineState.refresh_mincondEpoch
    unfold u EngineState.start
    cases cfg.mincondHistory with
    | false => exact .inl hnone
    | true => exact .inr rfl
  refine ⟨fun o ho => ?_, fun rec hrec => (by cases hrec), fun b hb => ?_⟩
  · rcases hepoch with hnone | heq
    · exact absurd ho (by rw [show (EngineState.start cfg setup first file tallies a).mincondEpoch =
        none from hnone]; simp)
    · exact ⟨o, heq.symm.trans ho, le_rfl⟩
  · have hb' : (s₀.refreshRegistration cfg a).reg.registered = some b := by
      rw [← hreg]
      exact hb
    rcases @EngineState.refreshRegistration_cases cfg s₀ a with h | ⟨ep, registered, -, ha, h⟩
    · rw [h] at hb'
      cases hb'
    · rw [h] at hb' hreg
      cases hb'
      exact ⟨ep, congrArg RegOverlay.epoch hreg, by simp [ha]⟩

/-- In every run of such steps the tracked epoch never goes back, no round of a later epoch is in
the ledger, and the registration shown is the chain's answer for the epoch shown with it. -/
theorem regEpoch_forward {setup : ObserverSetup} {first : Nat} {file : List RoundRecord}
    {tallies : List IqrTally} {a : PauseAnswers}
    (hrun : Effect.Run (EngineStep cfg) (EngineState.start cfg setup first file tallies a) hs s)
    (hcur : Effect.EachStep (EngineStep cfg) (EngineState.start cfg setup first file tallies a)
      (Current cfg) hs) :
    (∀ hs₁ s₁, hs₁ <+: hs →
      Effect.Run (EngineStep cfg) (EngineState.start cfg setup first file tallies a) hs₁ s₁ →
      NotBefore s₁.reg.epoch s.reg.epoch) ∧
    (∀ rec ∈ recordedIn (noticesOf hs), Reached s.reg.epoch (epochOf rec.rid)) ∧
    (∀ b, s.reg.registered = some b →
      ∃ ep, s.reg.epoch = some ep ∧ (ep, b) ∈ a.registration.toList ++ probesIn hs) := by
  let start := EngineState.start cfg setup first file tallies a
  -- the run so far is behind the epoch that is tracked now
  have hall := Effect.Run.invariant_of_eachStep
    (fun hs u => (∀ hs₁ s₁, hs₁ <+: hs → Effect.Run (EngineStep cfg) start hs₁ s₁ →
        NotBefore s₁.reg.epoch u.reg.epoch) ∧
      Tracks (a.registration.toList ++ probesIn hs) (recordedIn (noticesOf hs)) u)
    ?_ ?_ hrun hcur
  · exact ⟨hall.1, hall.2.recorded, hall.2.answered⟩
  · refine ⟨fun hs₁ s₁ hpre h₁ => ?_, ?_⟩
    · obtain rfl := List.prefix_nil.mp hpre
      rw [h₁.nil_inv]
      exact .refl _
    · have hstart := @start_tracks cfg setup first file tallies a
      simpa [probesIn, noticesOf, recordedIn] using hstart
  · intro hs u h v hrun hinv hcur hstep
    obtain ⟨hbefore, htracks⟩ := hinv
    obtain ⟨hforward, htracks'⟩ := tracks_step htracks hcur hstep
    refine ⟨fun hs₁ s₁ hpre h₁ => ?_, ?_⟩
    · rcases List.prefix_concat_iff.mp hpre with rfl | hpre'
      · rw [Effect.Run.deterministic EngineStep.deterministic h₁ (.snoc hrun hstep)]
        exact .refl _
      · exact (hbefore hs₁ s₁ hpre' h₁).trans hforward
    · rw [noticesOf_concat, recordedIn_append]
      have hprobes : probesIn (hs ++ [h]) = probesIn hs ++ probesIn [h] := by simp [probesIn]
      rw [hprobes, ← List.append_assoc]
      exact htracks'

end

/-! ## A chain that lags -/

/-- The registration is watched. -/
def watchConfig : EngineConfig := { sampleConfig with registration := true }

/-- The chain answers that the voter is registered in the reward epoch `ep`. -/
def epochAnswers (ep : Int) : PauseAnswers :=
  { noAnswers with now := 302700, registration := some (ep, true) }

def watchStart : EngineState :=
  EngineState.start watchConfig sampleSetup 1 [] [] (epochAnswers 0)

/-- A round of the epoch 1 is recorded, and the chain is asked again. -/
def boundaryEvents (ep : Int) : List EngineEvent :=
  [.poll (some 1), .block ⟨302400, []⟩ none none, .pause { noAnswers with fdcLogs := some [1] },
    .poll (some 2), .block ⟨302700, []⟩ none none, .pause (epochAnswers ep)]

theorem boundary_run {ep : Int}
    (hes : @allowedAll noRules noMessages watchConfig watchStart (boundaryEvents ep) = true) :
    let _ := noRules
    let _ := noMessages
    Effect.Run (EngineStep watchConfig) watchStart
      (happenings watchConfig watchStart (boundaryEvents ep))
      (after watchConfig watchStart (boundaryEvents ep)) :=
  let _ := noRules
  let _ := noMessages
  (run_of_allowed hes).mono fun _ _ _ hstep => hstep.2

theorem lagging_shown :
    let _ := noRules
    let _ := noMessages
    allowedAll watchConfig watchStart (boundaryEvents 0) = true ∧
      (after watchConfig watchStart (boundaryEvents 0)).reg.epoch = some 0 ∧
      (recordedIn (noticesOf (happenings watchConfig watchStart (boundaryEvents 0)))).map
        (fun rec => epochOf rec.rid) = [1] := by
  decide +kernel

/-- The probe right after the boundary answers the epoch before. -/
theorem lagging_back :
    let _ := noRules
    let _ := noMessages
    ¬ ∀ hs s, Effect.Run (EngineStep watchConfig) watchStart hs s →
      ∀ rec ∈ recordedIn (noticesOf hs), Reached s.reg.epoch (epochOf rec.rid) := by
  intro _ _ hall
  obtain ⟨hallowed, hepoch, hrecs⟩ := lagging_shown
  have hback := hall _ _ (boundary_run hallowed)
  rw [hepoch] at hback
  generalize recordedIn (noticesOf (happenings watchConfig watchStart (boundaryEvents 0))) = l
    at hback hrecs
  have hone : (1 : Int) ∈ l.map fun rec => epochOf rec.rid := by
    rw [hrecs]
    exact List.mem_singleton_self _
  obtain ⟨rec, hrec, heq⟩ := List.mem_map.mp hone
  obtain ⟨x, hx, hle⟩ := hback rec hrec
  cases hx
  omega

/-- With the answer of the epoch that began, it is tracked throughout. -/
theorem boundary_current :
    let _ := noRules
    let _ := noMessages
    EachEvent watchConfig (Current watchConfig) watchStart (boundaryEvents 1) := by
  intro _ _
  have hpoll : ∀ {s : EngineState} {head : Option Nat} {notices : List Notice},
      Current watchConfig s ⟨.poll head, notices⟩ := by
    intro s head notices
    exact ⟨fun _ _ _ h => (by cases h), fun _ _ _ h => (by cases h)⟩
  have hblock : ∀ {s : EngineState} {blk : Block} {notices : List Notice},
      s.mincondEpoch ≠ none → Current watchConfig s ⟨.block blk none none, notices⟩ := by
    intro s blk notices hne
    exact ⟨fun _ _ _ h => (by cases h), fun _ _ _ _ _ hnone => absurd hnone hne⟩
  have hsilent : ∀ {s : EngineState} {a : PauseAnswers} {notices : List Notice},
      a.registration = none → Current watchConfig s ⟨.pause a, notices⟩ := by
    intro s a notices hnone
    refine ⟨fun a' ep b h _ ha => ?_, fun _ _ _ h => (by cases h)⟩
    cases h
    rw [hnone] at ha
    cases ha
  have hprobe : ∀ {s : EngineState} {notices : List Notice}, s.reg.epoch = some 1 →
      Current watchConfig s ⟨.pause (epochAnswers 1), notices⟩ := by
    intro s notices hone
    refine ⟨fun a ep b h _ ha => ?_, fun _ _ _ h => (by cases h)⟩
    cases h
    cases ha
    rw [hone]
    exact .refl _
  exact ⟨hpoll, hblock (by decide +kernel), hsilent rfl, hpoll, hblock (by decide +kernel),
    hprobe (by decide +kernel), trivial⟩

theorem boundary_forward :
    let _ := noRules
    let _ := noMessages
    ∃ hs s, Effect.Run (EngineStep watchConfig) watchStart hs s ∧ s.reg.epoch = some 1 ∧
      (∀ rec ∈ recordedIn (noticesOf hs), Reached s.reg.epoch (epochOf rec.rid)) := by
  intro _ _
  have hrun := @boundary_run 1 (by decide +kernel)
  have hcur := eachEngineStep_of_events boundary_current
  exact ⟨_, _, hrun, by decide +kernel, (regEpoch_forward hrun hcur).2.1⟩

end Clif.Observe
