import Clif.Observe.Engine
import Clif.Observe.Rounds

/-!
# Observe.EngineSteps — what each step of the engine does to what

One lemma for each part of the loop; the accounts of whole runs are built on these.
-/

namespace Clif.Observe

/-- The rounds in flight are the same, at the same time. -/
structure RoundsKept (st st' : ObserverState) : Prop where
  setup : st'.toObserverSetup = st.toObserverSetup
  lastTs : st'.lastTs = st.lastTs
  rounds : st'.rounds = st.rounds

theorem RoundsKept.refl (st : ObserverState) : RoundsKept st st := ⟨rfl, rfl, rfl⟩

theorem RoundsKept.trans {st st' st'' : ObserverState} (h : RoundsKept st st')
    (h' : RoundsKept st' st'') : RoundsKept st st'' :=
  ⟨h'.setup.trans h.setup, h'.lastTs.trans h.lastTs, h'.rounds.trans h.rounds⟩

theorem seedIqrHistory_kept {st : ObserverState} {tallies : List IqrTally} :
    RoundsKept st (st.seedIqrHistory tallies) := by
  induction tallies generalizing st with
  | nil => exact .refl st
  | cons t tallies ih =>
    obtain ⟨history, rids, h⟩ := @ObserverState.rememberTally_frame st t
    have hone : RoundsKept st (st.rememberTally t).2 := by
      rw [h]
      exact ⟨rfl, rfl, rfl⟩
    exact hone.trans ih

/-- What neither the overlays nor the ledger touch. -/
structure LoopKept (s s' : EngineState) : Prop where
  cursor : s'.cursor = s.cursor
  scanLo : s'.scanLo = s.scanLo
  tsMap : s'.tsMap = s.tsMap
  head : s'.head = s.head
  catchingUp : s'.catchingUp = s.catchingUp

theorem LoopKept.refl (s : EngineState) : LoopKept s s := ⟨rfl, rfl, rfl, rfl, rfl⟩

theorem LoopKept.trans {s s' s'' : EngineState} (h : LoopKept s s') (h' : LoopKept s' s'') :
    LoopKept s s'' :=
  ⟨h'.cursor.trans h.cursor, h'.scanLo.trans h.scanLo, h'.tsMap.trans h.tsMap,
    h'.head.trans h.head, h'.catchingUp.trans h.catchingUp⟩

namespace EngineState

variable {cfg : EngineConfig} {s : EngineState}

/-! ## The overlays -/

theorem refreshRegistration_frame {a : PauseAnswers} :
    ∃ reg, s.refreshRegistration cfg a = { s with reg := reg } := by
  unfold refreshRegistration
  split
  · exact ⟨s.reg, rfl⟩
  · split
    · exact ⟨s.reg, rfl⟩
    · split
      · exact ⟨_, rfl⟩
      · exact ⟨s.reg, rfl⟩

theorem refreshIqr_frame {a : PauseAnswers} :
    ∃ offer weights iqr, s.refreshIqr cfg a = { s with
      obs := { s.obs with iqrOffer := offer, iqrWeightMap := weights }, iqr := iqr } := by
  unfold refreshIqr
  split
  · exact ⟨_, _, _, rfl⟩
  · split
    · exact ⟨_, _, _, rfl⟩
    · split
      · exact ⟨_, _, _, rfl⟩
      · split
        · exact ⟨_, _, _, rfl⟩
        · split
          · exact ⟨_, _, _, rfl⟩
          · exact ⟨_, _, _, rfl⟩

theorem refreshUptime_frame {a : PauseAnswers} :
    ∃ up, s.refreshUptime cfg a = { s with up := up } := by
  unfold refreshUptime
  split
  · exact ⟨s.up, rfl⟩
  · split
    · exact ⟨_, rfl⟩
    · exact ⟨_, rfl⟩
    · exact ⟨_, rfl⟩

theorem refreshBudget_frame {a : PauseAnswers} :
    ∃ bud, s.refreshBudget cfg a = { s with bud := bud } := by
  unfold refreshBudget
  split
  · exact ⟨s.bud, rfl⟩
  · split
    · exact ⟨_, rfl⟩
    · exact ⟨_, rfl⟩

/-- A refresh touches the overlays and the reward-band context. -/
theorem refresh_frame {a : PauseAnswers} :
    ∃ offer weights reg iqr up bud, s.refresh cfg a = { s with
      obs := { s.obs with iqrOffer := offer, iqrWeightMap := weights }
      reg := reg, iqr := iqr, up := up, bud := bud } := by
  unfold refresh
  obtain ⟨reg, hreg⟩ := @refreshRegistration_frame cfg s a
  rw [hreg]
  obtain ⟨offer, weights, iqr, hiqr⟩ := @refreshIqr_frame cfg { s with reg := reg } a
  rw [hiqr]
  obtain ⟨up, hup⟩ := @refreshUptime_frame cfg { s with
    obs := { s.obs with iqrOffer := offer, iqrWeightMap := weights }, reg := reg, iqr := iqr } a
  rw [hup]
  obtain ⟨bud, hbud⟩ := @refreshBudget_frame cfg { s with
    obs := { s.obs with iqrOffer := offer, iqrWeightMap := weights }
    reg := reg, iqr := iqr, up := up } a
  exact ⟨offer, weights, reg, iqr, up, bud, hbud⟩

theorem refresh_kept {a : PauseAnswers} :
    RoundsKept s.obs (s.refresh cfg a).obs ∧ LoopKept s (s.refresh cfg a) := by
  obtain ⟨_, _, _, _, _, _, h⟩ := @refresh_frame cfg s a
  rw [h]
  exact ⟨⟨rfl, rfl, rfl⟩, rfl, rfl, rfl, rfl, rfl⟩

/-! ## The ledger -/

theorem rollover_frame {re : Int} :
    ∃ epoch blocks reg bud up iqr, (s.rollover re).1 = { s with
      mincondEpoch := epoch, mincondBlocks := blocks
      reg := reg, bud := bud, up := up, iqr := iqr } := by
  unfold rollover
  split
  · exact ⟨_, _, _, _, _, _, rfl⟩
  · split
    · exact ⟨_, _, _, _, _, _, rfl⟩
    · exact ⟨_, _, _, _, _, _, rfl⟩

theorem rollover_finalized {re : Int} : finalizedIn (s.rollover re).2 = [] := by
  unfold rollover
  split
  · rfl
  · split <;> rfl

theorem rollover_recorded {re : Int} : recordedIn (s.rollover re).2 = [] := by
  unfold rollover
  split
  · rfl
  · split <;> rfl

theorem recordRound_known {rs : RoundState}
    (h : cfg.mincondHistory = false ∨ rs.roundId ∈ s.mincondRecs.keys) :
    s.recordRound cfg rs = (s, [.finalized rs]) := by
  unfold recordRound
  rcases h with h | h
  · simp [h]
  · simp [h]

theorem recordRound_new {rs : RoundState} (hcfg : cfg.mincondHistory = true)
    (h : rs.roundId ∉ s.mincondRecs.keys) :
    s.recordRound cfg rs =
      ({ (s.rollover (epochOf rs.roundId)).1 with
          mincondRecs := s.mincondRecs.put (s.recordOf rs)
          mincondFile := s.mincondFile ++ [s.recordOf rs] },
        .finalized rs :: (s.rollover (epochOf rs.roundId)).2 ++ [.recorded (s.recordOf rs)]) := by
  obtain ⟨_, _, _, _, _, _, hroll⟩ := @rollover_frame s (epochOf rs.roundId)
  unfold recordRound
  simp only [hcfg, h, Bool.not_true, decide_false, Bool.or_false, Bool.false_eq_true, if_false]
  rw [hroll]
  rfl

theorem recordRound_kept {rs : RoundState} :
    (s.recordRound cfg rs).1.obs = s.obs ∧ LoopKept s (s.recordRound cfg rs).1 := by
  by_cases h : cfg.mincondHistory = false ∨ rs.roundId ∈ s.mincondRecs.keys
  · rw [recordRound_known h]
    exact ⟨rfl, .refl s⟩
  · rw [not_or] at h
    obtain ⟨_, _, _, _, _, _, hroll⟩ := @rollover_frame s (epochOf rs.roundId)
    rw [recordRound_new (by simpa using h.1) h.2, hroll]
    exact ⟨rfl, rfl, rfl, rfl, rfl, rfl⟩

theorem recordRound_finalized {rs : RoundState} :
    finalizedIn (s.recordRound cfg rs).2 = [rs] := by
  by_cases h : cfg.mincondHistory = false ∨ rs.roundId ∈ s.mincondRecs.keys
  · rw [recordRound_known h]
    rfl
  · rw [not_or] at h
    rw [recordRound_new (by simpa using h.1) h.2]
    have hroll := @rollover_finalized s (epochOf rs.roundId)
    unfold finalizedIn at hroll ⊢
    rw [List.cons_append, List.filterMap_cons, List.filterMap_append, hroll]
    rfl

theorem recordRounds_kept {done : List RoundState} :
    (s.recordRounds cfg done).1.obs = s.obs ∧ LoopKept s (s.recordRounds cfg done).1 := by
  induction done generalizing s with
  | nil => exact ⟨rfl, .refl s⟩
  | cons rs done ih =>
    have hone := @recordRound_kept cfg s rs
    have hrest := @ih (s.recordRound cfg rs).1
    exact ⟨hrest.1.trans hone.1, hone.2.trans hrest.2⟩

theorem recordRounds_finalized {done : List RoundState} :
    finalizedIn (s.recordRounds cfg done).2 = done := by
  induction done generalizing s with
  | nil => rfl
  | cons rs done ih =>
    have hone := @recordRound_finalized cfg s rs
    have hrest := @ih (s.recordRound cfg rs).1
    show finalizedIn ((s.recordRound cfg rs).2 ++
      ((s.recordRound cfg rs).1.recordRounds cfg done).2) = rs :: done
    unfold finalizedIn at hone hrest ⊢
    rw [List.filterMap_append, hone, hrest]
    rfl

/-! ## The steps -/

section Block

variable [FtsoRules] [Messaging] {blk : Block} {fdcLogs fuLogs : Option (List Nat)}

/-- The state of the loop after the rounds of the block were finalized, with the ledger as it
was. -/
def scanned (cfg : EngineConfig) (s : EngineState) (blk : Block)
    (fdcLogs fuLogs : Option (List Nat)) : EngineState :=
  { s with
    obs := ((s.gathered cfg blk fdcLogs fuLogs).sweep blk.timestamp).2
    scanLo := if s.flushes then s.cursor + 1 else s.scanLo
    tsMap := if s.flushes then Dict.empty else s.tsMap.set s.cursor blk.timestamp
    lastBlock := s.cursor }

theorem block_eq : s.block cfg blk fdcLogs fuLogs =
    let recorded := (s.scanned cfg blk fdcLogs fuLogs).recordRounds cfg
      ((s.gathered cfg blk fdcLogs fuLogs).sweep blk.timestamp).1
    ({ recorded.1 with
        cursor := s.cursor + 1, mincondBlocks := recorded.1.mincondBlocks + 1 }, recorded.2) := rfl

theorem block_obs : (s.block cfg blk fdcLogs fuLogs).1.obs =
    ((s.gathered cfg blk fdcLogs fuLogs).sweep blk.timestamp).2 := by
  rw [block_eq]
  exact recordRounds_kept.1

theorem block_finalized : finalizedIn (s.block cfg blk fdcLogs fuLogs).2 =
    ((s.gathered cfg blk fdcLogs fuLogs).sweep blk.timestamp).1 := by
  rw [block_eq]
  exact recordRounds_finalized

theorem block_cursor : (s.block cfg blk fdcLogs fuLogs).1.cursor = s.cursor + 1 := rfl

theorem block_scanLo : (s.block cfg blk fdcLogs fuLogs).1.scanLo =
    if s.flushes then s.cursor + 1 else s.scanLo := by
  rw [block_eq]
  exact recordRounds_kept.2.scanLo

theorem block_tsMap : (s.block cfg blk fdcLogs fuLogs).1.tsMap =
    if s.flushes then Dict.empty else s.tsMap.set s.cursor blk.timestamp := by
  rw [block_eq]
  exact recordRounds_kept.2.tsMap

theorem block_head : (s.block cfg blk fdcLogs fuLogs).1.head = s.head := by
  rw [block_eq]
  exact recordRounds_kept.2.head

omit [FtsoRules] in
theorem gathered_setup :
    (s.gathered cfg blk fdcLogs fuLogs).toObserverSetup = s.obs.toObserverSetup :=
  ObserverState.performAll_setup

theorem block_lastTs : (s.block cfg blk fdcLogs fuLogs).1.obs.lastTs = some blk.timestamp := by
  rw [block_obs]
  exact ObserverState.sweep_swept.lastTs

theorem block_setup :
    (s.block cfg blk fdcLogs fuLogs).1.obs.toObserverSetup = s.obs.toObserverSetup := by
  rw [block_obs]
  exact ObserverState.sweep_swept.setup.trans gathered_setup

end Block

theorem flushTrailing_lastTs {a : PauseAnswers} :
    (s.flushTrailing cfg a).obs.lastTs = s.obs.lastTs := by
  unfold flushTrailing
  split
  · exact ObserverState.performAll_lastTs
  · rfl

theorem flushTrailing_setup {a : PauseAnswers} :
    (s.flushTrailing cfg a).obs.toObserverSetup = s.obs.toObserverSetup := by
  unfold flushTrailing
  split
  · exact ObserverState.performAll_setup
  · rfl

theorem prune_kept {report : Bool} :
    (s.prune cfg report).obs = s.obs ∧ LoopKept s (s.prune cfg report) := by
  unfold prune
  split
  · split
    · exact ⟨rfl, rfl, rfl, rfl, rfl, rfl⟩
    · exact ⟨rfl, .refl s⟩
  · exact ⟨rfl, .refl s⟩

theorem pause_kept {a : PauseAnswers} :
    RoundsKept (s.flushTrailing cfg a).obs (s.pause cfg a).obs := by
  have hrefresh := (@refresh_kept cfg (s.settled cfg a) a).1
  have hprune := (@prune_kept cfg ((s.settled cfg a).refresh cfg a) a.report).1
  unfold pause
  rw [hprune]
  exact hrefresh

theorem pause_cursor {a : PauseAnswers} : (s.pause cfg a).cursor = s.cursor := by
  have hrefresh := (@refresh_kept cfg (s.settled cfg a) a).2
  have hprune := (@prune_kept cfg ((s.settled cfg a).refresh cfg a) a.report).2
  refine (hrefresh.trans hprune).cursor.trans ?_
  show (s.flushTrailing cfg a).cursor = s.cursor
  unfold flushTrailing
  split <;> rfl

theorem pause_scanLo {a : PauseAnswers} :
    (s.pause cfg a).scanLo = if s.scanLo < s.cursor then s.cursor else s.scanLo := by
  have hrefresh := (@refresh_kept cfg (s.settled cfg a) a).2
  have hprune := (@prune_kept cfg ((s.settled cfg a).refresh cfg a) a.report).2
  refine (hrefresh.trans hprune).scanLo.trans ?_
  show (s.flushTrailing cfg a).scanLo = _
  unfold flushTrailing
  split <;> rfl

/-! ## The start -/

/-- Nothing has been read yet. -/
structure Started (setup : ObserverSetup) (first : Nat) (s : EngineState) : Prop where
  setup : s.obs.toObserverSetup = setup
  lastTs : s.obs.lastTs = none
  rounds : s.obs.rounds = Keyed.empty
  cursor : s.cursor = first
  scanLo : s.scanLo = first
  tsMap : s.tsMap = Dict.empty
  head : s.head = none

theorem start_started {setup : ObserverSetup} {cursor : Nat} {file : List RoundRecord}
    {tallies : List IqrTally} {a : PauseAnswers} :
    Started setup cursor (start cfg setup cursor file tallies a) := by
  have hrefresh := @refresh_kept cfg
    { obs := { toObserverSetup := setup }, cursor := cursor, scanLo := cursor,
      lastBlock := cursor } a
  have hobs := hrefresh.1.trans (@seedIqrHistory_kept _ tallies)
  unfold start
  by_cases hcfg : cfg.mincondHistory = true
  · simp only [hcfg, if_true]
    exact ⟨hobs.setup, hobs.lastTs, hobs.rounds, hrefresh.2.cursor, hrefresh.2.scanLo,
      hrefresh.2.tsMap, hrefresh.2.head⟩
  · simp only [hcfg]
    exact ⟨hobs.setup, hobs.lastTs, hobs.rounds, hrefresh.2.cursor, hrefresh.2.scanLo,
      hrefresh.2.tsMap, hrefresh.2.head⟩

end EngineState

theorem noticesOf_concat {hs : List Happening} {h : Happening} :
    noticesOf (hs ++ [h]) = noticesOf hs ++ h.notices := by
  simp [noticesOf]

theorem finalizedIn_append {notices notices' : List Notice} :
    finalizedIn (notices ++ notices') = finalizedIn notices ++ finalizedIn notices' :=
  List.filterMap_append

theorem recordedIn_append {notices notices' : List Notice} :
    recordedIn (notices ++ notices') = recordedIn notices ++ recordedIn notices' :=
  List.filterMap_append

theorem poll_cursor {cfg : EngineConfig} {s : EngineState} {head : Option Nat} :
    (s.poll cfg head).cursor = s.cursor := by
  cases head <;> rfl

theorem poll_obs {cfg : EngineConfig} {s : EngineState} {head : Option Nat} :
    (s.poll cfg head).obs = s.obs := by
  cases head <;> rfl

variable [FtsoRules] [Messaging] {cfg : EngineConfig} {s s' : EngineState} {h : Happening}

/-- A step is determined by its event. -/
theorem EngineStep.deterministic :
    ∀ (s : EngineState) (h : Happening) (s₁ s₂ : EngineState),
      EngineStep cfg s h s₁ → EngineStep cfg s h s₂ → s₁ = s₂ := by
  intro s h s₁ s₂ h₁ h₂
  have hnext := h₁.2.symm.trans h₂.2
  exact congrArg Prod.fst hnext

theorem TimedStep.deterministic :
    ∀ (s : EngineState) (h : Happening) (s₁ s₂ : EngineState),
      TimedStep cfg s h s₁ → TimedStep cfg s h s₂ → s₁ = s₂ :=
  fun s h s₁ s₂ h₁ h₂ => EngineStep.deterministic s h s₁ s₂ h₁.2 h₂.2

/-- What a step does to the observer: a block sweeps, a pause only writes. -/
theorem EngineStep.cases (hstep : EngineStep cfg s h s') :
    (∃ head, h.event = .poll head ∧ s' = s.poll cfg head ∧ h.notices = []) ∨
    (∃ blk fdcLogs fuLogs, h.event = .block blk fdcLogs fuLogs ∧
      s' = (s.block cfg blk fdcLogs fuLogs).1 ∧
      h.notices = (s.block cfg blk fdcLogs fuLogs).2) ∨
    (∃ a, h.event = .pause a ∧ s' = s.pause cfg a ∧ h.notices = []) := by
  obtain ⟨-, hnext⟩ := hstep
  cases hevent : h.event with
  | poll head =>
    rw [hevent] at hnext
    obtain ⟨hs, hn⟩ := Prod.mk.inj hnext
    exact .inl ⟨head, rfl, hs.symm, hn.symm⟩
  | block blk fdcLogs fuLogs =>
    rw [hevent] at hnext
    exact .inr (.inl ⟨blk, fdcLogs, fuLogs, rfl, (congrArg Prod.fst hnext).symm,
      (congrArg Prod.snd hnext).symm⟩)
  | pause a =>
    rw [hevent] at hnext
    obtain ⟨hs, hn⟩ := Prod.mk.inj hnext
    exact .inr (.inr ⟨a, rfl, hs.symm, hn.symm⟩)

theorem TimedStep.cases (hstep : TimedStep cfg s h s') :
    (∃ head, h.event = .poll head ∧ s' = s.poll cfg head ∧ h.notices = []) ∨
    (∃ blk fdcLogs fuLogs, h.event = .block blk fdcLogs fuLogs ∧
      (∀ last, s.obs.lastTs = some last → last ≤ blk.timestamp) ∧
      s' = (s.block cfg blk fdcLogs fuLogs).1 ∧
      h.notices = (s.block cfg blk fdcLogs fuLogs).2) ∨
    (∃ a, h.event = .pause a ∧ s' = s.pause cfg a ∧ h.notices = []) := by
  rcases hstep.2.cases with hpoll | ⟨blk, fdcLogs, fuLogs, hevent, hs, hn⟩ | hpause
  · exact .inl hpoll
  · exact .inr (.inl ⟨blk, fdcLogs, fuLogs, hevent, hstep.1 blk fdcLogs fuLogs hevent, hs, hn⟩)
  · exact .inr (.inr hpause)

/-- What the observer is set up with never changes. -/
theorem TimedStep.setup (hstep : TimedStep cfg s h s') :
    s'.obs.toObserverSetup = s.obs.toObserverSetup := by
  rcases hstep.cases with ⟨head, -, rfl, -⟩ | ⟨blk, fdcLogs, fuLogs, -, -, rfl, -⟩ | ⟨a, -, rfl, -⟩
  · rw [poll_obs]
  · exact EngineState.block_setup
  · exact EngineState.pause_kept.setup.trans EngineState.flushTrailing_setup

/-! ## Runs from their events -/

/-- What the engine shows as the events come. -/
def happenings (cfg : EngineConfig) (s : EngineState) : List EngineEvent → List Happening
  | [] => []
  | e :: es => ⟨e, (s.next cfg e).2⟩ :: happenings cfg (s.next cfg e).1 es

/-- The state after the events. -/
def after (cfg : EngineConfig) (s : EngineState) : List EngineEvent → EngineState
  | [] => s
  | e :: es => after cfg (s.next cfg e).1 es

/-- Whether the event can come now. -/
def allowed (cfg : EngineConfig) (s : EngineState) : EngineEvent → Bool
  | .poll _ => s.head.isNone
  | .block blk _ _ =>
    (match s.obs.lastTs with
      | some last => decide (last ≤ blk.timestamp)
      | none => true) &&
    (match s.head with
      | some head => decide ((s.cursor : Int) ≤ head - cfg.confirmations)
      | none => false)
  | .pause _ => s.head.isSome

/-- Whether the events can come in this order. -/
def allowedAll (cfg : EngineConfig) (s : EngineState) : List EngineEvent → Bool
  | [] => true
  | e :: es => allowed cfg s e && allowedAll cfg (s.next cfg e).1 es

/-- `Q` holds of each step as the events come. -/
def EachEvent (cfg : EngineConfig) (Q : EngineState → Happening → Prop) (s : EngineState) :
    List EngineEvent → Prop
  | [] => True
  | e :: es => Q s ⟨e, (s.next cfg e).2⟩ ∧ EachEvent cfg Q (s.next cfg e).1 es

theorem eachEngineStep_of_events {Q : EngineState → Happening → Prop} {es : List EngineEvent}
    (hes : EachEvent cfg Q s es) :
    Effect.EachStep (EngineStep cfg) s Q (happenings cfg s es) := by
  induction es generalizing s with
  | nil => exact .nil
  | cons e es ih =>
    refine .cons hes.1 fun s₁ hstep => ?_
    have hs₁ : s₁ = (s.next cfg e).1 := (congrArg Prod.fst hstep.2).symm
    subst hs₁
    exact ih hes.2

theorem eachStep_of_events {Q : EngineState → Happening → Prop} {es : List EngineEvent}
    (hes : EachEvent cfg Q s es) :
    Effect.EachStep (TimedStep cfg) s Q (happenings cfg s es) :=
  (eachEngineStep_of_events hes).anti fun _ _ _ hstep => hstep.2

omit [FtsoRules] [Messaging] in
theorem inTime_of_allowed {e : EngineEvent} (he : allowed cfg s e = true) : InTime s e := by
  intro blk fdcLogs fuLogs hblk last hlast
  subst hblk
  simp only [allowed, hlast, Bool.and_eq_true, decide_eq_true_eq] at he
  exact he.1

omit [FtsoRules] [Messaging] in
theorem enabled_of_allowed {e : EngineEvent} (he : allowed cfg s e = true) :
    s.Enabled cfg e := by
  cases e with
  | poll head => simpa [allowed, EngineState.Enabled] using he
  | pause a => simpa [allowed, EngineState.Enabled] using he
  | block blk fdcLogs fuLogs =>
    simp only [allowed, Bool.and_eq_true] at he
    cases hhead : s.head with
    | none => simp [hhead] at he
    | some head =>
      rw [hhead] at he
      exact ⟨head, hhead, by simpa using he.2⟩

theorem run_of_allowed {es : List EngineEvent} (hes : allowedAll cfg s es = true) :
    Effect.Run (TimedStep cfg) s (happenings cfg s es) (after cfg s es) := by
  induction es generalizing s with
  | nil => exact .nil
  | cons e es ih =>
    simp only [allowedAll, Bool.and_eq_true] at hes
    exact .cons ⟨inTime_of_allowed hes.1, enabled_of_allowed hes.1, rfl⟩ (ih hes.2)

end Clif.Observe
