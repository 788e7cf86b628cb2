import Clif.Observe.Explained
import Clif.Observe.Budget
import Clif.Observe.CleanRound

/-!
# Observe.Window — the rolling window of finalized rounds, and the snapshot that is made of it

After every run the window holds the last rounds that were finalized (`window_run`).
`severity_ok_iff` says what a green snapshot tells about them, and `window_accounts` how the figures
of a snapshot add up.
-/

namespace Clif

def Severity.text : Severity → String
  | .ok => "OK"
  | .warn => "WARN"
  | .crit => "CRIT"

namespace Observe

/-! ## The figures of the window -/

/-- `aggregates`. -/
structure Aggregates where
  windowRounds : Nat
  trailingClean : Nat
  complete : Nat
  missingSubmit1 : Nat
  missingSubmit2 : Nat
  revealOffences : Nat
  offWindow : Nat
  signaturesSeen : Nat
  fdcRequestRounds : Nat
  fdcParticipated : Nat
  fdcMissing : Nat
  iqrScoredRounds : Nat
  iqrFeedRounds : Nat
  iqrInside : Nat
  iqrBoundary : Nat
  iqrPctHit : Nat
  iqrCapped : Nat
  recentIssues : List String
deriving DecidableEq

namespace RoundState

variable (rs : RoundState)

def noCommit : Bool := !rs.submit1Seen

def noReveal : Bool := rs.submit1Seen && !rs.submit2Seen

def outside : Bool :=
  (rs.submit1Seen && !rs.submit1Ontime) || (rs.submit2Seen && !rs.submit2Ontime)

def takesPart : Bool := rs.fdcExpected && rs.fdcBitvoteSeen && !rs.fdcGap

def scored : Bool := !rs.iqrResults.entries.isEmpty

/-- A line of `recent_issues`. -/
def issueLine : String := "RD" ++ toString rs.roundId ++ ": " ++ "; ".intercalate rs.issues

end RoundState

/-- `aggregates`, of the rounds of the window. -/
def aggregatesOf (w : List RoundState) : Aggregates :=
  let results := w.flatMap fun rs => rs.iqrResults.values
  { windowRounds := w.length
    trailingClean := (w.reverse.takeWhile RoundState.clean).length
    complete := w.countP RoundState.clean
    missingSubmit1 := w.countP RoundState.noCommit
    missingSubmit2 := w.countP RoundState.noReveal
    revealOffences := w.countP RoundState.revealOffence
    offWindow := w.countP RoundState.outside
    signaturesSeen := w.countP RoundState.sigSeen
    fdcRequestRounds := w.countP RoundState.fdcExpected
    fdcParticipated := w.countP RoundState.takesPart
    fdcMissing := w.countP RoundState.fdcGap
    iqrScoredRounds := w.countP RoundState.scored
    iqrFeedRounds := results.length
    iqrInside := results.countP fun r => r.band = .inside
    iqrBoundary := results.countP fun r => r.band = .boundary
    iqrPctHit := results.countP FeedResult.pctHit
    iqrCapped := results.countP FeedResult.capped
    recentIssues := lastOf 8 ((w.filter fun rs => !rs.issues.isEmpty).map RoundState.issueLine) }

def ObserverState.aggregates (st : ObserverState) : Aggregates := aggregatesOf st.finalized

/-! ## The snapshot -/

/-- The keys of `budget` that are read of the answer of `read_ftso_budget`. -/
def Budget.status (b : Budget) : BudgetStatus :=
  match b.report with
  | none => { severity := some "unknown" }
  | some r =>
    { severity := some r.severity.text
      ratePct := some r.ratePct
      etaRoundsToBreach := r.etaRoundsToBreach }

/-- The keys of `mincond` that are read of a tally. -/
def Tally.status (t : Tally) : MincondStatus where
  fdcExpected := some t.fdcExpected
  fdcPct := t.fdcPct
  missingInSpan := some t.missingInSpan

/-- What `_status` reads besides the state of the loop. -/
structure StatusInputs where
  network : String
  /-- The clock, in seconds. -/
  writtenAt : Int
  /-- `state.head`. -/
  head : Option Int
  validatorNode : Option String
  quorum : Option (Dict String (Option QuorumFact))
  quorumCrit : Bool

/-- `_status`, as `observe_health_from_dict` reads it. -/
def EngineState.health (cfg : EngineConfig) (s : EngineState) (x : StatusInputs) : ObserveHealth :=
  let agg := s.obs.aggregates
  { network := x.network
    enabled := true
    writtenAt := some x.writtenAt
    lastBlock := some s.lastBlock
    head := x.head
    liveLagBlocks := cfg.liveLagBlocks
    budget := s.bud.data.map Budget.status
    mincond := s.reg.epoch.map fun e => (epochTally s.mincondRecs.values e).status
    windowRounds := agg.windowRounds
    trailingClean := agg.trailingClean
    complete := agg.complete
    missingSubmit1 := agg.missingSubmit1
    missingSubmit2 := agg.missingSubmit2
    revealOffences := agg.revealOffences
    offWindow := agg.offWindow
    fdcRequestRounds := agg.fdcRequestRounds
    fdcParticipated := agg.fdcParticipated
    fdcMissing := agg.fdcMissing
    uptimePct := s.up.data.map UptimeReading.pct
    validatorNode := x.validatorNode
    quorum := x.quorum
    quorumCrit := x.quorumCrit
    registered := s.reg.registered
    rewardEpoch := s.reg.epoch }

/-! ## What the window holds -/

theorem length_lastOf {α : Type} {n : Nat} {l : List α} :
    (lastOf n l).length = min n l.length := by
  simp only [lastOf, List.length_drop]
  omega

/-- Adding to what a bounded queue keeps is adding to all that went through it. -/
theorem lastOf_append {α : Type} {n : Nat} {l l' : List α} :
    lastOf n (lastOf n l ++ l') = lastOf n (l ++ l') := by
  unfold lastOf
  rw [List.length_append, List.length_append, List.length_drop]
  by_cases h : l.length ≤ n
  · rw [Nat.sub_eq_zero_of_le h, List.drop_zero, Nat.sub_zero]
  · rw [List.drop_append, List.drop_append, List.drop_drop, List.length_drop]
    congr 2 <;> omega

namespace ObserverState

/-- A property of new rounds that every write keeps holds of all that is in flight. -/
theorem performAll_forall {st : ObserverState} {ops : List (Int × RoundOp)} {P : RoundState → Prop}
    (hnew : ∀ r, P { roundId := r })
    (hop : ∀ x ∈ ops, ∀ rs, rs.roundId = x.1 → P rs → P (x.2.apply rs))
    (h : ∀ r rs, st.rounds.get? r = some rs → P rs) :
    ∀ r rs, (st.performAll ops).rounds.get? r = some rs → P rs := by
  induction ops generalizing st with
  | nil => exact h
  | cons x ops ih =>
    rw [performAll_cons]
    refine ih (fun y hy => hop y (List.mem_cons_of_mem x hy)) fun r rs hrs => ?_
    rcases @perform_cases st x.1 r x.2 with hnone | hsame | ⟨hr, hwritten⟩
    · rw [hnone] at hrs
      cases hrs
    · rw [hsame] at hrs
      exact h r rs hrs
    · rw [hwritten] at hrs
      cases hrs
      refine hop x (List.mem_cons_self ..) _ ?_ ?_
      · cases hget : st.rounds.get? r with
        | none => exact hr.symm
        | some old => exact (Keyed.key_of_get? hget).trans hr.symm
      · cases hget : st.rounds.get? r with
        | none => exact hnew r
        | some old => exact h r old hget

variable [FtsoRules] {st : ObserverState} {now ts : Int}

theorem finalizeRound_finalized {rs : RoundState} :
    (st.finalizeRound rs ts).2.finalized =
      lastOf st.windowRounds (st.finalized ++ [(st.finalizeRound rs ts).1]) := by
  unfold finalizeRound
  by_cases hempty : ((rs.check st.ourSubmit).scoreIqr st.iqrOffer).iqrResults.entries.isEmpty
  · simp only [hempty, if_true]
  · obtain ⟨history, rids, h⟩ := @rememberTally_frame st
      (((rs.check st.ourSubmit).scoreIqr st.iqrOffer).tallyOf ts)
    simp only [hempty, h]
    rfl

/-- What the loop of `finalize_due` returns, it has put into the window. -/
theorem foldl_finalizeOne_window {l : List Int} {done kept : List RoundState}
    (h : st.finalized = lastOf st.windowRounds (kept ++ done)) :
    (l.foldl (finalizeOne now) (done, st)).2.finalized =
      lastOf st.windowRounds (kept ++ (l.foldl (finalizeOne now) (done, st)).1) := by
  induction l generalizing st done with
  | nil => exact h
  | cons r l ih =>
    rw [List.foldl_cons]
    by_cases hdue : st.factory.due r now = true
    · cases hget : st.rounds.get? r with
      | none =>
        rw [finalizeOne_absent hget]
        exact ih h
      | some raw =>
        by_cases hstart : st.factory.startS r < st.observeStartTs
        · rw [finalizeOne_dropped hget hdue hstart]
          exact @ih { st with rounds := st.rounds.erase r } done h
        · have hone := @finalizeRound_finalized _ { st with rounds := st.rounds.erase r } now raw
          obtain ⟨_, _, _, _, hframe⟩ := @finalizeRound_frame
            { st with rounds := st.rounds.erase r } _ now raw
          have hwindow : (finalizeRound { st with rounds := st.rounds.erase r } raw
              now).2.windowRounds = st.windowRounds := by rw [hframe]
          rw [finalizeOne_taken hget hdue hstart, ← hwindow]
          refine ih ?_
          rw [hone, hwindow]
          show lastOf st.windowRounds (st.finalized ++ _) = _
          rw [h, lastOf_append, List.append_assoc]
    · have hdue' : st.factory.due r now = false := by simpa using hdue
      rw [finalizeOne_open hdue']
      exact ih h

theorem sweep_finalized {kept : List RoundState} (h : st.finalized = lastOf st.windowRounds kept) :
    (st.sweep ts).2.finalized = lastOf st.windowRounds (kept ++ (st.sweep ts).1) := by
  have h' : st.finalized = lastOf st.windowRounds (kept ++ []) := by rwa [List.append_nil]
  exact @foldl_finalizeOne_window _ { st with lastTs := some ts } ts _ [] kept h'

end ObserverState

/-- A pause writes into rounds in flight, and reads overlays. -/
theorem EngineState.pause_finalized {cfg : EngineConfig} {s : EngineState} {a : PauseAnswers} :
    (s.pause cfg a).obs.finalized = s.obs.finalized := by
  have hflush : (s.flushTrailing cfg a).obs.finalized = s.obs.finalized := by
    unfold flushTrailing
    split
    · rw [ObserverState.performAll_eq]
    · rfl
  obtain ⟨_, _, _, _, _, _, hrefresh⟩ := @refresh_frame cfg (s.settled cfg a) a
  have hprune := (@prune_kept cfg ((s.settled cfg a).refresh cfg a) a.report).1
  unfold pause
  rw [hprune, hrefresh]
  exact hflush

section

variable [FtsoRules] [Messaging] {cfg : EngineConfig} {s s' s₀ : EngineState} {h : Happening}
  {hs : List Happening}

/-- Neither a poll nor a pause touches the window. -/
theorem EngineStep.window (hstep : EngineStep cfg s h s') {kept : List RoundState}
    (hkept : s.obs.finalized = lastOf s.obs.windowRounds kept) :
    s'.obs.toObserverSetup = s.obs.toObserverSetup ∧
      s'.obs.finalized = lastOf s.obs.windowRounds (kept ++ finalizedIn h.notices) := by
  rcases hstep.cases with ⟨head, -, rfl, hnotices⟩ | ⟨blk, fdcLogs, fuLogs, -, rfl, hnotices⟩ |
    ⟨a, -, rfl, hnotices⟩
  · rw [hnotices, poll_obs]
    exact ⟨rfl, by simpa [finalizedIn] using hkept⟩
  · refine ⟨EngineState.block_setup, ?_⟩
    have hgathered : (s.gathered cfg blk fdcLogs fuLogs).finalized =
        lastOf (s.gathered cfg blk fdcLogs fuLogs).windowRounds kept := by
      have hrounds := congrArg ObserverSetup.windowRounds
        (@EngineState.gathered_setup cfg s _ blk fdcLogs fuLogs)
      rw [hrounds, ← hkept]
      show (s.obs.performAll _).finalized = _
      rw [ObserverState.performAll_eq]
    have hswept := @ObserverState.sweep_finalized _ _ blk.timestamp _ hgathered
    rw [hnotices, EngineState.block_finalized, EngineState.block_obs, hswept]
    exact congrArg (lastOf · _) (congrArg ObserverSetup.windowRounds EngineState.gathered_setup)
  · have hsetup := (@EngineState.pause_kept cfg s a).setup.trans
      (@EngineState.flushTrailing_setup cfg s a)
    refine ⟨hsetup, ?_⟩
    rw [hnotices, EngineState.pause_finalized]
    simpa [finalizedIn] using hkept

omit [FtsoRules] [Messaging] in
theorem seedIqrHistory_finalized {st : ObserverState} {tallies : List IqrTally} :
    (st.seedIqrHistory tallies).finalized = st.finalized := by
  induction tallies generalizing st with
  | nil => rfl
  | cons t tallies ih =>
    obtain ⟨history, rids, h⟩ := @ObserverState.rememberTally_frame st t
    show ((st.rememberTally t).2.seedIqrHistory tallies).finalized = st.finalized
    rw [ih, h]

omit [FtsoRules] [Messaging] in
/-- The window starts empty. -/
theorem EngineState.start_finalized {setup : ObserverSetup} {first : Nat} {file : List RoundRecord}
    {tallies : List IqrTally} {a : PauseAnswers} :
    (EngineState.start cfg setup first file tallies a).obs.finalized = [] := by
  let s : EngineState :=
    { obs := { toObserverSetup := setup }, cursor := first, scanLo := first, lastBlock := first }
  have hempty : (s.refresh cfg a).obs.finalized = [] := by
    obtain ⟨_, _, _, _, _, _, hrefresh⟩ := @refresh_frame cfg s a
    rw [hrefresh]
  have hseeded := (@seedIqrHistory_finalized (s.refresh cfg a).obs tallies).trans hempty
  unfold EngineState.start
  dsimp only
  split
  · exact hseeded
  · exact hseeded

/-- After every run the window holds the last rounds that were finalized. -/
theorem window_run {setup : ObserverSetup} {first : Nat} {file : List RoundRecord}
    {tallies : List IqrTally} {a : PauseAnswers}
    (hrun : Effect.Run (EngineStep cfg) (EngineState.start cfg setup first file tallies a) hs s) :
    s.obs.finalized = lastOf setup.windowRounds (finalizedIn (noticesOf hs)) := by
  have hstart := @EngineState.start_started cfg setup first file tallies a
  have hinv : s.obs.toObserverSetup = setup ∧
      s.obs.finalized = lastOf s.obs.windowRounds (finalizedIn (noticesOf hs)) := by
    refine hrun.invariant (fun hs s => s.obs.toObserverSetup = setup ∧
      s.obs.finalized = lastOf s.obs.windowRounds (finalizedIn (noticesOf hs))) ⟨hstart.setup, ?_⟩ ?_
    · rw [EngineState.start_finalized]
      simp [noticesOf, finalizedIn, lastOf]
    · rintro hs u h v - ⟨hsetup, hwindow⟩ hstep
      obtain ⟨hkept, hnext⟩ := hstep.window hwindow
      rw [noticesOf_concat, finalizedIn_append, congrArg ObserverSetup.windowRounds hkept]
      exact ⟨hkept.trans hsetup, hnext⟩
  rw [hinv.2, congrArg ObserverSetup.windowRounds hinv.1]

/-! ## What was in flight -/

omit [FtsoRules] in
/-- What an event writes into the rounds in flight. -/
def EngineState.writes (cfg : EngineConfig) (s : EngineState) : EngineEvent → List (Int × RoundOp)
  | .poll _ => []
  | .block blk fdcLogs fuLogs => s.blockOps cfg blk fdcLogs fuLogs
  | .pause a => if s.scanLo < s.cursor then s.flushOps cfg s.tsMap a.fdcLogs a.fuLogs else []

omit [FtsoRules] in
theorem EngineState.flushTrailing_writes {a : PauseAnswers} :
    (s.flushTrailing cfg a).obs = s.obs.performAll (s.writes cfg (.pause a)) := by
  show _ = s.obs.performAll (if s.scanLo < s.cursor then _ else [])
  unfold EngineState.flushTrailing
  split <;> rfl

/-- A property of new rounds that every write of a run keeps holds of all that is in flight, and of
all that was judged. -/
theorem inFlight_run {setup : ObserverSetup} {first : Nat} {P : List Happening → RoundState → Prop}
    (hstart : EngineState.Started setup first s₀) (hnew : ∀ hs r, P hs { roundId := r })
    (hmono : ∀ hs h rs, P hs rs → P (hs ++ [h]) rs)
    (hwrite : ∀ hs h (s : EngineState) (x : Int × RoundOp) rs, s.obs.toObserverSetup = setup →
      x ∈ s.writes cfg h.event → rs.roundId = x.1 → P (hs ++ [h]) rs →
        P (hs ++ [h]) (x.2.apply rs))
    (hrun : Effect.Run (EngineStep cfg) s₀ hs s) :
    s.obs.toObserverSetup = setup ∧ (∀ r rs, s.obs.rounds.get? r = some rs → P hs rs) ∧
      ∀ rs ∈ finalizedIn (noticesOf hs), ∃ raw, P hs raw ∧
        ObserverState.Judged setup.ourSubmit raw rs := by
  refine hrun.invariant (fun hs s => s.obs.toObserverSetup = setup ∧
    (∀ r rs, s.obs.rounds.get? r = some rs → P hs rs) ∧
      ∀ rs ∈ finalizedIn (noticesOf hs), ∃ raw, P hs raw ∧
        ObserverState.Judged setup.ourSubmit raw rs)
    ⟨hstart.setup, ?_, by simp [noticesOf, finalizedIn]⟩ ?_
  · intro r rs hrs
    rw [hstart.rounds] at hrs
    cases hrs
  · rintro hs u h v - ⟨hsetup, hflight, hjudged⟩ hstep
    have hkeep : ∀ rs ∈ finalizedIn (noticesOf hs), ∃ raw, P (hs ++ [h]) raw ∧
        ObserverState.Judged setup.ourSubmit raw rs := by
      intro rs hrs
      obtain ⟨raw, hraw, hj⟩ := hjudged rs hrs
      exact ⟨raw, hmono hs h raw hraw, hj⟩
    have hwritten : ∀ r rs, (u.obs.performAll (u.writes cfg h.event)).rounds.get? r = some rs →
        P (hs ++ [h]) rs :=
      ObserverState.performAll_forall (hnew _) (fun x hx rs hid => hwrite hs h u x rs hsetup hx hid)
        fun r rs hrs => hmono hs h rs (hflight r rs hrs)
    rw [noticesOf_concat, finalizedIn_append]
    rcases hstep.cases with ⟨head, hevent, rfl, hnotices⟩ |
      ⟨blk, fdcLogs, fuLogs, hevent, rfl, hnotices⟩ | ⟨a, hevent, rfl, hnotices⟩
    · rw [hevent] at hwritten
      rw [poll_obs, hnotices]
      exact ⟨hsetup, hwritten, by simpa [finalizedIn] using hkeep⟩
    · rw [hevent] at hwritten
      have hswept := @ObserverState.sweep_swept (u.gathered cfg blk fdcLogs fuLogs) _ blk.timestamp
      rw [EngineState.block_obs, hnotices, EngineState.block_finalized]
      refine ⟨EngineState.block_obs ▸ EngineState.block_setup.trans hsetup, fun r rs hrs => ?_,
        fun rs hrs => ?_⟩
      · rw [hswept.rounds] at hrs
        split at hrs
        · cases hrs
        · exact hwritten r rs hrs
      · rcases List.mem_append.mp hrs with hrs | hrs
        · exact hkeep rs hrs
        · obtain ⟨raw, hraw, hj⟩ := hswept.judged rs hrs
          rw [congrArg ObserverSetup.ourSubmit (EngineState.gathered_setup.trans hsetup)] at hj
          exact ⟨raw, hwritten _ raw hraw, hj⟩
    · rw [hevent] at hwritten
      have hkept := @EngineState.pause_kept cfg u a
      rw [hnotices]
      refine ⟨hkept.setup.trans (EngineState.flushTrailing_setup.trans hsetup), fun r rs hrs => ?_,
        by simpa [finalizedIn] using hkeep⟩
      rw [hkept.rounds, EngineState.flushTrailing_writes] at hrs
      exact hwritten r rs hrs

/-- Nothing is found wrong with a round while it is in flight. -/
def RoundState.Unjudged (rs : RoundState) : Prop :=
  rs.revealOffence = false ∧ rs.fdcGap = false

/-- What the window says of a round that was judged. -/
structure RoundState.WellJudged (rs : RoundState) : Prop where
  gap : rs.fdcGap = (rs.fdcExpected && !rs.fdcBitvoteSeen)
  offence : rs.noReveal = true → rs.revealOffence = true

theorem finalized_judged {setup : ObserverSetup} {first : Nat}
    (hstart : EngineState.Started setup first s₀) (hrun : Effect.Run (EngineStep cfg) s₀ hs s)
    {rs : RoundState} (hrs : rs ∈ finalizedIn (noticesOf hs)) : rs.WellJudged := by
  have hinv := inFlight_run (P := fun _ => RoundState.Unjudged) hstart (fun _ _ => ⟨rfl, rfl⟩)
    (fun _ _ _ h => h) (fun _ _ _ x _ _ _ _ h => by cases x.2 <;> exact h) hrun
  obtain ⟨raw, ⟨hoffence, hgap⟩, _, _, _, rfl⟩ := hinv.2.2 rs hrs
  refine ⟨?_, fun hmissing => ?_⟩
  · show (raw.fdcGap || _) = _
    rw [hgap, Bool.false_or]
    rfl
  · have hmissing' : (raw.submit1Seen && !raw.submit2Seen) = true := hmissing
    show (raw.revealOffence || (!raw.submit2Seen && raw.submit1Seen) || _) = true
    rw [Bool.and_comm, hmissing', Bool.or_true, Bool.true_or]

end

/-! ## What a green snapshot tells -/

/-- On-time commit and on-time reveal without an offence, and a bitvote if there were requests. -/
def RoundState.Well (rs : RoundState) : Prop :=
  rs.clean = true ∧ (rs.fdcExpected = true → rs.fdcBitvoteSeen = true)

/-- What a snapshot is judged by besides the window. -/
structure ObserveHealth.Undisturbed (h : ObserveHealth) (now : ℚ) : Prop where
  undisputed : h.disputed = false
  written : h.stale now = false
  registered : h.unregistered = false
  budget : h.budgetCrit = false
  epochFdc : h.epochFdcLow = false
  uptime : h.uptimeLow = false
  accounted : h.liveHole = false

theorem ObserveHealth.severity_eq_ok {h : ObserveHealth} {now : ℚ} (henabled : h.enabled = true)
    (herror : h.error = none) : h.severity now = .ok ↔ h.Undisturbed now ∧ h.windowRounds ≠ 0 ∧
      h.offended = false ∧ h.participationLow = false ∧ h.fdcLow = false ∧
        h.isolatedMiss = false := by
  rw [severity_eq henabled]
  constructor
  · intro hok
    split at hok
    · cases hok
    rename_i hnamed
    split at hok
    · cases hok
    rename_i hwindow
    split at hok
    · cases hok
    rename_i hcrit
    split at hok
    · cases hok
    rename_i hwarn
    simp only [named, herror, hwindow, Bool.or_eq_true, Bool.and_eq_true, not_or, bne_iff_ne, ne_eq,
      not_false_eq_true, true_and, Bool.not_eq_true] at hnamed hcrit hwarn
    obtain ⟨⟨⟨⟨⟨-, -⟩, hstale⟩, hreg⟩, hbudget⟩, ⟨hoffended, hpart⟩, hfdc⟩ := hnamed
    exact ⟨⟨hwarn.2, hstale, hreg, hbudget, hcrit.1, hcrit.2, hwarn.1.1⟩, hwindow, hoffended, hpart,
      hfdc, hwarn.1.2⟩
  · rintro ⟨hwell, hwindow, hoffended, hpart, hfdc, hmiss⟩
    simp [named, herror, hwindow, hoffended, hpart, hfdc, hmiss, hwell.undisputed, hwell.written,
      hwell.registered, hwell.budget, hwell.epochFdc, hwell.uptime, hwell.accounted]

/-- All of a positive number is 100%. -/
theorem ratePct_self {n : Int} (h : 0 < n) : ratePct n n = some 100 := by
  rw [ratePct, if_neg (by omega), Py.percent_self h]

/-- The figures of a window are in order exactly if its rounds are. -/
theorem window_well {w : List RoundState} (hw : ∀ rs ∈ w, rs.WellJudged) :
    ((aggregatesOf w).missingSubmit1 = 0 ∧ (aggregatesOf w).missingSubmit2 = 0 ∧
      (aggregatesOf w).offWindow = 0 ∧ (aggregatesOf w).revealOffences = 0 ∧
        (aggregatesOf w).fdcMissing = 0) ↔ ∀ rs ∈ w, rs.Well := by
  simp only [aggregatesOf, List.countP_eq_zero]
  constructor
  · rintro ⟨hcommit, hreveal, houtside, hoffence, hgap⟩ rs hrs
    have h1 := hcommit rs hrs
    have h2 := hreveal rs hrs
    have h3 := houtside rs hrs
    have h4 := hoffence rs hrs
    have h5 := hgap rs hrs
    rw [(hw rs hrs).gap] at h5
    simp only [RoundState.noCommit, RoundState.noReveal, RoundState.outside] at h1 h2 h3
    refine ⟨?_, fun hexpected => ?_⟩
    · unfold RoundState.clean
      cases hs1 : rs.submit1Seen <;> cases hs2 : rs.submit2Seen <;> simp_all
    · simpa [hexpected] using h5
  · intro hwell
    have hclean : ∀ rs ∈ w, rs.submit1Seen = true ∧ rs.submit1Ontime = true ∧
        rs.submit2Seen = true ∧ rs.submit2Ontime = true ∧ rs.revealOffence = false := by
      intro rs hrs
      have h := (hwell rs hrs).1
      simp only [RoundState.clean, Bool.and_eq_true, Bool.not_eq_true'] at h
      exact ⟨h.1.1.1.1, h.1.1.1.2, h.1.1.2, h.1.2, h.2⟩
    refine ⟨fun rs hrs => ?_, fun rs hrs => ?_, fun rs hrs => ?_, fun rs hrs => ?_,
      fun rs hrs => ?_⟩
    · simp [RoundState.noCommit, hclean rs hrs]
    · simp [RoundState.noReveal, hclean rs hrs]
    · simp [RoundState.outside, hclean rs hrs]
    · simp [hclean rs hrs]
    · rw [(hw rs hrs).gap]
      cases hexpected : rs.fdcExpected with
      | false => simp
      | true => simp [(hwell rs hrs).2 hexpected]

/-- Then all of the window counts. -/
theorem window_full {w : List RoundState} (hw : ∀ rs ∈ w, rs.WellJudged)
    (hwell : ∀ rs ∈ w, rs.Well) :
    (aggregatesOf w).complete = (aggregatesOf w).windowRounds ∧
      (aggregatesOf w).fdcParticipated = (aggregatesOf w).fdcRequestRounds := by
  constructor
  · exact List.countP_eq_length.mpr fun rs hrs => (hwell rs hrs).1
  · refine List.countP_congr fun rs hrs => ?_
    simp only [RoundState.takesPart, (hw rs hrs).gap]
    cases hexpected : rs.fdcExpected with
    | false => simp
    | true => simp [(hwell rs hrs).2 hexpected]

theorem not_low_of_full {n m : Int} {floor : ℚ} (hfloor : floor ≤ 100) (h : n = m) :
    below (ratePct n m) floor = false := by
  subst h
  by_cases hpos : 0 < n
  · rw [ratePct_self hpos]
    simpa [below] using hfloor
  · unfold ratePct
    rw [if_pos (by omega)]
    rfl

section

variable [FtsoRules] [Messaging] {cfg : EngineConfig} {setup : ObserverSetup} {first : Nat}
  {file : List RoundRecord} {tallies : List IqrTally} {a : PauseAnswers} {hs : List Happening}
  {s : EngineState}

omit [FtsoRules] [Messaging] in
/-- A snapshot over judged rounds is green exactly if nothing else is wrong, and the rounds are
well. -/
theorem health_ok_iff {w : List RoundState} (hwindow : s.obs.finalized = w)
    (hjudged : ∀ rs ∈ w, rs.WellJudged) (x : StatusInputs) (now : ℚ) :
    (s.health cfg x).severity now = .ok ↔
      (s.health cfg x).Undisturbed now ∧ w ≠ [] ∧ ∀ rs ∈ w, rs.Well := by
  rw [ObserveHealth.severity_eq_ok rfl rfl]
  have hagg : s.obs.aggregates = aggregatesOf w := by rw [ObserverState.aggregates, hwindow]
  refine and_congr_right fun _ => ?_
  have hne : (s.health cfg x).windowRounds ≠ 0 ↔ w ≠ [] := by
    show ((s.obs.aggregates.windowRounds : Nat) : Int) ≠ 0 ↔ _
    rw [hagg]
    simp [aggregatesOf]
  rw [hne, ← window_well hjudged, ← hagg]
  refine and_congr_right fun _ => ⟨?_, fun hzero => ?_⟩
  · rintro ⟨hoffended, -, -, hmiss⟩
    have hoffences : ¬ (0 : Int) < s.obs.aggregates.revealOffences := of_decide_eq_false hoffended
    simp only [ObserveHealth.isolatedMiss, EngineState.health, Bool.or_eq_false_iff,
      bne_eq_false_iff_eq] at hmiss
    omega
  · obtain ⟨hcomplete, hfdc⟩ := window_full hjudged
      ((window_well hjudged).mp (by rw [← hagg]; exact hzero))
    rw [← hagg] at hcomplete hfdc
    obtain ⟨h1, h2, h3, h4, h5⟩ := hzero
    refine ⟨?_, ?_, ?_, ?_⟩
    · simp [ObserveHealth.offended, EngineState.health, h4]
    · exact not_low_of_full (by norm_num [participationCritPct]) (congrArg Int.ofNat hcomplete)
    · have hrate : below (s.health cfg x).fdcParticipationPct fdcCritPct = false :=
        not_low_of_full (by norm_num [fdcCritPct]) (congrArg Int.ofNat hfdc)
      rw [ObserveHealth.fdcLow, hrate, Bool.and_false]
    · simp [ObserveHealth.isolatedMiss, EngineState.health, h1, h2, h3, h5]

/-- The rounds of the window are judged. -/
theorem window_judged
    (hrun : Effect.Run (EngineStep cfg) (EngineState.start cfg setup first file tallies a) hs s) :
    ∀ rs ∈ lastOf setup.windowRounds (finalizedIn (noticesOf hs)), rs.WellJudged :=
  fun _ hrs => finalized_judged EngineState.start_started hrun (List.mem_of_mem_drop hrs)

/-- A snapshot of the engine is green exactly if nothing else is wrong, and each of the last rounds
that were finalized was clean, with a bitvote where there were requests. -/
theorem severity_ok_iff
    (hrun : Effect.Run (EngineStep cfg) (EngineState.start cfg setup first file tallies a) hs s)
    (x : StatusInputs) (now : ℚ) : (s.health cfg x).severity now = .ok ↔
      (s.health cfg x).Undisturbed now ∧
        lastOf setup.windowRounds (finalizedIn (noticesOf hs)) ≠ [] ∧
          ∀ rs ∈ lastOf setup.windowRounds (finalizedIn (noticesOf hs)), rs.Well :=
  health_ok_iff (window_run hrun) (window_judged hrun) x now

end

/-- The commit at 10 s, the reveal at 100 s, and a block at 300 s. -/
def cleanEvents : List EngineEvent :=
  [.poll (some 3), .block ⟨10, [sampleTx "0x6c532fae"]⟩ none none,
    .block ⟨100, [sampleTx "0x9d00c9fd"]⟩ none none, .block ⟨300, []⟩ none none]

/-- A snapshot that nothing else disturbs. -/
def sampleInputs : StatusInputs where
  network := "flare"
  writtenAt := 300
  head := some 3
  validatorNode := none
  quorum := none
  quorumCrit := false

theorem clean_shown :
    let _ := sampleRules
    let _ := sampleMessages
    allowedAll sampleConfig sampleStart cleanEvents = true ∧
      ((after sampleConfig sampleStart cleanEvents).health sampleConfig sampleInputs).severity 310 =
        .ok := by
  decide +kernel

/-- The light is green after a clean round, and tells so. -/
theorem severity_ok_clean :
    let _ := sampleRules
    let _ := sampleMessages
    ((after sampleConfig sampleStart cleanEvents).health sampleConfig sampleInputs).severity 310 =
        .ok ∧
      ∀ rs ∈ lastOf sampleSetup.windowRounds
        (finalizedIn (noticesOf (happenings sampleConfig sampleStart cleanEvents))), rs.Well := by
  intro _ _
  obtain ⟨hallowed, hgreen⟩ := clean_shown
  have hrun := (run_of_allowed hallowed).mono fun _ _ _ h => h.2
  exact ⟨hgreen, ((severity_ok_iff hrun sampleInputs 310).mp hgreen).2.2⟩

/-! ## How the figures add up -/

section

variable {α : Type} {l : List α} {p q r : α → Bool}

theorem countP_le_add (h : ∀ a ∈ l, p a = true → q a = true ∨ r a = true) :
    l.countP p ≤ l.countP q + l.countP r := by
  induction l with
  | nil => simp
  | cons a l ih =>
    have hl := ih fun b hb => h b (List.mem_cons_of_mem a hb)
    have ha := h a (List.mem_cons_self ..)
    simp only [List.countP_cons]
    cases hp : p a <;> cases hq : q a <;> cases hr : r a <;> simp_all <;> omega

theorem countP_add_le (hp : ∀ a ∈ l, p a = true → q a = false ∧ r a = true)
    (hq : ∀ a ∈ l, q a = true → r a = true) : l.countP p + l.countP q ≤ l.countP r := by
  induction l with
  | nil => simp
  | cons a l ih =>
    have hl := ih (fun b hb => hp b (List.mem_cons_of_mem a hb))
      fun b hb => hq b (List.mem_cons_of_mem a hb)
    have hpa := hp a (List.mem_cons_self ..)
    have hqa := hq a (List.mem_cons_self ..)
    simp only [List.countP_cons]
    cases hp' : p a <;> cases hq' : q a <;> cases hr' : r a <;> simp_all <;> omega

/-- The part of a list that a bounded queue keeps, from its other end. -/
theorem lastOf_eq_reverse {n : Nat} : lastOf n l = (l.reverse.take n).reverse := by
  rw [lastOf, List.reverse_take, List.reverse_reverse, List.length_reverse]

end

theorem ratePct_bounds {n m : Int} {x : ℚ} (hn : 0 ≤ n) (hnm : n ≤ m) (h : ratePct n m = some x) :
    0 ≤ x ∧ x ≤ 100 := by
  unfold ratePct at h
  split at h
  · cases h
  · cases h
    exact Py.percent_bounds hn hnm (by omega)

/-- How the figures of the rounds `w` of a window add up. -/
structure Aggregates.Adds (agg : Aggregates) (w : List RoundState) : Prop where
  /-- A round that is clean, or lacks its commit, or only its reveal, is one of the three. -/
  disjoint : agg.complete + agg.missingSubmit1 + agg.missingSubmit2 ≤ agg.windowRounds
  /-- A round that is not clean is counted somewhere. -/
  covered : agg.windowRounds ≤ agg.complete + agg.missingSubmit1 + agg.missingSubmit2 +
    agg.offWindow + agg.revealOffences
  /-- A missing reveal is an offence. -/
  offences : agg.missingSubmit2 ≤ agg.revealOffences
  /-- A round with requests takes part, or is missed. -/
  fdc : agg.fdcParticipated + agg.fdcMissing = agg.fdcRequestRounds
  requests : agg.fdcRequestRounds ≤ agg.windowRounds
  /-- The newest rounds are clean as far as they are counted. -/
  trailing : agg.trailingClean ≤ agg.complete ∧
    ∀ rs ∈ lastOf agg.trailingClean w, rs.clean = true
  bands : agg.iqrInside + agg.iqrBoundary ≤ agg.iqrFeedRounds ∧
    agg.iqrPctHit ≤ agg.iqrFeedRounds ∧ agg.iqrCapped ≤ agg.iqrFeedRounds ∧
      agg.iqrScoredRounds ≤ agg.iqrFeedRounds

theorem countP_true {α : Type} {l : List α} : l.countP (fun _ => true) = l.length := by simp

/-- Every round that is scored has the result of a feed. -/
theorem scored_le {w : List RoundState} : w.countP RoundState.scored ≤
    (w.flatMap fun rs => rs.iqrResults.values).length := by
  induction w with
  | nil => simp
  | cons rs w ih =>
    have hone : rs.scored = true → 1 ≤ rs.iqrResults.values.length := by
      intro hscored
      have hne : rs.iqrResults.entries ≠ [] := by
        intro hempty
        simp [RoundState.scored, hempty] at hscored
      have hpos := List.length_pos_of_ne_nil hne
      rw [Dict.values, List.length_map]
      exact hpos
    rw [List.flatMap_cons, List.length_append, List.countP_cons]
    cases hscored : rs.scored with
    | false => simpa using Nat.le_add_left_of_le ih
    | true =>
      have h := hone hscored
      simp only [if_true]
      omega

theorem adds_of_judged {w : List RoundState} (hw : ∀ rs ∈ w, rs.WellJudged) :
    (aggregatesOf w).Adds w := by
  refine ⟨?_, ?_, ?_, ?_, List.countP_le_length, ?_, ?_, List.countP_le_length,
    List.countP_le_length, scored_le⟩
  · have hmissing : w.countP RoundState.noCommit + w.countP RoundState.noReveal ≤
        w.countP fun rs => !(rs.submit1Seen && rs.submit2Seen) := by
      refine countP_add_le (fun rs _ h => ?_) fun rs _ h => ?_
      · simp only [RoundState.noCommit, Bool.not_eq_true'] at h
        simp [RoundState.noReveal, h]
      · simp only [RoundState.noReveal, Bool.and_eq_true, Bool.not_eq_true'] at h
        simp [h]
    have hall : w.countP RoundState.clean +
        (w.countP fun rs => !(rs.submit1Seen && rs.submit2Seen)) ≤ w.countP fun _ => true := by
      refine countP_add_le (fun rs _ h => ?_) fun _ _ _ => rfl
      simp only [RoundState.clean, Bool.and_eq_true] at h
      simp [h]
    rw [countP_true] at hall
    simp only [aggregatesOf]
    omega
  · have hall : (w.countP fun _ => true) ≤ w.countP RoundState.clean +
        w.countP fun rs => rs.noCommit || rs.noReveal || rs.outside || rs.revealOffence := by
      refine countP_le_add fun rs _ _ => ?_
      simp only [RoundState.clean, RoundState.noCommit, RoundState.noReveal, RoundState.outside]
      cases rs.submit1Seen <;> cases rs.submit2Seen <;> cases rs.submit1Ontime <;>
        cases rs.submit2Ontime <;> cases rs.revealOffence <;> simp
    have hsplit : (w.countP fun rs => rs.noCommit || rs.noReveal || rs.outside || rs.revealOffence)
        ≤ (w.countP fun rs => rs.noCommit || rs.noReveal || rs.outside) +
          w.countP RoundState.revealOffence :=
      countP_le_add fun rs _ h => by simpa using h
    have hsplit' : (w.countP fun rs => rs.noCommit || rs.noReveal || rs.outside)
        ≤ (w.countP fun rs => rs.noCommit || rs.noReveal) + w.countP RoundState.outside :=
      countP_le_add fun rs _ h => by simpa using h
    have hsplit'' : (w.countP fun rs => rs.noCommit || rs.noReveal)
        ≤ w.countP RoundState.noCommit + w.countP RoundState.noReveal :=
      countP_le_add fun rs _ h => by simpa using h
    rw [countP_true] at hall
    simp only [aggregatesOf]
    omega
  · exact List.countP_mono_left fun rs hrs => (hw rs hrs).offence
  · have hlow : w.countP RoundState.takesPart + w.countP RoundState.fdcGap ≤
        w.countP RoundState.fdcExpected := by
      refine countP_add_le (fun rs _ h => ?_) fun rs hrs h => ?_
      · simp only [RoundState.takesPart, Bool.and_eq_true, Bool.not_eq_true'] at h
        exact ⟨h.2, h.1.1⟩
      · rw [(hw rs hrs).gap, Bool.and_eq_true] at h
        exact h.1
    have hhigh : w.countP RoundState.fdcExpected ≤
        w.countP RoundState.takesPart + w.countP RoundState.fdcGap := by
      refine countP_le_add fun rs hrs h => ?_
      rw [RoundState.takesPart, (hw rs hrs).gap, h]
      cases rs.fdcBitvoteSeen <;> simp
    exact le_antisymm hlow hhigh
  · have htaken : ∀ rs ∈ w.reverse.takeWhile RoundState.clean, rs.clean = true := by
      intro rs hrs
      exact List.all_eq_true.mp List.all_takeWhile rs hrs
    refine ⟨?_, fun rs hrs => ?_⟩
    · show (w.reverse.takeWhile RoundState.clean).length ≤ w.countP RoundState.clean
      rw [← List.countP_eq_length.mpr htaken, ← @List.countP_reverse _ _ w]
      exact (List.takeWhile_sublist _).countP_le
    · have hprefix := List.takeWhile_prefix RoundState.clean (l := w.reverse)
      rw [lastOf_eq_reverse, List.mem_reverse] at hrs
      have heq : w.reverse.take (w.reverse.takeWhile RoundState.clean).length =
          w.reverse.takeWhile RoundState.clean := (List.prefix_iff_eq_take.mp hprefix).symm
      have hrs' : rs ∈ w.reverse.take (w.reverse.takeWhile RoundState.clean).length := hrs
      rw [heq] at hrs'
      exact htaken rs hrs'
  · have hbands := @countP_add_le _ (w.flatMap fun rs => rs.iqrResults.values)
      (fun r => decide (r.band = .inside)) (fun r => decide (r.band = .boundary)) (fun _ => true)
      (fun r _ h => by simp_all) fun _ _ _ => rfl
    rw [countP_true] at hbands
    exact hbands

section

variable [FtsoRules] [Messaging] {cfg : EngineConfig} {setup : ObserverSetup} {first : Nat}
  {file : List RoundRecord} {tallies : List IqrTally} {a : PauseAnswers} {hs : List Happening}
  {s : EngineState}

/-- In every run the figures are those of the last rounds that were finalized, and add up over them,
and the rates lie between 0 and 100. -/
theorem window_accounts
    (hrun : Effect.Run (EngineStep cfg) (EngineState.start cfg setup first file tallies a) hs s)
    (x : StatusInputs) :
    s.obs.aggregates = aggregatesOf (lastOf setup.windowRounds (finalizedIn (noticesOf hs))) ∧
      s.obs.aggregates.windowRounds = min setup.windowRounds (finalizedIn (noticesOf hs)).length ∧
      s.obs.aggregates.Adds (lastOf setup.windowRounds (finalizedIn (noticesOf hs))) ∧
      (∀ pct, (s.health cfg x).participationPct = some pct → 0 ≤ pct ∧ pct ≤ 100) ∧
      ∀ pct, (s.health cfg x).fdcParticipationPct = some pct → 0 ≤ pct ∧ pct ≤ 100 := by
  have hagg : s.obs.aggregates = aggregatesOf (lastOf setup.windowRounds
      (finalizedIn (noticesOf hs))) := by rw [ObserverState.aggregates, window_run hrun]
  have hadds := adds_of_judged (window_judged hrun)
  rw [← hagg] at hadds
  refine ⟨hagg, ?_, hadds, fun pct hpct => ?_, fun pct hpct => ?_⟩
  · rw [hagg, ← length_lastOf]
    rfl
  · have hle := hadds.disjoint
    exact ratePct_bounds (Int.natCast_nonneg _)
      (Int.ofNat_le.mpr (by omega : s.obs.aggregates.complete ≤ _)) hpct
  · have hle := hadds.fdc
    exact ratePct_bounds (Int.natCast_nonneg _)
      (Int.ofNat_le.mpr (by omega : s.obs.aggregates.fdcParticipated ≤ _)) hpct

end

theorem window_accounts_clean :
    let _ := sampleRules
    let _ := sampleMessages
    (after sampleConfig sampleStart cleanEvents).obs.aggregates.Adds
      (lastOf sampleSetup.windowRounds
        (finalizedIn (noticesOf (happenings sampleConfig sampleStart cleanEvents)))) := by
  intro _ _
  have hrun := (run_of_allowed clean_shown.1).mono fun _ _ _ h => h.2
  exact (window_accounts hrun sampleInputs).2.2.1

end Observe

end Clif
