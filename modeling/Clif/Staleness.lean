import Clif.Cooldown
import Clif.Raised

/-!
# Staleness — an epoch that stays undone

Only a cycle that returned observes the epochs, while the report is also built after a cycle that
raised.  `staleReported` says in which runs of the daemon an overdue epoch degrades every report.
-/

namespace Clif

open Effect

/-! ## One cycle of the daemon -/

def readsCurrent : Event sig → Option Int
  | ⟨.rpc (.currentRewardEpochId _), .result c⟩ => some c
  | _ => none

/-- The current epochs that were read. -/
def currentReads (t : Trace) : List Int := t.filterMap readsCurrent

section

variable [External]

/-- How a cycle of the daemon leaves the state, the watermark, and what it reports. -/
inductive DaemonOutcome (s : Settings) (p : Process) (now : ℚ) (t : Trace) :
    AutoState → Option Int → Option Int → List EpochObs → Prop
  | unread : DaemonOutcome s p now t p.auto p.lastDone none []
  | raised {c : Int} {ds : List (Int × Except Exc EpochObs)} {x : Exc} {auto : AutoState}
      (hread : c ∈ currentReads t)
      (hspec : CycleSpec (stateKey s.network) now s.epochTerminalCooldownSec p.lastDone c p.auto ds
        (.error x) auto) : DaemonOutcome s p now t auto p.lastDone none []
  | returned {c w : Int} {ds : List (Int × Except Exc EpochObs)} {obs : List EpochObs}
      {auto : AutoState} (hread : c ∈ currentReads t)
      (hspec : CycleSpec (stateKey s.network) now s.epochTerminalCooldownSec p.lastDone c p.auto ds
        (.ok (w, c, obs)) auto) : DaemonOutcome s p now t auto (some w) (some c) obs

/-- A call of `run_cycle` either did not learn the current epoch, or meets the specification. -/
theorem runCycle_outcome {a : DriveArgs} (ha : a.Keyless) {lastDone : Option Int} {cd : Int}
    {m m' : Mem} {st st' : AutoState} {t : Trace} {r : Except Exc (Int × Int × List EpochObs)}
    (h : RunsOn (runCycle a lastDone cd) (m, st) t r (m', st')) :
    ((∃ x, r = .error x) ∧ st' = st) ∨ ∃ c ∈ currentReads t, ∃ ds,
      CycleSpec (stateKey a.settings.network) a.now cd lastDone c st ds r st' := by
  obtain ⟨ans, t', rfl, hr⟩ := runCycleWith_cases h
  rcases hr with ⟨x, -, -, rfl, hu⟩ | ⟨c, r₀, u₁, rfl, hloop, hend⟩
  · cases hu
    exact .inl ⟨⟨x, rfl⟩, rfl⟩
  · obtain ⟨-, ds, hds, -⟩ := cycleLoop_drives (nodup_pyRange _ _) hloop
    have hm : u₁.1 = m' := by
      rcases hend with ⟨x, -, -, hu⟩ | ⟨w, obs, -, -, hu⟩
      · rw [← hu]
      · cases hu
        rfl
    rw [hm] at hds
    have hc : c ∈ currentReads (⟨.rpc (.currentRewardEpochId
        a.settings.net.flareSystemsManager), .result c⟩ :: t') := List.mem_cons_self
    exact .inr ⟨c, hc, ds, runCycleWith_spec (fun e m t r m' => driven_driveEpoch ha)
      (yields_driveEpoch a) h hds⟩

omit [External] in
theorem mem_currentReads_right {c : Int} {t u : Trace} (h : c ∈ currentReads u) :
    c ∈ currentReads (t ++ u) := by
  rw [currentReads, List.filterMap_append]
  exact List.mem_append_right _ h

omit [External] in
theorem mem_currentReads_left {c : Int} {t u : Trace} (h : c ∈ currentReads t) :
    c ∈ currentReads (t ++ u) := by
  rw [currentReads, List.filterMap_append]
  exact List.mem_append_left _ h

/-- The body of the cycle; an exception after `run_cycle` returned is of no call. -/
theorem cycleBody_outcome {s : Settings} {voter : String} {claimers : List (Int × String)}
    {now : ℚ} {p p' : Process} {t : Trace} {r : Except Exc (List EpochObs × Int)}
    (h : RunsOn (cycleBody s voter claimers now) p t r p') :
    match r with
    | .ok (obs, c) => DaemonOutcome s p now t p'.auto p'.lastDone (some c) obs
    | .error e => Foreign e ∨ DaemonOutcome s p now t p'.auto p'.lastDone none [] := by
  have h₁ := runsOn_get_bind.mp h
  rcases runsOn_lift_bind.mp h₁ with ⟨timing, t₁, t₂, rfl, -, h₂⟩ | ⟨e, -, rfl, rfl⟩
  swap
  · exact .inr .unread
  have h₃ := runsOn_modify_bind.mp h₂
  rcases runsOn_bind.mp h₃ with ⟨⟨w, c, obs⟩, t₃, t₄, p₁, rfl, h₄, h₅⟩ | ⟨e, h₄, rfl⟩
  · obtain ⟨⟨m, st⟩, hcycle, rfl⟩ := runsOn_focus.mp h₄
    have hout : DaemonOutcome s p now (t₁ ++ (t₃ ++ t₄)) st (some w) (some c) obs := by
      rcases runCycle_outcome daemonArgs_keyless hcycle with ⟨⟨x, hx⟩, -⟩ | ⟨c', hc', ds, hspec⟩
      · cases hx
      · obtain ⟨rfl, -⟩ := hspec.returned _ _ _ rfl
        exact .returned (mem_currentReads_right (mem_currentReads_left hc')) hspec
    have h₆ := runsOn_modify_bind.mp h₅
    rcases runsOn_bind.mp h₆ with ⟨_, t₅, t₆, p₂, rfl, h₇, h₈⟩ | ⟨e, h₇, rfl⟩
    · obtain ⟨rfl, rfl, rfl⟩ := runsOn_pure.mp h₈
      obtain ⟨m', -, rfl⟩ := runsOn_focus.mp h₇
      exact hout
    · obtain ⟨m', hnarrate, -⟩ := runsOn_focus.mp h₇
      exact .inl (raisesOn_narrate s voter timing _ _ _ _ _ hnarrate)
  · obtain ⟨⟨m, st⟩, hcycle, rfl⟩ := runsOn_focus.mp h₄
    refine .inr ?_
    rcases runCycle_outcome daemonArgs_keyless hcycle with ⟨-, rfl⟩ | ⟨c', hc', ds, hspec⟩
    · exact .unread
    · exact .raised (mem_currentReads_right hc') hspec

/-- A cycle of the daemon that ends with a report. -/
theorem daemonCycle_outcome {s : Settings} {voter : String} {claimers : List (Int × String)}
    {interval : Int} {now reportNow : ℚ} {p p' : Process} {t : Trace} {rep : Report}
    (h : RunsOn (daemonCycle s voter claimers interval now reportNow) p t (.ok rep) p') :
    ∃ auto mark current obs, DaemonOutcome s p now t auto mark current obs ∧
      p'.auto = auto.pruned reportNow ∧ p'.lastDone = mark ∧
      rep = buildEpochReport auto s.network interval s.epochStaleAfterSec mark current obs
        reportNow := by
  obtain ⟨x, t₁, t₂, p₁, rfl, hbody, hreport⟩ := runsOn_attempt_bind.mp h
  have hrep : ∀ current obs, RunsOn (Process.report s interval reportNow current obs) p₁ t₂
      (.ok rep) p' → t₂ = [] ∧ p'.auto = p₁.auto.pruned reportNow ∧ p'.lastDone = p₁.lastDone ∧
        rep = buildEpochReport p₁.auto s.network interval s.epochStaleAfterSec p₁.lastDone current
          obs reportNow := by
    intro current obs hr
    have hget := runsOn_modify_bind.mp (runsOn_get_bind.mp hr)
    obtain ⟨rfl, hrep, rfl⟩ := runsOn_pure.mp hget
    cases hrep
    exact ⟨rfl, rfl, rfl, rfl⟩
  have hout := cycleBody_outcome hbody
  have hfailed : ∀ e, x = .error e → ¬ Foreign e → RunsOn
      (Process.report s interval reportNow none []) p₁ t₂ (.ok rep) p' →
      ∃ auto mark current obs, DaemonOutcome s p now (t₁ ++ t₂) auto mark current obs ∧
        p'.auto = auto.pruned reportNow ∧ p'.lastDone = mark ∧
        rep = buildEpochReport auto s.network interval s.epochStaleAfterSec mark current obs
          reportNow := by
    rintro e rfl he hr
    obtain ⟨rfl, hauto, hmark, hrep⟩ := hrep none [] hr
    rw [List.append_nil]
    exact ⟨_, _, _, _, hout.resolve_left he, hauto, hmark, hrep⟩
  cases x with
  | ok r =>
    obtain ⟨rfl, hauto, hmark, hrep⟩ := hrep (some r.2) r.1 hreport
    rw [List.append_nil]
    exact ⟨_, _, _, _, hout, hauto, hmark, hrep⟩
  | error e =>
    cases e with
    | rpcError msg => exact hfailed _ rfl (fun hf => by cases hf) hreport
    | fwdRetryable st code text => exact hfailed _ rfl (fun hf => by cases hf) hreport
    | _ => cases (runsOn_throw.mp hreport).2.1

/-! ## When an epoch was first seen -/

omit [External] in
/-- The epochs a cycle saw undone were seen then, or before. -/
theorem firstSeen_recordCycle {key : String} {now : ℚ} {obs : List EpochObs} {st : AutoState}
    {e : Int} : ((recordCycle key now obs st).s key).firstSeen.get? e =
      if ∃ o ∈ obs, o.epoch = e ∧ o.done = false then
        some (((st.s key).firstSeen.get? e).getD now) else none := by
  have hmem : e ∈ (obs.filter fun o => !o.done).map (fun o => o.epoch) ↔
      ∃ o ∈ obs, o.epoch = e ∧ o.done = false := by
    simp only [List.mem_map, List.mem_filter, Bool.not_eq_true']
    exact exists_congr fun o => by rw [and_assoc, and_comm (a := o.done = false)]
  have hobs : ((st.observe key ((obs.filter fun o => !o.done).map fun o => o.epoch) now).s
      key).firstSeen.get? e = if ∃ o ∈ obs, o.epoch = e ∧ o.done = false then
        some (((st.s key).firstSeen.get? e).getD now) else none := by
    unfold AutoState.observe
    rw [AutoState.s_update]
    have hgone : e ∈ (st.s key).gone ((obs.filter fun o => !o.done).map fun o => o.epoch) now ↔
        e ∈ ((st.s key).see ((obs.filter fun o => !o.done).map fun o => o.epoch) now).keys ∧
          ¬ ∃ o ∈ obs, o.epoch = e ∧ o.done = false := by
      rw [← hmem, Stream.gone, List.mem_filter, decide_eq_true_eq]
    show (Dict.eraseAll _ _).get? e = _
    rw [Dict.eraseAll, Dict.get?_filterKeys]
    by_cases hund : ∃ o ∈ obs, o.epoch = e ∧ o.done = false
    · have hkeep : e ∉ (st.s key).gone ((obs.filter fun o => !o.done).map fun o => o.epoch) now :=
        fun h => (hgone.mp h).2 hund
      rw [if_pos hund, if_pos (by simpa using hkeep), Stream.see, AutoState.get?_see,
        if_pos (hmem.mpr hund)]
    · rw [if_neg hund]
      split
      · rename_i hkeep
        have hnot : e ∉ (st.s key).gone ((obs.filter fun o => !o.done).map fun o => o.epoch)
            now := by simpa using hkeep
        exact Dict.get?_eq_none.mpr fun hin => hnot (hgone.mpr ⟨hin, hund⟩)
      · rfl
  unfold recordCycle
  dsimp only
  split
  · exact hobs
  · split
    · rw [AutoState.recordSuccess, AutoState.s_update, AutoState.recordAttempt, AutoState.s_update]
      exact hobs
    · rw [AutoState.recordAttempt, AutoState.s_update]
      exact hobs

omit [External] in
/-- A cycle that returned moves the watermark up. -/
theorem CycleSpec.start_le {key : String} {now : ℚ} {cd current : Int} {lastDone : Option Int}
    {st st' : AutoState} {ds : List (Int × Except Exc EpochObs)} {w c : Int} {obs : List EpochObs}
    (h : CycleSpec key now cd lastDone current st ds (.ok (w, c, obs)) st') :
    startWatermark lastDone c ≤ w := by
  obtain ⟨rfl, hmap, rfl, -, -⟩ := h.returned _ _ _ rfl
  rcases advanceMark_eq_or_mem (startWatermark lastDone c) true obs with heq | ⟨o, ho, heq⟩
  · exact heq.ge
  · have hmem : o.epoch ∈ obs.map fun o => o.epoch := List.mem_map_of_mem ho
    rw [hmap] at hmem
    have hlt := (mem_cycleEpochs.mp hmem).1
    omega

namespace DaemonOutcome

omit [External]

variable {s : Settings} {p : Process} {now : ℚ} {t : Trace} {auto : AutoState}
  {mark current : Option Int} {obs : List EpochObs} {e : Int}

theorem mark_le (h : DaemonOutcome s p now t auto mark current obs) {w : Int}
    (hw : w ∈ p.lastDone) : ∃ w' ∈ mark, w ≤ w' := by
  cases h with
  | unread => exact ⟨w, hw, le_rfl⟩
  | raised hread hspec => exact ⟨w, hw, le_rfl⟩
  | returned hread hspec =>
    have hle := hspec.start_le
    rw [startWatermark, hw] at hle
    exact ⟨_, rfl, hle⟩

/-- The epochs on record were seen when some cycle began. -/
theorem seen_le (h : DaemonOutcome s p now t auto mark current obs) {x : ℚ}
    (hx : (auto.s (stateKey s.network)).firstSeen.get? e = some x) :
    x = now ∨ (p.auto.s (stateKey s.network)).firstSeen.get? e = some x := by
  cases h with
  | unread => exact .inr hx
  | raised hread hspec =>
    obtain ⟨hauto, -⟩ := hspec.raised _ rfl
    rw [hauto, firstSeen_recordDrives] at hx
    exact .inr hx
  | returned hread hspec =>
    obtain ⟨-, -, -, -, hauto⟩ := hspec.returned _ _ _ rfl
    rw [hauto, firstSeen_recordCycle] at hx
    split at hx
    · rw [firstSeen_recordDrives] at hx
      cases hold : (p.auto.s (stateKey s.network)).firstSeen.get? e with
      | none =>
        rw [hold] at hx
        exact .inl (Option.some.inj hx).symm
      | some y =>
        rw [hold] at hx
        exact .inr hx
    · cases hx

/-- An undone epoch above the watermark and in the window stays on record, and is put there by a
cycle that returns. -/
theorem seen (h : DaemonOutcome s p now t auto mark current obs)
    (hwin : ∀ c ∈ currentReads t, e < c ∧ c - maxCatchup ≤ e) (h0 : 0 ≤ e)
    (hmark : ∀ w ∈ mark, w < e) (hund : ∀ o ∈ obs, o.epoch = e → o.done = false) :
    (∀ x, (p.auto.s (stateKey s.network)).firstSeen.get? e = some x →
      (auto.s (stateKey s.network)).firstSeen.get? e = some x) ∧
    (current ≠ none → ∃ x, (auto.s (stateKey s.network)).firstSeen.get? e = some x) := by
  cases h with
  | unread => exact ⟨fun x hx => hx, fun hc => absurd rfl hc⟩
  | raised hread hspec =>
    obtain ⟨hauto, -⟩ := hspec.raised _ rfl
    rw [hauto, firstSeen_recordDrives]
    exact ⟨fun x hx => hx, fun hc => absurd rfl hc⟩
  | @returned c w ds obs auto hread hspec =>
    obtain ⟨-, hmap, -, -, hauto⟩ := hspec.returned _ _ _ rfl
    have hstart := hspec.start_le
    have hlt := hmark _ rfl
    obtain ⟨hc, hcap⟩ := hwin _ hread
    have hin : e ∈ obs.map fun o => o.epoch := by
      rw [hmap, mem_cycleEpochs]
      omega
    obtain ⟨o, ho, he⟩ := List.mem_map.mp hin
    rw [hauto, firstSeen_recordCycle, if_pos ⟨o, ho, he, hund o ho he⟩, firstSeen_recordDrives]
    refine ⟨fun x hx => ?_, fun _ => ⟨_, rfl⟩⟩
    rw [hx]
    rfl

end DaemonOutcome

/-! ## Runs of the daemon -/

/-- One cycle: when it began, when its report was built, the current epoch of the chain when it
began, what it exchanged, and its report. -/
structure DaemonEvent where
  now : ℚ
  reportNow : ℚ
  chain : Int
  trace : Trace
  rep : Report

namespace DaemonEvent

omit [External]

/-- The report of a cycle that returned tells the current epoch. -/
def Returned (ev : DaemonEvent) : Prop := ev.rep.currentEpoch ≠ none

/-- The report shows the epoch as done. -/
def ShowsDone (ev : DaemonEvent) (e : Int) : Prop := ∃ v ∈ ev.rep.epochs, v.epoch = e ∧ v.done = true

end DaemonEvent

/-- A cycle of the daemon that ends with a report. -/
def DaemonStep (s : Settings) (voter : String) (claimers : List (Int × String)) (interval : Int)
    (p : Process) (ev : DaemonEvent) (p' : Process) : Prop :=
  RunsOn (daemonCycle s voter claimers interval ev.now ev.reportNow) p ev.trace (.ok ev.rep) p'

omit [External] in
/-- What happens in order: the clock and the chain only go on. -/
structure InOrder (es : List DaemonEvent) : Prop where
  within : ∀ ev ∈ es, ev.now ≤ ev.reportNow ∧ ∀ c ∈ currentReads ev.trace, ev.chain ≤ c
  clock : es.Pairwise fun ev ev' => ev.reportNow ≤ ev'.now
  chain : es.Pairwise fun ev ev' => ev.chain ≤ ev'.chain

/-- The cycles `win`, the first of which is the first to begin after the epoch closed, leave it
undone for more than `stale` seconds, above the watermark and inside the catch-up window. -/
structure Overdue (stale : Int) (es : List DaemonEvent) (e : Int) (win : List DaemonEvent)
    (last : DaemonEvent) : Prop where
  cycles : ∃ pre post, es = pre ++ (win ++ [last]) ++ post ∧ ∀ ev ∈ pre, ev.chain ≤ e
  nonneg : 0 ≤ e
  since : ∃ first ∈ (win ++ [last]).head?, e < first.chain ∧ stale < last.reportNow - first.now
  undone : ∀ ev ∈ win ++ [last], ¬ ev.ShowsDone e
  capped : ∀ ev ∈ win ++ [last], ∀ c ∈ currentReads ev.trace, c - maxCatchup ≤ e
  above : startWatermark last.rep.lastDoneEpoch last.chain < e

/-- The report built while an epoch is overdue is degraded. -/
def StaleReported (stale : Int) (es : List DaemonEvent) : Prop :=
  ∀ e win last, Overdue stale es e win last → last.rep.degraded = true

/-- While an epoch is overdue, one of its cycles that began more than `stale` seconds before the
report returned. -/
def Heeded (stale : Int) (es : List DaemonEvent) : Prop :=
  ∀ e win last, Overdue stale es e win last →
    ∃ ev ∈ win ++ [last], ev.Returned ∧ stale < last.reportNow - ev.now

section

variable {s : Settings} {voter : String} {claimers : List (Int × String)} {interval : Int}
  {p p' : Process} {es : List DaemonEvent} {ev : DaemonEvent} {e : Int}

/-- What a step of the daemon leaves, and its report. -/
theorem DaemonStep.outcome (h : DaemonStep s voter claimers interval p ev p') :
    ∃ auto current obs, DaemonOutcome s p ev.now ev.trace auto p'.lastDone current obs ∧
      p'.auto = auto.pruned ev.reportNow ∧
      ev.rep = buildEpochReport auto s.network interval s.epochStaleAfterSec p'.lastDone current obs
        ev.reportNow := by
  obtain ⟨auto, mark, current, obs, hout, hauto, rfl, hrep⟩ := daemonCycle_outcome h
  exact ⟨auto, current, obs, hout, hauto, hrep⟩

/-- The watermark only goes up. -/
theorem daemonRun_mark (h : Run (DaemonStep s voter claimers interval) p es p') {w : Int}
    (hw : w ∈ p.lastDone) : ∃ w' ∈ p'.lastDone, w ≤ w' := by
  induction h with
  | nil => exact ⟨w, hw, le_rfl⟩
  | snoc h hs ih =>
    obtain ⟨w₁, hw₁, hle₁⟩ := ih
    obtain ⟨auto, current, obs, hout, -, -⟩ := hs.outcome
    obtain ⟨w₂, hw₂, hle₂⟩ := hout.mark_le hw₁
    exact ⟨w₂, hw₂, hle₁.trans hle₂⟩

/-- The epochs of a process were seen when one of its cycles began. -/
theorem daemonRun_seen {w₀ : Option Int} {T : ℚ}
    (h : Run (DaemonStep s voter claimers interval) { lastDone := w₀ } es p')
    (hT : ∀ ev ∈ es, ev.now ≤ T) {x : ℚ}
    (hx : (p'.auto.s (stateKey s.network)).firstSeen.get? e = some x) : x ≤ T := by
  induction h with
  | nil => cases hx
  | @snoc es p₁ ev p₂ h hs ih =>
    obtain ⟨auto, current, obs, hout, hauto, -⟩ := hs.outcome
    rw [hauto, AutoState.s_pruned] at hx
    rcases hout.seen_le hx with rfl | hold
    · exact hT ev (List.mem_append_right _ (List.mem_singleton_self ev))
    · exact ih (fun ev' h' => hT ev' (List.mem_append_left _ h')) hold

/-- What an epoch needs to be observed by a cycle: it is closed, inside the window, and not done. -/
structure Observable (e : Int) (ev : DaemonEvent) : Prop where
  closed : ∀ c ∈ currentReads ev.trace, e < c ∧ c - maxCatchup ≤ e
  undone : ¬ ev.ShowsDone e

theorem DaemonStep.seen (h : DaemonStep s voter claimers interval p ev p') (h0 : 0 ≤ e)
    (hp : Observable e ev) (hmark : ∀ w ∈ p'.lastDone, w < e) :
    (∀ x, (p.auto.s (stateKey s.network)).firstSeen.get? e = some x →
      (p'.auto.s (stateKey s.network)).firstSeen.get? e = some x) ∧
    (ev.Returned → ∃ x, (p'.auto.s (stateKey s.network)).firstSeen.get? e = some x) ∧
    (∀ x, (p'.auto.s (stateKey s.network)).firstSeen.get? e = some x →
      (s.epochStaleAfterSec : ℚ) < ev.reportNow - x → ev.rep.degraded = true) := by
  obtain ⟨auto, current, obs, hout, hauto, hrep⟩ := h.outcome
  have hund : ∀ o ∈ obs, o.epoch = e → o.done = false := by
    intro o ho he
    by_contra hd
    refine hp.undone ⟨o.view, ?_, he, Bool.eq_true_of_not_eq_false hd⟩
    rw [hrep]
    exact List.mem_map_of_mem ho
  obtain ⟨hkeep, hsee⟩ := hout.seen hp.closed h0 hmark hund
  rw [hauto, AutoState.s_pruned]
  refine ⟨hkeep, fun hr => hsee ?_, fun x hx hstale => ?_⟩
  · unfold DaemonEvent.Returned at hr
    rw [hrep] at hr
    exact hr
  · rw [hrep]
    exact AutoState.evaluate_iff.mpr ⟨_, e, x, hx, .inl hstale⟩

theorem DaemonStep.marked (h : DaemonStep s voter claimers interval p ev p') (hr : ev.Returned) :
    ∃ w, w ∈ p'.lastDone := by
  obtain ⟨auto, current, obs, hout, -, hrep⟩ := h.outcome
  unfold DaemonEvent.Returned at hr
  rw [hrep] at hr
  generalize p'.lastDone = mark at hout
  cases hout with
  | unread => exact absurd rfl hr
  | raised hread hspec => exact absurd rfl hr
  | returned hread hspec => exact ⟨_, rfl⟩

/-- What a process knows of the epoch stays on record over cycles that can observe it. -/
theorem daemonRun_keeps (h : Run (DaemonStep s voter claimers interval) p es p') (h0 : 0 ≤ e)
    (hobs : ∀ ev ∈ es, Observable e ev) (hsome : ∃ w, w ∈ p.lastDone)
    (hmark : ∀ w ∈ p'.lastDone, w < e) {x : ℚ}
    (hx : (p.auto.s (stateKey s.network)).firstSeen.get? e = some x) :
    (p'.auto.s (stateKey s.network)).firstSeen.get? e = some x := by
  induction h with
  | nil => exact hx
  | @snoc es p₁ ev p₂ h hs ih =>
    obtain ⟨w, hw⟩ := hsome
    obtain ⟨w₁, hw₁, -⟩ := daemonRun_mark h hw
    obtain ⟨w₂, hw₂, hle⟩ := daemonRun_mark (.single hs) hw₁
    have hmark₁ : ∀ v ∈ p₁.lastDone, v < e := by
      intro v hv
      rw [Option.mem_unique hv hw₁]
      exact lt_of_le_of_lt hle (hmark w₂ hw₂)
    have hlast : Observable e ev := hobs ev (List.mem_append_right _ (List.mem_singleton_self ev))
    exact (hs.seen h0 hlast hmark).1 x
      (ih (fun ev' h' => hobs ev' (List.mem_append_left _ h')) hmark₁)

/-- **In a run in which no overdue epoch went unobserved, every report built while an epoch is
overdue is degraded.** -/
theorem staleReported {w₀ : Option Int}
    (h : Run (DaemonStep s voter claimers interval) { lastDone := w₀ } es p')
    (hord : InOrder es) (hheeded : Heeded s.epochStaleAfterSec es) :
    StaleReported s.epochStaleAfterSec es := by
  intro e win last hover
  obtain ⟨ev, hev, hret, hstale⟩ := hheeded e win last hover
  obtain ⟨⟨pre, post, rfl, -⟩, h0, ⟨first, hfirst, hclosed, -⟩, hundone, hcapped, habove⟩ := hover
  have hobs : ∀ ev' ∈ win ++ [last], Observable e ev' := by
    intro ev' hev'
    refine ⟨fun c hc => ⟨?_, hcapped ev' hev' c hc⟩, hundone ev' hev'⟩
    have hchain : first.chain ≤ ev'.chain := by
      obtain ⟨hpre, -, -⟩ := List.pairwise_append.mp hord.chain
      obtain ⟨-, hwin, -⟩ := List.pairwise_append.mp hpre
      obtain ⟨tail, htail⟩ := List.head?_eq_some_iff.mp hfirst
      rw [htail] at hwin hev'
      rcases List.mem_cons.mp hev' with rfl | hmem
      · exact le_rfl
      · exact (List.pairwise_cons.mp hwin).1 ev' hmem
    have hmem : ev' ∈ pre ++ (win ++ [last]) ++ post :=
      List.mem_append_left _ (List.mem_append_right _ hev')
    have hread := (hord.within ev' hmem).2 c hc
    omega
  obtain ⟨q, hq, -⟩ := h.append_inv
  obtain ⟨p₃, -, hlast⟩ := @Run.snoc_inv _ _ _ _ (pre ++ win) _ _ (by rwa [List.append_assoc])
  have hmark : ∀ w ∈ q.lastDone, w < e := by
    intro w hw
    obtain ⟨auto, current, obs, -, -, hrep⟩ := hlast.outcome
    rw [hrep] at habove
    change startWatermark q.lastDone last.chain < e at habove
    rw [startWatermark, hw] at habove
    exact habove
  obtain ⟨mid, rest, hsplit⟩ := List.append_of_mem hev
  rw [hsplit, ← List.append_assoc] at hq
  rw [hsplit] at hobs
  obtain ⟨p₁, h₁, h₂⟩ := hq.append_inv
  obtain ⟨p₂, hs, hrest⟩ := h₂.cons_inv
  obtain ⟨w, hw⟩ := hs.marked hret
  obtain ⟨w', hw', hle⟩ := daemonRun_mark hrest hw
  have hmark₂ : ∀ v ∈ p₂.lastDone, v < e := by
    intro v hv
    rw [Option.mem_unique hv hw]
    exact lt_of_le_of_lt hle (hmark w' hw')
  obtain ⟨x, hx⟩ := (hs.seen h0 (hobs ev (List.mem_append_right _ List.mem_cons_self)) hmark₂).2.1
    hret
  have hxle : x ≤ ev.now := by
    refine daemonRun_seen (h₁.snoc hs) (fun ev' hev' => ?_) hx
    rcases List.mem_append.mp hev' with hev' | hev'
    · have hclock := hord.clock
      have hin : ev' ∈ pre ++ (win ++ [last]) ++ post := by
        rw [hsplit]
        simp only [List.mem_append] at hev' ⊢
        tauto
      rw [hsplit, show pre ++ (mid ++ ev :: rest) ++ post = (pre ++ mid) ++ ev :: (rest ++ post) by
        simp] at hclock
      obtain ⟨-, -, hbefore⟩ := List.pairwise_append.mp hclock
      exact (hord.within ev' hin).1.trans (hbefore ev' hev' ev List.mem_cons_self)
    · rw [List.mem_singleton.mp hev']
  have hxq := daemonRun_keeps hrest h0
    (fun ev' h' => hobs ev' (List.mem_append_right _ (List.mem_cons_of_mem _ h'))) ⟨w, hw⟩ hmark hx
  refine (hlast.seen h0 ?_ hmark).2.2 x hxq (by linarith)
  rw [← hsplit] at hobs
  exact hobs last (List.mem_append_right _ (List.mem_singleton_self last))

end

end

/-! ### A chain that falls silent -/

/-- A cycle of the daemon in the world `env`, from the watermark 4. -/
def daemonExec (env : (op : Op) → op.Ans) (now reportNow : ℚ) (auto : AutoState) :
    Trace × Except Exc Report × Process :=
  execOn (S := sig) env (@daemonCycle External.static {} bareArgs.voter [] 1800 now reportNow)
    { lastDone := some 4, auto := auto }

def silentReport (reportNow : ℚ) (auto : AutoState) : Report :=
  buildEpochReport auto .flare 1800 86400 (some 4) none [] reportNow

/-- Epoch 5 has closed, but nothing can be read. -/
def silentEvent (now reportNow : ℚ) (auto : AutoState) : DaemonEvent :=
  ⟨now, reportNow, 6, (daemonExec deafWorld now reportNow auto).1, silentReport reportNow auto⟩

theorem silentStep (now reportNow : ℚ) (auto : AutoState) :
    @DaemonStep External.static {} bareArgs.voter [] 1800 { lastDone := some 4, auto := auto }
      (silentEvent now reportNow auto)
      { lastDone := some 4, auto := auto.pruned reportNow } :=
  execOn_runs (S := sig) deafWorld
    (@daemonCycle External.static {} bareArgs.voter [] 1800 now reportNow)
    { lastDone := some 4, auto := auto }

/-- Two cycles in order. -/
theorem inOrder_two {ev ev' : DaemonEvent} (h₁ : ev.now ≤ ev.reportNow)
    (h₂ : ev'.now ≤ ev'.reportNow) (h₃ : ev.reportNow ≤ ev'.now) (h₄ : ev.chain ≤ ev'.chain)
    (hr : ∀ c ∈ currentReads ev.trace, ev.chain ≤ c)
    (hr' : ∀ c ∈ currentReads ev'.trace, ev'.chain ≤ c) : InOrder [ev, ev'] where
  within := by
    intro ev₀ hev
    simp only [List.mem_cons, List.not_mem_nil, or_false] at hev
    rcases hev with rfl | rfl
    · exact ⟨h₁, hr⟩
    · exact ⟨h₂, hr'⟩
  clock := by simpa using h₃
  chain := by simpa using h₄

/-- A day later the epoch is overdue, and the report is healthy. -/
theorem silentChain_healthy : ∃ ds p', Run (@DaemonStep External.static {} bareArgs.voter [] 1800)
      { lastDone := some 4 } ds p' ∧ InOrder ds ∧ ¬ StaleReported 86400 ds := by
  have hdeg : (silentReport 90001 (({} : AutoState).pruned 1)).degraded = false := by
    decide +kernel
  have hreads₁ : currentReads (silentEvent 0 1 {}).trace = [] := by rfl
  have hreads₂ : currentReads (silentEvent 90000 90001 (({} : AutoState).pruned 1)).trace = [] := by
    rfl
  have hpair : ∀ {φ : DaemonEvent → Prop}, φ (silentEvent 0 1 {}) →
      φ (silentEvent 90000 90001 (({} : AutoState).pruned 1)) →
      ∀ ev ∈ [silentEvent 0 1 {}] ++ [silentEvent 90000 90001 (({} : AutoState).pruned 1)],
        φ ev := by
    intro φ h₁ h₂ ev hev
    simp only [List.cons_append, List.nil_append, List.mem_cons, List.not_mem_nil, or_false] at hev
    rcases hev with rfl | rfl
    · exact h₁
    · exact h₂
  refine ⟨[silentEvent 0 1 {}, silentEvent 90000 90001 (({} : AutoState).pruned 1)], _,
    .snoc (.single (silentStep 0 1 {})) (silentStep 90000 90001 _), ?_, fun hrep => ?_⟩
  · refine inOrder_two ?_ ?_ ?_ le_rfl (by simp [hreads₁]) (by simp [hreads₂])
    · show (0 : ℚ) ≤ 1
      norm_num
    · show (90000 : ℚ) ≤ 90001
      norm_num
    · show (1 : ℚ) ≤ 90000
      norm_num
  · have hover : Overdue 86400
        [silentEvent 0 1 {}, silentEvent 90000 90001 (({} : AutoState).pruned 1)] 5
        [silentEvent 0 1 {}] (silentEvent 90000 90001 (({} : AutoState).pruned 1)) :=
      { cycles := ⟨[], [], rfl, fun ev hev => by cases hev⟩
        nonneg := by decide
        since := ⟨_, rfl, by decide, by
          show ((86400 : Int) : ℚ) < 90001 - 0
          norm_num⟩
        undone := hpair (fun ⟨v, hv, _⟩ => by cases hv) fun ⟨v, hv, _⟩ => by cases hv
        capped := hpair (by simp [hreads₁]) (by simp [hreads₂])
        above := by decide }
    have hdegraded := hrep _ _ _ hover
    rw [show (silentEvent 90000 90001 (({} : AutoState).pruned 1)).rep.degraded = false from hdeg]
      at hdegraded
    cases hdegraded

/-- The node answers the current epoch, the timing and the views, and the votes of the network are
missing. -/
def answeringWorld : (op : Op) → op.Ans
  | .rpc (.currentRewardEpochId _) => .result 6
  | .rpc (.firstRewardEpochStartTs _) => .result 0
  | .rpc (.rewardEpochDurationSeconds _) => .result 1
  | .rpc (.rewardsHash _ _) => .result zeroBytes32
  | .rpc (.voterRewardsSignInfo ..) => .result (1, 1)
  | op => deafWorld op

/-- The state after a first cycle in that world: epoch 5 was seen. -/
def answeredProcess : Process := (daemonExec answeringWorld 0 1 {}).2.2

def answeredEvent : DaemonEvent :=
  ⟨0, 1, 6, (daemonExec answeringWorld 0 1 {}).1,
    (daemonExec answeringWorld 0 1 {}).2.1.toOption.getD (silentReport 1 {})⟩

theorem answeredStep : @DaemonStep External.static {} bareArgs.voter [] 1800 { lastDone := some 4 }
    answeredEvent answeredProcess := by
  have h := execOn_runs (S := sig) answeringWorld
    (@daemonCycle External.static {} bareArgs.voter [] 1800 0 1) { lastDone := some 4 }
  have hrep : (execOn (S := sig) answeringWorld
      (@daemonCycle External.static {} bareArgs.voter [] 1800 0 1) { lastDone := some 4 }).2.1 =
      .ok answeredEvent.rep := by
    with_unfolding_all rfl
  rw [hrep] at h
  exact h

/-- A later cycle that reads nothing. -/
def laterEvent : DaemonEvent :=
  ⟨90000, 90001, 6, (execOn (S := sig) deafWorld
    (@daemonCycle External.static {} bareArgs.voter [] 1800 90000 90001) answeredProcess).1,
    silentReport 90001 answeredProcess.auto⟩

theorem laterStep : @DaemonStep External.static {} bareArgs.voter [] 1800 answeredProcess laterEvent
    { answeredProcess with auto := answeredProcess.auto.pruned 90001 } := by
  have h := execOn_runs (S := sig) deafWorld
    (@daemonCycle External.static {} bareArgs.voter [] 1800 90000 90001) answeredProcess
  have hrun : execOn (S := sig) deafWorld
      (@daemonCycle External.static {} bareArgs.voter [] 1800 90000 90001) answeredProcess =
      (laterEvent.trace, .ok laterEvent.rep,
        { answeredProcess with auto := answeredProcess.auto.pruned 90001 }) := by
    with_unfolding_all rfl
  rw [hrun] at h
  exact h

theorem staleReported_seen : StaleReported 86400 [answeredEvent, laterEvent] := by
  have hcurrent : answeredEvent.rep.currentEpoch = some 6 := by with_unfolding_all rfl
  have hreads₁ : currentReads answeredEvent.trace = [6] := by with_unfolding_all rfl
  have hreads₂ : currentReads laterEvent.trace = [] := by with_unfolding_all rfl
  let _ := External.static
  refine staleReported (s := {}) (.snoc (.single answeredStep) laterStep)
    (inOrder_two ?_ ?_ ?_ le_rfl ?_ ?_) fun e win last hover => ?_
  · show (0 : ℚ) ≤ 1
    norm_num
  · show (90000 : ℚ) ≤ 90001
    norm_num
  · show (1 : ℚ) ≤ 90000
    norm_num
  · rw [hreads₁]
    exact fun c hc => (List.mem_singleton.mp hc).ge
  · simp [hreads₂]
  · -- the first cycle of the window is the one that returned
    obtain ⟨⟨pre, post, hes, -⟩, -, ⟨first, hfirst, -, hstale⟩, -, -, -⟩ := hover
    have hin : ∀ ev ∈ win ++ [last], ev = answeredEvent ∨ ev = laterEvent := by
      intro ev hev
      have hmem : ev ∈ [answeredEvent, laterEvent] := by
        rw [hes]
        exact List.mem_append_left _ (List.mem_append_right _ hev)
      simpa using hmem
    have hmem := List.mem_of_mem_head? hfirst
    rcases hin first hmem with rfl | rfl
    · refine ⟨_, hmem, ?_, hstale⟩
      rw [DaemonEvent.Returned, hcurrent]
      exact Option.some_ne_none _
    · rcases hin last (List.mem_append_right _ (List.mem_singleton_self last)) with rfl | rfl
      · change ((86400 : Int) : ℚ) < 1 - 90000 at hstale
        norm_num at hstale
      · change ((86400 : Int) : ℚ) < 90001 - 90000 at hstale
        norm_num at hstale

end Clif
