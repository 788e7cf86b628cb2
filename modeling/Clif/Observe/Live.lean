import Mathlib.Order.Monotone.Basic
import Clif.Observe.EngineSteps

/-!
# Observe.Live — a round that is still open is never lost

No round in flight lies far ahead of the last block, so the ceiling on their number never reaches a
round whose windows are open: what is written into it stays (`gathered_get?`, `flushed_get?`).
-/

namespace Clif.Observe

/-! ## Times and rounds -/

namespace VotingFactory.Lawful

variable {f : VotingFactory} (hf : f.Lawful) {r r' t t' : Int}

include hf

theorem startS_le (h : r ≤ r') : f.startS r ≤ f.startS r' :=
  (strictMono_int_of_lt_succ hf.next).monotone h

theorem roundAt_le_roundAt (h : t ≤ t') : f.roundAt t ≤ f.roundAt t' := by
  by_contra hlt
  have hle : f.roundAt t' + 1 ≤ f.roundAt t := by omega
  have hstart := hf.startS_le hle
  have hin := (hf.inside t).1
  have hout := (hf.inside t').2
  omega

/-- While a round is open, the time is in the second round after it at the latest. -/
theorem roundAt_le_of_open (h : f.due r t = false) : f.roundAt t ≤ r + 2 := by
  simp only [VotingFactory.due, decide_eq_false_iff_not, not_lt] at h
  have hend := (hf.ends (r + 1)).2
  by_contra hlt
  have hle : r + 1 + 1 + 1 ≤ f.roundAt t := by omega
  have hstart := hf.startS_le hle
  have hnext := hf.next (r + 1 + 1)
  have hin := (hf.inside t).1
  omega

/-- A round is open during its own time. -/
theorem open_roundAt : f.due (f.roundAt t) t = false := by
  simp only [VotingFactory.due, decide_eq_false_iff_not, not_lt]
  have hin := (hf.inside t).2
  have hend := (hf.ends (f.roundAt t + 1)).1
  omega

end VotingFactory.Lawful

theorem VotingFactory.open_of_le {f : VotingFactory} {r t t' : Int} (h : t ≤ t')
    (hopen : f.due r t' = false) : f.due r t = false := by
  simp only [VotingFactory.due, decide_eq_false_iff_not, not_lt] at hopen ⊢
  omega

/-! ## How far ahead rounds can be -/

/-- Before the first block nothing is in flight and no events wait; then nothing in flight is far
ahead of the last block. -/
structure Ahead (s : EngineState) : Prop where
  before : s.obs.lastTs = none → s.obs.rounds = Keyed.empty ∧ s.scanLo = s.cursor
  after : ∀ last, s.obs.lastTs = some last →
    s.obs.Bounded (s.obs.factory.roundAt last + futureRoundMargin)

/-- The first block, which no guard protects, names no round that is far ahead. -/
def FirstNear [Messaging] (cfg : EngineConfig) (s : EngineState) (h : Happening) : Prop :=
  ∀ blk fdcLogs fuLogs, h.event = .block blk fdcLogs fuLogs → s.obs.lastTs = none →
    ∀ x ∈ s.blockOps cfg blk fdcLogs fuLogs,
      x.1 ≤ s.obs.factory.roundAt blk.timestamp + futureRoundMargin

theorem accepts_of_last {st : ObserverState} {last : Int} (hlast : st.lastTs = some last)
    (ops : List (Int × RoundOp)) :
    st.Accepts (st.factory.roundAt last + futureRoundMargin) ops := by
  intro x _ hfar
  simpa [ObserverState.tooFar, ObserverState.currentRound, hlast] using hfar

theorem bounded_empty {st : ObserverState} (h : st.rounds = Keyed.empty) (B : Int) :
    st.Bounded B := by
  intro k hk
  rw [h] at hk
  cases hk

variable [FtsoRules] [Messaging] {cfg : EngineConfig} {s s' s₀ : EngineState} {h : Happening}
  {hs : List Happening} {blk : Block} {fdcLogs fuLogs : Option (List Nat)} {r : Int}

omit [FtsoRules] in
/-- Where the rounds in flight are when a block is recorded: the bound that what is accepted keeps
to. -/
theorem block_bound (hahead : Ahead s)
    (hfirst : s.obs.lastTs = none → ∀ x ∈ s.blockOps cfg blk fdcLogs fuLogs,
      x.1 ≤ s.obs.factory.roundAt blk.timestamp + futureRoundMargin) :
    ∃ now, (∀ last, s.obs.lastTs = some last → now = last) ∧
      (s.obs.lastTs = none → now = blk.timestamp) ∧
      s.obs.Bounded (s.obs.factory.roundAt now + futureRoundMargin) ∧
      s.obs.Accepts (s.obs.factory.roundAt now + futureRoundMargin)
        (s.blockOps cfg blk fdcLogs fuLogs) := by
  cases hlast : s.obs.lastTs with
  | none =>
    refine ⟨blk.timestamp, by simp, by simp, ?_, fun x hx _ => hfirst hlast x hx⟩
    exact bounded_empty (hahead.before hlast).1 _
  | some last =>
    refine ⟨last, by simp, by simp, hahead.after last hlast, accepts_of_last hlast _⟩

omit [FtsoRules] in
/-- What a block leaves of an open round is what is written into it. -/
theorem gathered_get? (hf : s.obs.factory.Lawful) (hahead : Ahead s)
    (hfirst : s.obs.lastTs = none → ∀ x ∈ s.blockOps cfg blk fdcLogs fuLogs,
      x.1 ≤ s.obs.factory.roundAt blk.timestamp + futureRoundMargin)
    (hopen : ∀ last, s.obs.lastTs = some last → s.obs.factory.due r last = false)
    (hopen' : s.obs.lastTs = none → s.obs.factory.due r blk.timestamp = false) :
    (s.gathered cfg blk fdcLogs fuLogs).rounds.get? r =
      (ObserverState.opsFor r (s.blockOps cfg blk fdcLogs fuLogs)).foldl
        (ObserverState.written (s.obs.tooFar r) r) (s.obs.rounds.get? r) := by
  obtain ⟨now, hsome, hnone, hbound, haccepts⟩ := block_bound hahead hfirst
  refine ObserverState.performAll_get? hbound haccepts ?_
  have hnow : s.obs.factory.due r now = false := by
    cases hlast : s.obs.lastTs with
    | none => rw [hnone hlast, hopen' hlast]
    | some last => rw [hsome last hlast, hopen last hlast]
  have hround := hf.roundAt_le_of_open hnow
  have hmargin : futureRoundMargin = 4 := rfl
  have hcap : roundsCap = 512 := rfl
  omega

omit [FtsoRules] [Messaging] in
/-- Likewise what the events of a pause leave. -/
theorem flushed_get? {a : PauseAnswers} (hf : s.obs.factory.Lawful) (hahead : Ahead s)
    (hopen : ∀ last, s.obs.lastTs = some last → s.obs.factory.due r last = false)
    (hflush : s.scanLo < s.cursor) :
    (s.flushTrailing cfg a).obs.rounds.get? r =
      (ObserverState.opsFor r (s.flushOps cfg s.tsMap a.fdcLogs a.fuLogs)).foldl
        (ObserverState.written (s.obs.tooFar r) r) (s.obs.rounds.get? r) := by
  cases hlast : s.obs.lastTs with
  | none =>
    have hscan := (hahead.before hlast).2
    omega
  | some last =>
    unfold EngineState.flushTrailing
    rw [if_pos hflush]
    refine ObserverState.performAll_get? (hahead.after last hlast) (accepts_of_last hlast _) ?_
    have hround := hf.roundAt_le_of_open (hopen last hlast)
    have hmargin : futureRoundMargin = 4 := rfl
    have hcap : roundsCap = 512 := rfl
    omega

theorem ahead_step (hf : s.obs.factory.Lawful) (hahead : Ahead s) (hstep : TimedStep cfg s h s')
    (hfirst : FirstNear cfg s h) : Ahead s' := by
  rcases hstep.cases with ⟨head, -, rfl, -⟩ |
    ⟨blk, fdcLogs, fuLogs, hevent, htime, rfl, -⟩ | ⟨a, -, rfl, -⟩
  · cases head <;> exact ⟨hahead.before, hahead.after⟩
  · obtain ⟨now, hsome, hnone, hbound, haccepts⟩ :=
      block_bound hahead (hfirst blk fdcLogs fuLogs hevent)
    have hgathered := ObserverState.performAll_bounded hbound haccepts
    have hfactory := congrArg ObserverSetup.factory
      (@EngineState.block_setup cfg s _ _ blk fdcLogs fuLogs)
    have hnow : now ≤ blk.timestamp := by
      cases hlast : s.obs.lastTs with
      | none => exact (hnone hlast).le
      | some last => exact (hsome last hlast).trans_le (htime last hlast)
    have hround := hf.roundAt_le_roundAt hnow
    refine ⟨fun h => ?_, fun last h => ?_⟩
    · rw [EngineState.block_lastTs] at h
      cases h
    · rw [EngineState.block_lastTs] at h
      cases h
      rw [hfactory]
      intro k hk
      obtain ⟨rs, hrs⟩ := Keyed.mem_keys.mp hk
      rw [EngineState.block_obs, ObserverState.sweep_swept.rounds] at hrs
      split at hrs
      · cases hrs
      · have hle := hgathered k (Keyed.mem_keys.mpr ⟨rs, hrs⟩)
        omega
  · have hkept := @EngineState.pause_kept cfg s a
    have hlast := hkept.lastTs.trans EngineState.flushTrailing_lastTs
    have hfactory := congrArg ObserverSetup.factory
      (hkept.setup.trans EngineState.flushTrailing_setup)
    refine ⟨fun h => ?_, fun last h => ?_⟩
    · rw [hlast] at h
      obtain ⟨hrounds, hscan⟩ := hahead.before h
      have hnothing : ¬ s.scanLo < s.cursor := by omega
      rw [hkept.rounds, EngineState.pause_scanLo, EngineState.pause_cursor]
      simp [EngineState.flushTrailing, hrounds, hscan]
    · rw [hlast] at h
      have hbound := hahead.after last h
      rw [hfactory]
      intro k hk
      rw [hkept.rounds] at hk
      unfold EngineState.flushTrailing at hk
      split at hk
      · exact ObserverState.performAll_bounded hbound (accepts_of_last h _) k hk
      · exact hbound k hk

theorem ahead_run {setup : ObserverSetup} {first : Nat}
    (hstart : EngineState.Started setup first s₀) (hf : setup.factory.Lawful)
    (hrun : Effect.Run (TimedStep cfg) s₀ hs s)
    (hfirst : Effect.EachStep (TimedStep cfg) s₀ (FirstNear cfg) hs) :
    s.obs.toObserverSetup = setup ∧ Ahead s := by
  refine Effect.Run.invariant_of_eachStep
    (fun _ s => s.obs.toObserverSetup = setup ∧ Ahead s) ⟨hstart.setup, ?_⟩ ?_ hrun hfirst
  · refine ⟨fun _ => ⟨hstart.rounds, hstart.scanLo.trans hstart.cursor.symm⟩, fun last h => ?_⟩
    rw [hstart.lastTs] at h
    cases h
  · rintro hs u h v - ⟨hsetup, hahead⟩ hnear hstep
    have hf' : u.obs.factory.Lawful := by
      rw [congrArg ObserverSetup.factory hsetup]
      exact hf
    exact ⟨hstep.setup.trans hsetup, ahead_step hf' hahead hstep hnear⟩

end Clif.Observe
