import Clif.FspMoves

/-!
# FspWork — the work set of `clif fsp auto`

A pair of a message type and a closed epoch is owed from the initial watermark on until its last
outcome was ok.  `fspWork_kept` says which passes of the loop keep every owed pair in the work set:
the single watermark must not move past one.
-/

namespace Clif

open Effect

/-! ## The passes of the loop -/

/-- One pass: its clock readings, the current epoch if it was read, the signers entered in order,
the lines logged and the report written. -/
structure FspEvent where
  now : ℚ
  reportNow : ℚ
  reading : Option Int
  attempts : List (MessageType × Int)
  lines : List FspLine
  rep : StateReport

/-- The pass ended with an exception that the loop catches. -/
def FspLine.caught : FspLine → Bool
  | .rpcFailure _ => true
  | .fwdRetryable _ => true
  | _ => false

def FspEvent.Aborted (ev : FspEvent) : Prop := ∃ l ∈ ev.lines, l.caught = true

/-- `p` comes after `last` in a pass: the streams go one after the other, their epochs in order. -/
def Later (last p : MessageType × Int) : Prop :=
  (last.1 = .uptime ∧ p.1 = .rewardDistribution) ∨ (last.1 = p.1 ∧ last.2 < p.2)

section

variable [External]

/-- One pass of the loop. -/
inductive FspStep (s : Settings) (interval : Int) : FspAuto → FspEvent → FspAuto → Prop
  | pass {u u' : FspAuto} {now reportNow : ℚ} {ans : Reply Int} {t : Trace} {lines : List FspLine}
      {rep : StateReport}
      (h : RunsOn (fspCycle s interval now reportNow) u
        (⟨.rpc (.currentRewardEpochId s.net.flareSystemsManager), ans⟩ :: t) (.ok rep) u')
      (hlog : u'.log = u.log ++ lines) :
      FspStep s interval u ⟨now, reportNow, currentOf ans, attempts t, lines, rep⟩ u'

/-- The state before the report `rep` was `auto`. -/
def FspReported (s : Settings) (interval : Int) (ev : FspEvent) (auto : AutoState) (u' : FspAuto) :
    Prop :=
  ev.rep = buildFspReport auto s.network interval s.fspStaleAfterSec ev.reportNow ∧
    u'.auto = auto.pruned ev.reportNow

/-- A pass that read the current epoch `c`, by its moves `ms`. -/
structure FspPass (s : Settings) (interval : Int) (ev : FspEvent) (c : Int) (u : FspAuto)
    (ms : List FspMove) (u₁ : FspAuto) (r : Except Exc Unit) (u' : FspAuto) : Prop where
  moves : Run (FspTurn s.network ev.now s.fspTerminalCooldownSec (pyRange (u.watermark.getD c) c))
    (u.initMark c) ms u₁
  attempts : ev.attempts = ms.filterMap FspMove.attempted
  observed : ∀ p, Visited ms p → .observe p.1 ∈ ms
  reaches : ReachesTypes (pyRange (u.watermark.getD c) c) messageTypes ms r
  verdicts : ev.lines.filterMap FspLine.verdict =
    (ms.flatMap FspMove.lines).filterMap FspLine.verdict
  moved : movedTo ev.lines = movedTo (ms.flatMap FspMove.lines)
  aborted : (∃ x, r = .error x) → ev.Aborted
  mark : u'.watermark = u₁.watermark
  reported : FspReported s interval ev u₁.auto u'

omit [External] in
theorem initMark_spec {u : FspAuto} {c : Int} : (u.initMark c).auto = u.auto ∧
    (u.initMark c).watermark = some (u.watermark.getD c) ∧
    ∃ pre, (u.initMark c).log = u.log ++ pre ∧ pre.filterMap FspLine.verdict = [] ∧
      pre.filterMap FspLine.moved = [] := by
  unfold FspAuto.initMark
  cases h : u.watermark with
  | some w => exact ⟨rfl, h, [], (List.append_nil _).symm, rfl, rfl⟩
  | none => exact ⟨rfl, rfl, [.initialized c], rfl, rfl, rfl⟩

omit [External] in
theorem runsOn_fspReport {s : Settings} {interval : Int} {reportNow : ℚ} {u u' : FspAuto} {t : Trace}
    {rep : StateReport} (h : RunsOn (fspReport s interval reportNow) u t (.ok rep) u') : t = [] ∧
      rep = buildFspReport u.auto s.network interval s.fspStaleAfterSec reportNow ∧
      u' = { u with auto := u.auto.pruned reportNow } := by
  unfold fspReport at h
  rw [runsOn_get_bind, runsOn_modify_bind] at h
  obtain ⟨rfl, hrep, rfl⟩ := runsOn_pure.mp h
  exact ⟨rfl, Except.ok.inj hrep, rfl⟩

/-- The body of the `try`: no current epoch, or moves from the watermark it starts with. -/
theorem fspBody_cases {s : Settings} {now : ℚ} {u u' : FspAuto} {t : Trace} {r : Except Exc Unit}
    (h : RunsOn (fspBody s now) u t r u') :
    ∃ ans t', t = ⟨.rpc (.currentRewardEpochId s.net.flareSystemsManager), ans⟩ :: t' ∧
      ((currentOf ans = none ∧ t' = [] ∧ u' = u ∧ ∃ x, r = .error x) ∨
        ∃ c ms, currentOf ans = some c ∧
          Run (FspTurn s.network now s.fspTerminalCooldownSec (pyRange (u.watermark.getD c) c))
            (u.initMark c) ms u' ∧
          attempts t' = ms.filterMap FspMove.attempted ∧
          (∀ p, Visited ms p → .observe p.1 ∈ ms) ∧
          ReachesTypes (pyRange (u.watermark.getD c) c) messageTypes ms r) := by
  unfold fspBody at h
  obtain ⟨ans, t', rfl, hcase⟩ := runsOn_rpc_bind.mp h
  refine ⟨ans, t', rfl, ?_⟩
  rcases hcase with ⟨c, hc, h₁⟩ | ⟨x, hx, rfl, rfl, rfl⟩
  · right
    obtain rfl := rpcResult_eq_ok hc
    rw [runsOn_modify_bind, runsOn_get_bind] at h₁
    have hmark : (u.initMark c).watermark.getD c = u.watermark.getD c := by
      rw [initMark_spec.2.1, Option.getD_some]
    rw [hmark] at h₁
    obtain ⟨ms, hms, hatt, hobs, hr⟩ := signTypes_moves (fun mt epoch t r => attempts_fspSign) h₁
    exact ⟨c, ms, rfl, hms, hatt, hobs, hr⟩
  · left
    refine ⟨?_, rfl, rfl, x, rfl⟩
    cases ans with
    | result c => cases hx
    | _ => rfl

/-- What follows the body: at most one line, and the report. -/
theorem fspCycle_cases {s : Settings} {interval : Int} {now reportNow : ℚ} {u u' : FspAuto}
    {t : Trace} {rep : StateReport}
    (h : RunsOn (fspCycle s interval now reportNow) u t (.ok rep) u') :
    ∃ r u₁ tail, RunsOn (fspBody s now) u t r u₁ ∧
      rep = buildFspReport u₁.auto s.network interval s.fspStaleAfterSec reportNow ∧
      u' = { u₁ with auto := u₁.auto.pruned reportNow, log := u₁.log ++ tail } ∧
      tail.filterMap FspLine.verdict = [] ∧ tail.filterMap FspLine.moved = [] ∧
      ((∃ x, r = .error x) → ∃ l ∈ tail, l.caught = true) := by
  unfold fspCycle at h
  obtain ⟨r, t₁, t₂, u₁, rfl, hbody, hrest⟩ := runsOn_attempt_bind.mp h
  refine ⟨r, u₁, ?_⟩
  cases r with
  | ok y =>
    obtain ⟨rfl, hrep, rfl⟩ := runsOn_fspReport hrest
    refine ⟨[], by rwa [List.append_nil], hrep, by rw [List.append_nil], rfl, rfl, ?_⟩
    rintro ⟨x, hx⟩
    cases hx
  | error e =>
    cases e with
    | rpcError msg =>
      dsimp only at hrest
      rw [runsOn_modify_bind] at hrest
      obtain ⟨rfl, hrep, rfl⟩ := runsOn_fspReport hrest
      exact ⟨_, by rwa [List.append_nil], hrep, rfl, rfl, rfl,
        fun _ => ⟨_, List.mem_singleton_self _, rfl⟩⟩
    | fwdRetryable status code text =>
      dsimp only at hrest
      rw [runsOn_modify_bind] at hrest
      obtain ⟨rfl, hrep, rfl⟩ := runsOn_fspReport hrest
      exact ⟨_, by rwa [List.append_nil], hrep, rfl, rfl, rfl,
        fun _ => ⟨_, List.mem_singleton_self _, rfl⟩⟩
    | _ => cases (runsOn_throw.mp hrest).2.1

/-- What is known of a pass: it could not read the current epoch, or it is a run of moves. -/
theorem FspStep.cases {s : Settings} {interval : Int} {u u' : FspAuto} {ev : FspEvent}
    (h : FspStep s interval u ev u') :
    (ev.reading = none ∧ ev.attempts = [] ∧ ev.lines.filterMap FspLine.verdict = [] ∧
      movedTo ev.lines = none ∧ u'.watermark = u.watermark ∧ FspReported s interval ev u.auto u') ∨
      ∃ c ms u₁ r, ev.reading = some c ∧ FspPass s interval ev c u ms u₁ r u' := by
  cases h with
  | @pass _ now reportNow ans t lines rep h hlog =>
    obtain ⟨r, u₁, tail, hbody, hrep, rfl, hverd, hmoved, hcaught⟩ := fspCycle_cases h
    obtain ⟨ans', t', ht, hcase⟩ := fspBody_cases hbody
    obtain ⟨hans, rfl⟩ := List.cons.inj ht
    cases hans
    rcases hcase with ⟨hnone, rfl, rfl, -⟩ | ⟨c, ms, hc, hms, hatt, hobs, hreach⟩
    · left
      have hlines : tail = lines := List.append_cancel_left hlog
      subst hlines
      refine ⟨hnone, rfl, hverd, ?_, rfl, hrep, rfl⟩
      unfold movedTo
      rw [hmoved]
      rfl
    · right
      obtain ⟨-, -, pre, hpre, hpreV, hpreM⟩ := initMark_spec (u := u) (c := c)
      have hlines : lines = pre ++ ms.flatMap FspMove.lines ++ tail := by
        have hall : u.log ++ (pre ++ ms.flatMap FspMove.lines ++ tail) = u.log ++ lines := by
          rw [← hlog]
          simp only [fspMoves_log hms, hpre, List.append_assoc]
        exact (List.append_cancel_left hall).symm
      subst hlines
      refine ⟨c, ms, u₁, r, hc, hms, hatt, hobs, hreach, ?_, ?_, ?_, rfl, hrep, rfl⟩
      · simp [hpreV, hverd]
      · unfold movedTo
        simp [hpreM, hmoved]
      · intro hx
        obtain ⟨l, hl, hl'⟩ := hcaught hx
        exact ⟨l, List.mem_append_right _ hl, hl'⟩

end

/-! ## What is owed -/

/-- The outcomes logged so far. -/
def verdicts (evs : List FspEvent) : List ((MessageType × Int) × FspVerdict) :=
  evs.flatMap fun ev => ev.lines.filterMap FspLine.verdict

/-- The last outcome of the pair was ok. -/
def FspSettled (evs : List FspEvent) (p : MessageType × Int) : Prop :=
  ((verdicts evs).filter fun v => v.1 = p).getLast? = some (p, .ok)

/-- The cooldown of a terminal outcome of the pair is not over. -/
def Cooling (cd : Int) (evs : List FspEvent) (p : MessageType × Int) (now : ℚ) : Prop :=
  ∃ ev ∈ evs, TerminalIn ev.lines p ∧ now < ev.now + cd

/-- A current epoch above `e` was read. -/
def ClosedBy (evs : List FspEvent) (e : Int) : Prop := ∃ ev ∈ evs, ∃ c ∈ ev.reading, e < c

/-- The initial watermark: the one the process starts with, else the first current epoch it read. -/
def initialMark (w : Option Int) (evs : List FspEvent) : Option Int :=
  w.or (evs.filterMap FspEvent.reading).head?

/-- A pair that must be in the work set. -/
structure Owed (w : Option Int) (evs : List FspEvent) (p : MessageType × Int) : Prop where
  above : ∃ w₀ ∈ initialMark w evs, w₀ ≤ p.2
  closed : ClosedBy evs p.2
  unsettled : ¬ FspSettled evs p

/-- The passes after which nothing owed is lost. -/
structure PassSafe (w : Option Int) (cd : Int) (pre : List FspEvent) (ev : FspEvent) : Prop where
  /-- The current epoch read is above all that is owed. -/
  ahead : ∀ c ∈ ev.reading, ∀ p, Owed w pre p → p.2 < c
  /-- After an exception nothing that comes later in the pass is due. -/
  reached : ev.Aborted → ∀ last ∈ ev.attempts.getLast?, ∀ p, Later last p →
    Owed w (pre ++ [ev]) p → Cooling cd pre p ev.now
  /-- Nothing is owed at or below the epoch of the last ok or terminal outcome. -/
  moved : ∀ e ∈ movedTo ev.lines, ∀ p, Owed w (pre ++ [ev]) p → e < p.2

def StateReport.Lists (rep : StateReport) (net : Network) (p : MessageType × Int) : Prop :=
  ∃ v ∈ rep.streams, v.stream = fspStreamKey net p.1 ∧ p.2 ∈ v.epochs

/-- No work is dropped. -/
structure WorkKept (net : Network) (w : Option Int) (cd : Int) (evs : List FspEvent) : Prop where
  /-- The report of every pass lists what is owed. -/
  listed : ∀ pre ev post, evs = pre ++ ev :: post → ∀ p, Owed w (pre ++ [ev]) p →
    ev.rep.Lists net p
  /-- Every pass that reads the current epoch tries what is owed and not in cooldown. -/
  retried : ∀ pre ev post, evs = pre ++ ev :: post → ev.reading ≠ none → ∀ p, Owed w pre p →
    ¬ Cooling cd pre p ev.now → p ∈ ev.attempts
  /-- A terminal outcome keeps the reports degraded until its cooldown ends. -/
  loud : ∀ pre (last : FspEvent) post, evs = pre ++ last :: post → ∀ ev ∈ pre ++ [last],
    ∀ p, TerminalIn ev.lines p → last.reportNow < ev.now + cd → last.rep.degraded = true

/-- The clock starts at zero or later and does not go back. -/
structure PassesInOrder (evs : List FspEvent) : Prop where
  within : ∀ ev ∈ evs, 0 ≤ ev.now ∧ ev.now ≤ ev.reportNow
  clock : evs.Pairwise fun ev ev' => ev.reportNow ≤ ev'.now

theorem verdicts_snoc {evs : List FspEvent} {ev : FspEvent} :
    verdicts (evs ++ [ev]) = verdicts evs ++ ev.lines.filterMap FspLine.verdict := by
  simp [verdicts]

/-- An outcome of another pair settles nothing. -/
theorem settled_snoc {evs : List FspEvent} {ev : FspEvent} {p : MessageType × Int}
    (h : ∀ k, (p, k) ∉ ev.lines.filterMap FspLine.verdict) :
    FspSettled (evs ++ [ev]) p ↔ FspSettled evs p := by
  have hnil : (ev.lines.filterMap FspLine.verdict).filter (fun v => v.1 = p) = [] := by
    refine List.filter_eq_nil_iff.mpr fun v hv heq => ?_
    obtain ⟨p', k⟩ := v
    obtain rfl : p' = p := of_decide_eq_true heq
    exact h k hv
  unfold FspSettled
  rw [verdicts_snoc, List.filter_append, hnil, List.append_nil]

theorem initialMark_mono {w : Option Int} {evs : List FspEvent} {w₀ : Int} (ev : FspEvent)
    (h : initialMark w evs = some w₀) : initialMark w (evs ++ [ev]) = some w₀ := by
  unfold initialMark at h ⊢
  cases w with
  | some w => simpa using h
  | none =>
    rw [Option.none_or] at h ⊢
    rw [List.filterMap_append, List.head?_append, h]
    rfl

theorem ClosedBy.snoc {evs : List FspEvent} {e : Int} (ev : FspEvent) (h : ClosedBy evs e) :
    ClosedBy (evs ++ [ev]) e := by
  obtain ⟨ev', hmem, hc⟩ := h
  exact ⟨ev', List.mem_append_left _ hmem, hc⟩

theorem closedBy_snoc {evs : List FspEvent} {ev : FspEvent} {e : Int} :
    ClosedBy (evs ++ [ev]) e ↔ ClosedBy evs e ∨ ∃ c ∈ ev.reading, e < c := by
  simp only [ClosedBy, List.mem_append, List.mem_singleton, or_and_right, exists_or, exists_eq_left]

theorem terminalIn_iff {ls : List FspLine} {p : MessageType × Int} :
    TerminalIn ls p ↔ (p, FspVerdict.terminal) ∈ ls.filterMap FspLine.verdict := by
  rw [List.mem_filterMap]
  rfl

/-! ## The invariant -/

/-- What holds of the loop's state after the passes `evs`. -/
structure WorkInv (net : Network) (w : Option Int) (cd : Int) (evs : List FspEvent) (u : FspAuto) :
    Prop where
  started : initialMark w evs ≠ none → u.watermark ≠ none
  /-- An epoch that is not closed yet is not below the watermark. -/
  mark : ∀ m ∈ u.watermark, ∃ w₀, initialMark w evs = some w₀ ∧ w₀ ≤ m ∧
    ∀ e, w₀ ≤ e → ¬ ClosedBy evs e → m ≤ e
  owed : ∀ p, Owed w evs p → (∀ m ∈ u.watermark, m ≤ p.2) ∧ u.Pending net p
  cooling : ∀ p v, u.coolsUntil net p = some v →
    ∃ ev ∈ evs, TerminalIn ev.lines p ∧ v = ev.now + cd
  /-- Outcomes are of closed epochs from the initial watermark on. -/
  reported : ∀ v ∈ verdicts evs, ClosedBy evs v.1.2 ∧ ∃ w₀ ∈ initialMark w evs, w₀ ≤ v.1.2

theorem WorkInv.start (net : Network) (w : Option Int) (cd : Int) :
    WorkInv net w cd [] { watermark := w } where
  started h := by simpa [initialMark] using h
  mark m hm := by
    have hw : w = some m := hm
    exact ⟨m, by simp [initialMark, hw], le_rfl, fun e he _ => he⟩
  owed p hp := by
    obtain ⟨ev, hev, -⟩ := hp.closed
    cases hev
  cooling p v hv := by
    cases hv
  reported v hv := by
    cases hv

/-- The initial watermark once a pass has read the current epoch, and what it bounds. -/
theorem WorkInv.initial {net : Network} {w : Option Int} {cd : Int} {pre : List FspEvent}
    {ev : FspEvent} {c : Int} {u : FspAuto} (hi : WorkInv net w cd pre u)
    (hc : ev.reading = some c) :
    ∃ w₀, initialMark w (pre ++ [ev]) = some w₀ ∧ w₀ ≤ u.watermark.getD c ∧
      ∀ e, w₀ ≤ e → ¬ ClosedBy pre e → u.watermark.getD c ≤ e := by
  cases hm : u.watermark with
  | some m =>
    obtain ⟨w₀, hw₀, hle, hbound⟩ := hi.mark m hm
    exact ⟨w₀, initialMark_mono ev hw₀, hle, hbound⟩
  | none =>
    have hnone : initialMark w pre = none := by
      by_contra hne
      exact hi.started hne hm
    refine ⟨c, ?_, le_rfl, fun e he _ => he⟩
    unfold initialMark at hnone ⊢
    obtain ⟨rfl, hhead⟩ := Option.or_eq_none_iff.mp hnone
    rw [Option.none_or, List.filterMap_append, List.head?_append, hhead]
    simp [hc]

/-- What was owed before is among the closed epochs of the pass. -/
theorem WorkInv.owed_closed {net : Network} {w : Option Int} {cd : Int} {pre : List FspEvent}
    {ev : FspEvent} {c : Int} {u : FspAuto} (hi : WorkInv net w cd pre u)
    (hc : ev.reading = some c) (hsafe : PassSafe w cd pre ev) {p : MessageType × Int}
    (hp : Owed w pre p) : u.watermark.getD c ≤ p.2 ∧ p.2 < c := by
  refine ⟨?_, hsafe.ahead c hc p hp⟩
  obtain ⟨w₀, hw₀, -⟩ := hp.above
  obtain ⟨m, hm⟩ := Option.ne_none_iff_exists'.mp (hi.started (by rw [hw₀]; simp))
  rw [hm]
  exact (hi.owed p hp).1 m hm

/-- The pruning of the report keeps what is pending and adds no cooldown. -/
theorem pruned_spec {net : Network} {u u' : FspAuto} {auto : AutoState} {now : ℚ}
    (h : u'.auto = auto.pruned now) (hu : u.auto = auto) (p : MessageType × Int) :
    (u'.Pending net p ↔ u.Pending net p) ∧
    (∀ v, u'.coolsUntil net p = some v → u.coolsUntil net p = some v) ∧
    ∀ v, u.coolsUntil net p = some v → now < v → u'.coolsUntil net p = some v := by
  subst hu
  refine ⟨?_, fun v hv => ?_, fun v hv hlt => ?_⟩
  · rw [FspAuto.Pending, FspAuto.Pending, AutoState.active, AutoState.active, h, AutoState.s_pruned]
    rfl
  · rw [FspAuto.coolsUntil, h, AutoState.s_pruned] at hv
    unfold Stream.prune Dict.eraseAll at hv
    rw [Dict.get?_filterKeys] at hv
    split at hv
    · exact hv
    · cases hv
  · rw [FspAuto.coolsUntil, h, AutoState.s_pruned]
    exact Stream.get?_prune hv hlt

/-! ### A pass that reads the current epoch -/

section

variable [External] {s : Settings} {interval : Int} {w : Option Int} {pre : List FspEvent}
  {ev : FspEvent} {c : Int} {u u₁ u' : FspAuto} {ms : List FspMove} {r : Except Exc Unit}

namespace FspPass

omit [External]

theorem mem_attempts (h : FspPass s interval ev c u ms u₁ r u') {p : MessageType × Int} :
    p ∈ ev.attempts ↔ ∃ x, .sign p.1 p.2 x ∈ ms := by
  rw [h.attempts, mem_attempted]

/-- Only closed epochs at or above the watermark are signed for. -/
theorem closed (h : FspPass s interval ev c u ms u₁ r u') {p : MessageType × Int}
    (hp : p ∈ ev.attempts) : u.watermark.getD c ≤ p.2 ∧ p.2 < c := by
  obtain ⟨x, hx⟩ := h.mem_attempts.mp hp
  exact mem_pyRange.mp (fspMoves_closed h.moves hx)

/-- The outcomes of a pass are of the pairs it tried. -/
theorem tried (h : FspPass s interval ev c u ms u₁ r u') {p : MessageType × Int} {k : FspVerdict}
    (hk : (p, k) ∈ ev.lines.filterMap FspLine.verdict) : p ∈ ev.attempts := by
  rw [h.verdicts, List.mem_filterMap] at hk
  obtain ⟨l, hl, hv⟩ := hk
  obtain ⟨m, hm, hlm⟩ := List.mem_flatMap.mp hl
  obtain ⟨o, rfl⟩ := FspMove.verdict_lines hlm hv
  exact h.mem_attempts.mpr ⟨_, hm⟩

theorem settled_of_untried (h : FspPass s interval ev c u ms u₁ r u') {p : MessageType × Int}
    (hp : p ∉ ev.attempts) : FspSettled (pre ++ [ev]) p ↔ FspSettled pre p :=
  settled_snoc fun _ hk => hp (h.tried hk)

theorem moved_closed (h : FspPass s interval ev c u ms u₁ r u') {e : Int}
    (he : e ∈ movedTo ev.lines) : u.watermark.getD c ≤ e ∧ e < c := by
  rw [h.moved] at he
  obtain ⟨l, hl, hv⟩ := List.mem_filterMap.mp (List.mem_of_getLast? he)
  have hverdict : ∃ mt k, l.verdict = some ((mt, e), k) := by
    cases l with
    | ok mt epoch => cases hv; exact ⟨mt, _, rfl⟩
    | terminal mt epoch => cases hv; exact ⟨mt, _, rfl⟩
    | _ => cases hv
  obtain ⟨mt, k, hk⟩ := hverdict
  refine h.closed (p := (mt, e)) (h.tried (k := k) ?_)
  rw [h.verdicts]
  exact List.mem_filterMap.mpr ⟨l, hl, hk⟩

/-- A closed pair is reached unless the pass ended before it. -/
theorem visited (h : FspPass s interval ev c u ms u₁ r u') {p : MessageType × Int}
    (hin : p.2 ∈ pyRange (u.watermark.getD c) c) : Visited ms p ∨
      (ev.Aborted ∧ ∃ last ∈ ev.attempts.getLast?, Later last p) := by
  have hreach := h.reaches
  cases hr : r with
  | ok y =>
    rw [hr] at hreach
    refine .inl ((hreach p.1 ?_).2 p.2 hin)
    cases p.1 <;> decide
  | error x =>
    rw [hr] at hreach
    obtain ⟨mpre, mt, mpost, hmts, hmpre, -, cpre, e, cpost, hc, hcpre, hlast⟩ := hreach
    have hlast' : ev.attempts.getLast? = some (mt, e) := by
      obtain ⟨ms', rfl⟩ : ∃ ms', ms = ms' ++ [.sign mt e (.error x)] :=
        ⟨ms.dropLast, (List.dropLast_append_getLast? _ hlast).symm⟩
      rw [h.attempts, List.filterMap_append, List.getLast?_append]
      rfl
    have hsorted : (cpre ++ e :: cpost).Pairwise (· < ·) := hc ▸ pairwise_pyRange _ _
    by_cases hmt : p.1 = mt
    · -- the stream in which the signer raised
      rw [hc] at hin
      rcases List.mem_append.mp hin with hin | hin
      · refine .inl ?_
        have hv := hcpre p.2 hin
        rw [← hmt] at hv
        exact hv
      rcases List.mem_cons.mp hin with heq | hin
      · refine .inl (.inr ⟨.error x, ?_⟩)
        rw [hmt, heq]
        exact List.mem_of_getLast? hlast
      · refine .inr ⟨h.aborted ⟨x, hr⟩, (mt, e), hlast', .inr ⟨hmt.symm, ?_⟩⟩
        exact (List.pairwise_cons.mp (List.pairwise_append.mp hsorted).2.1).1 p.2 hin
    · by_cases hbefore : p.1 ∈ mpre
      · exact .inl ((hmpre p.1 hbefore).2 p.2 hin)
      · refine .inr ⟨h.aborted ⟨x, hr⟩, (mt, e), hlast', .inl ?_⟩
        have hmem : p.1 ∈ mpre ++ mt :: mpost := by
          rw [← hmts]
          cases p.1 <;> decide
        have hpost : p.1 ∈ mpost := by
          rcases List.mem_append.mp hmem with hm | hm
          · exact absurd hm hbefore
          · exact (List.mem_cons.mp hm).resolve_left hmt
        -- two streams only: the one that raised is the first
        cases mpre with
        | nil =>
          obtain ⟨rfl, rfl⟩ := List.cons.inj hmts
          exact ⟨rfl, List.mem_singleton.mp hpost⟩
        | cons mt₀ mpre =>
          have hlen := congrArg List.length hmts
          have hpos := List.length_pos_of_mem hpost
          simp [messageTypes] at hlen
          omega

/-- What is owed after the pass is among its closed epochs. -/
theorem owed_closed_after (h : FspPass s interval ev c u ms u₁ r u') {net : Network} {cd : Int}
    (hi : WorkInv net w cd pre u) (hc : ev.reading = some c) (hsafe : PassSafe w cd pre ev)
    {p : MessageType × Int} (hp : Owed w (pre ++ [ev]) p) :
    u.watermark.getD c ≤ p.2 ∧ p.2 < c := by
  by_cases htried : p ∈ ev.attempts
  · exact h.closed htried
  have hunsettled : ¬ FspSettled pre p := (h.settled_of_untried htried).not.mp hp.unsettled
  by_cases hclosed : ClosedBy pre p.2
  · have hmark : initialMark w pre ≠ none := by
      obtain ⟨ev', hmem, c', hc', -⟩ := hclosed
      intro hnone
      obtain ⟨-, hhead⟩ := Option.or_eq_none_iff.mp hnone
      rw [List.head?_eq_none_iff, List.filterMap_eq_nil_iff] at hhead
      rw [hhead ev' hmem] at hc'
      cases hc'
    obtain ⟨w₀, hw₀⟩ := Option.ne_none_iff_exists'.mp hmark
    obtain ⟨w₁, hw₁, hle⟩ := hp.above
    rw [initialMark_mono ev hw₀] at hw₁
    cases hw₁
    exact hi.owed_closed hc hsafe ⟨⟨w₀, hw₀, hle⟩, hclosed, hunsettled⟩
  · obtain ⟨w₀, hw₀, -, hbound⟩ := hi.initial hc
    obtain ⟨w₁, hw₁, hle⟩ := hp.above
    rw [hw₀] at hw₁
    cases hw₁
    refine ⟨hbound p.2 hle hclosed, ?_⟩
    rcases closedBy_snoc.mp hp.closed with hcl | ⟨c', hc', hlt⟩
    · exact absurd hcl hclosed
    · rw [hc] at hc'
      cases hc'
      exact hlt

/-- The watermark after the pass. -/
theorem markAfter (h : FspPass s interval ev c u ms u₁ r u') : u'.watermark =
    (movedTo ev.lines).elim (some (u.watermark.getD c)) fun e => some (e + 1) := by
  rw [h.mark, fspMoves_mark h.moves, h.moved, initMark_spec.2.1]

/-- What is owed after the pass is pending, and the watermark does not pass it. -/
theorem owed_after (h : FspPass s interval ev c u ms u₁ r u')
    (hi : WorkInv s.network w s.fspTerminalCooldownSec pre u) (hc : ev.reading = some c)
    (hsafe : PassSafe w s.fspTerminalCooldownSec pre ev) {p : MessageType × Int}
    (hp : Owed w (pre ++ [ev]) p) :
    (∀ m ∈ u'.watermark, m ≤ p.2) ∧ u₁.Pending s.network p := by
  have hclosed := h.owed_closed_after hi hc hsafe hp
  refine ⟨fun m hm => ?_, ?_⟩
  · rw [h.markAfter] at hm
    cases hmoved : movedTo ev.lines with
    | none =>
      rw [hmoved] at hm
      cases hm
      exact hclosed.1
    | some e =>
      rw [hmoved] at hm
      cases hm
      exact hsafe.moved e hmoved p hp
  · rw [fspMoves_pending h.moves]
    by_cases hobs : .observe p.1 ∈ ms
    · exact .inl ⟨hobs, mem_pyRange.mpr hclosed⟩
    -- the pass ended before the stream of `p`
    refine .inr ⟨hobs, ?_⟩
    have huntried : p ∉ ev.attempts := by
      intro ht
      obtain ⟨x, hx⟩ := h.mem_attempts.mp ht
      exact hobs (h.observed p (.inr ⟨x, hx⟩))
    have hcool : Cooling s.fspTerminalCooldownSec pre p ev.now := by
      rcases h.visited (mem_pyRange.mpr hclosed) with hvis | ⟨hab, last, hlast, hlater⟩
      · exact absurd (h.observed p hvis) hobs
      · exact hsafe.reached hab last hlast p hlater hp
    -- a pair in cooldown was closed before, and it is still unsettled
    obtain ⟨ev', hmem, hterm, -⟩ := hcool
    have hbefore : (p, FspVerdict.terminal) ∈ Clif.verdicts pre :=
      List.mem_flatMap.mpr ⟨ev', hmem, terminalIn_iff.mp hterm⟩
    obtain ⟨hcl, w₀, hw₀, hle⟩ := hi.reported _ hbefore
    have hpend := (hi.owed p
      ⟨⟨w₀, hw₀, hle⟩, hcl, (h.settled_of_untried huntried).not.mp hp.unsettled⟩).2
    rw [FspAuto.Pending, initMark_spec.1]
    exact hpend

/-- The invariant is kept by a safe pass. -/
theorem inv (h : FspPass s interval ev c u ms u₁ r u')
    (hi : WorkInv s.network w s.fspTerminalCooldownSec pre u) (hc : ev.reading = some c)
    (hsafe : PassSafe w s.fspTerminalCooldownSec pre ev) :
    WorkInv s.network w s.fspTerminalCooldownSec (pre ++ [ev]) u' := by
  obtain ⟨w₀, hw₀, hle, hbound⟩ := hi.initial hc
  have hread : ∀ e, e < c → ClosedBy (pre ++ [ev]) e := fun e he =>
    closedBy_snoc.mpr (.inr ⟨c, hc, he⟩)
  refine ⟨fun _ => ?_, fun m hm => ⟨w₀, hw₀, ?_⟩, fun p hp => ?_, fun p v hv => ?_, fun v hv => ?_⟩
  · rw [h.markAfter]
    cases movedTo ev.lines <;> simp
  · rw [h.markAfter] at hm
    cases hmoved : movedTo ev.lines with
    | none =>
      rw [hmoved] at hm
      cases hm
      exact ⟨hle, fun e he hncl => hbound e he fun hcl => hncl (hcl.snoc ev)⟩
    | some e =>
      rw [hmoved] at hm
      cases hm
      obtain ⟨hge, hlt⟩ := h.moved_closed hmoved
      refine ⟨by omega, fun e' he' hncl => ?_⟩
      have hge' : c ≤ e' := not_lt.mp fun hlt' => hncl (hread e' hlt')
      omega
  · obtain ⟨hmark, hpend⟩ := h.owed_after hi hc hsafe hp
    exact ⟨hmark, (pruned_spec h.reported.2 rfl p).1.mpr hpend⟩
  · have hv₁ := (pruned_spec h.reported.2 rfl p).2.1 v hv
    rcases (fspMoves_cooling h.moves p).2.2 v hv₁ with hold | ⟨hterm, rfl⟩
    · rw [FspAuto.coolsUntil, initMark_spec.1] at hold
      obtain ⟨ev', hmem, ht⟩ := hi.cooling p v hold
      exact ⟨ev', List.mem_append_left _ hmem, ht⟩
    · refine ⟨ev, List.mem_append_right _ (List.mem_singleton_self _), ?_, rfl⟩
      rw [terminalIn_iff, h.verdicts, ← terminalIn_iff]
      exact hterm
  · rw [verdicts_snoc] at hv
    rcases List.mem_append.mp hv with hv | hv
    · obtain ⟨hcl, w₁, hw₁, hle₁⟩ := hi.reported v hv
      exact ⟨hcl.snoc ev, w₁, initialMark_mono ev hw₁, hle₁⟩
    · obtain ⟨hge, hlt⟩ := h.closed (h.tried hv)
      exact ⟨hread _ hlt, w₀, hw₀, le_trans hle hge⟩

/-- What is owed and not in cooldown is tried. -/
theorem retried (h : FspPass s interval ev c u ms u₁ r u')
    (hi : WorkInv s.network w s.fspTerminalCooldownSec pre u) (hc : ev.reading = some c)
    (hsafe : PassSafe w s.fspTerminalCooldownSec pre ev) (hnow : 0 ≤ ev.now)
    {p : MessageType × Int} (hp : Owed w pre p)
    (hcool : ¬ Cooling s.fspTerminalCooldownSec pre p ev.now) : p ∈ ev.attempts := by
  have hclosed := hi.owed_closed hc hsafe hp
  rcases h.visited (mem_pyRange.mpr hclosed) with (hskip | ⟨x, hx⟩) | ⟨hab, last, hlast, hlater⟩
  · rcases fspMoves_skipped h.moves hskip hnow with ⟨v, hv, hlt⟩ | htried
    · rw [FspAuto.coolsUntil, initMark_spec.1] at hv
      obtain ⟨ev', hmem, hterm, rfl⟩ := hi.cooling p v hv
      exact absurd ⟨ev', hmem, hterm, hlt⟩ hcool
    · rw [h.attempts]
      exact htried
  · exact h.mem_attempts.mpr ⟨x, hx⟩
  · by_contra htried
    obtain ⟨w₀, hw₀, hle⟩ := hp.above
    exact hcool (hsafe.reached hab last hlast p hlater ⟨⟨w₀, initialMark_mono ev hw₀, hle⟩,
      hp.closed.snoc ev, (h.settled_of_untried htried).not.mpr hp.unsettled⟩)

/-- A cooldown that is on stays on, and its pair stays owed. -/
theorem cooling_kept (h : FspPass s interval ev c u ms u₁ r u')
    (hi : WorkInv s.network w s.fspTerminalCooldownSec pre u) (hc : ev.reading = some c)
    (hsafe : PassSafe w s.fspTerminalCooldownSec pre ev) {p : MessageType × Int}
    (hp : Owed w pre p) {v : ℚ} (hv : u.coolsUntil s.network p = some v) (hnow : ev.now < v) :
    Owed w (pre ++ [ev]) p ∧ u₁.coolsUntil s.network p = some v := by
  have hclosed := mem_pyRange.mpr (hi.owed_closed hc hsafe hp)
  have hv' : (u.initMark c).coolsUntil s.network p = some v := by
    rw [FspAuto.coolsUntil, initMark_spec.1]
    exact hv
  have huntried : p ∉ ev.attempts := by
    rw [h.attempts]
    exact fspMoves_quiet h.moves hclosed hv' hnow
  obtain ⟨w₀, hw₀, hle⟩ := hp.above
  refine ⟨⟨⟨w₀, initialMark_mono ev hw₀, hle⟩, hp.closed.snoc ev,
    (h.settled_of_untried huntried).not.mpr hp.unsettled⟩, ?_⟩
  rw [(fspMoves_cooling h.moves p).1 hclosed, hv']
  rintro hterm
  obtain ⟨o, ho⟩ := terminalIn_signed hterm
  exact huntried (h.mem_attempts.mpr ⟨_, ho⟩)

/-- A terminal outcome with a cooldown ahead is the last one of its pair in the pass. -/
theorem terminal_last (h : FspPass s interval ev c u ms u₁ r u') {p : MessageType × Int}
    (hterm : TerminalIn ev.lines p) (hcd : (0 : ℚ) < s.fspTerminalCooldownSec) :
    ¬ FspSettled (pre ++ [ev]) p ∧
      u₁.coolsUntil s.network p = some (ev.now + s.fspTerminalCooldownSec) := by
  have hterm' : TerminalIn (ms.flatMap FspMove.lines) p := by
    rw [terminalIn_iff, ← h.verdicts, ← terminalIn_iff]
    exact hterm
  have hclosed : p.2 ∈ pyRange (u.watermark.getD c) c := by
    obtain ⟨o, ho⟩ := terminalIn_signed hterm'
    exact fspMoves_closed h.moves ho
  refine ⟨fun hset => ?_, (fspMoves_cooling h.moves p).2.1 hclosed hterm'⟩
  obtain ⟨l, hl, hlv⟩ := hterm'
  obtain ⟨m, hm, hlm⟩ := List.mem_flatMap.mp hl
  obtain ⟨ms₁, ms₂, hsplit⟩ := List.append_of_mem hm
  have hmoves := h.moves
  rw [hsplit] at hmoves
  obtain ⟨v₁, hms₁, hrest⟩ := hmoves.append_inv
  obtain ⟨v₂, hturn, hms₂⟩ := hrest.cons_inv
  have hcool : v₂.coolsUntil s.network p = some (ev.now + s.fspTerminalCooldownSec) :=
    (hturn.cooling p).2.1 ⟨l, hlm, hlv⟩
  have hquiet := fspMoves_quiet hms₂ hclosed hcool (by linarith)
  -- so the list of the pair's outcomes ends with the terminal one
  have hnil : ∀ k, (p, k) ∉ (ms₂.flatMap FspMove.lines).filterMap FspLine.verdict := by
    intro k hk
    obtain ⟨l', hl', hv'⟩ := List.mem_filterMap.mp hk
    obtain ⟨m', hm', hlm'⟩ := List.mem_flatMap.mp hl'
    obtain ⟨o, rfl⟩ := FspMove.verdict_lines hlm' hv'
    exact hquiet (mem_attempted.mpr ⟨_, hm'⟩)
  have hone : m.lines = [l] := by
    obtain ⟨o, rfl⟩ := FspMove.verdict_lines hlm hlv
    exact FspMove.lines_of_mem hlm
  have hfilter : ((ms₂.flatMap FspMove.lines).filterMap FspLine.verdict).filter
      (fun v => v.1 = p) = [] := by
    refine List.filter_eq_nil_iff.mpr fun v hv heq => ?_
    obtain ⟨p', k⟩ := v
    obtain rfl : p' = p := of_decide_eq_true heq
    exact hnil k hv
  unfold FspSettled at hset
  rw [verdicts_snoc, h.verdicts, hsplit] at hset
  simp [List.flatMap_append, hone, List.filterMap_append, List.filter_append, hlv, hfilter] at hset

end FspPass

/-! ### A pass of either kind -/

omit [External] in
/-- A pass without a reading changes nothing that is owed. -/
theorem owed_of_unread (hread : ev.reading = none) (hverd : ev.lines.filterMap FspLine.verdict = [])
    {p : MessageType × Int} (hp : Owed w (pre ++ [ev]) p) : Owed w pre p := by
  refine ⟨?_, ?_, ?_⟩
  · obtain ⟨w₀, hw₀, hle⟩ := hp.above
    refine ⟨w₀, ?_, hle⟩
    unfold initialMark at hw₀ ⊢
    rw [List.filterMap_append] at hw₀
    simpa [hread] using hw₀
  · rcases closedBy_snoc.mp hp.closed with hcl | ⟨c', hc', -⟩
    · exact hcl
    · rw [hread] at hc'
      cases hc'
  · rw [← @settled_snoc _ ev _ (by simp [hverd])]
    exact hp.unsettled

/-- What one safe pass gives: the invariant, what was tried, and the state its report shows. -/
theorem FspStep.spec (h : FspStep s interval u ev u')
    (hi : WorkInv s.network w s.fspTerminalCooldownSec pre u)
    (hsafe : PassSafe w s.fspTerminalCooldownSec pre ev) (hnow : 0 ≤ ev.now) :
    WorkInv s.network w s.fspTerminalCooldownSec (pre ++ [ev]) u' ∧
    (ev.reading ≠ none → ∀ p, Owed w pre p → ¬ Cooling s.fspTerminalCooldownSec pre p ev.now →
      p ∈ ev.attempts) ∧
    ∃ u₁ : FspAuto, FspReported s interval ev u₁.auto u' ∧
      (∀ p, Owed w (pre ++ [ev]) p → u₁.Pending s.network p) ∧
      (∀ p v, Owed w pre p → u.coolsUntil s.network p = some v → ev.now < v →
        Owed w (pre ++ [ev]) p ∧ u₁.coolsUntil s.network p = some v) ∧
      ∀ p, TerminalIn ev.lines p → (0 : ℚ) < s.fspTerminalCooldownSec →
        Owed w (pre ++ [ev]) p ∧
          u₁.coolsUntil s.network p = some (ev.now + s.fspTerminalCooldownSec) := by
  rcases h.cases with ⟨hread, hatt, hverd, hmoved, hmark, hrep⟩ | ⟨c, ms, u₁, r, hc, hpass⟩
  · have howed : ∀ p, Owed w (pre ++ [ev]) p → Owed w pre p := fun p hp =>
      owed_of_unread hread hverd hp
    have hmarks : ∀ {w₀}, initialMark w (pre ++ [ev]) = some w₀ → initialMark w pre = some w₀ := by
      intro w₀ hw₀
      unfold initialMark at hw₀ ⊢
      rw [List.filterMap_append] at hw₀
      simpa [hread] using hw₀
    refine ⟨⟨fun hstart => ?_, fun m hm => ?_, fun p hp => ?_, fun p v hv => ?_, fun v hv => ?_⟩,
      fun hne => absurd hread hne, u, hrep, fun p hp => (hi.owed p (howed p hp)).2,
      fun p v hp hv _ => ?_, fun p hterm => ?_⟩
    · rw [hmark]
      obtain ⟨w₀, hw₀⟩ := Option.ne_none_iff_exists'.mp hstart
      exact hi.started (by rw [hmarks hw₀]; simp)
    · rw [hmark] at hm
      obtain ⟨w₀, hw₀, hle, hbound⟩ := hi.mark m hm
      exact ⟨w₀, initialMark_mono ev hw₀, hle, fun e he hncl => hbound e he fun hcl =>
        hncl (hcl.snoc ev)⟩
    · obtain ⟨hbelow, hpend⟩ := hi.owed p (howed p hp)
      rw [hmark]
      exact ⟨hbelow, (pruned_spec hrep.2 rfl p).1.mpr hpend⟩
    · obtain ⟨ev', hmem, ht⟩ := hi.cooling p v ((pruned_spec hrep.2 rfl p).2.1 v hv)
      exact ⟨ev', List.mem_append_left _ hmem, ht⟩
    · rw [verdicts_snoc, hverd, List.append_nil] at hv
      obtain ⟨hcl, w₀, hw₀, hle⟩ := hi.reported v hv
      exact ⟨hcl.snoc ev, w₀, initialMark_mono ev hw₀, hle⟩
    · obtain ⟨w₀, hw₀, hle⟩ := hp.above
      exact ⟨⟨⟨w₀, initialMark_mono ev hw₀, hle⟩, hp.closed.snoc ev,
        (@settled_snoc _ ev _ (by simp [hverd])).not.mpr hp.unsettled⟩, hv⟩
    · rw [terminalIn_iff, hverd] at hterm
      cases hterm
  · refine ⟨hpass.inv hi hc hsafe, fun _ p hp hcool => hpass.retried hi hc hsafe hnow hp hcool,
      u₁, hpass.reported, fun p hp => (hpass.owed_after hi hc hsafe hp).2,
      fun p v hp hv hlt => hpass.cooling_kept hi hc hsafe hp hv hlt, fun p hterm hcd => ?_⟩
    have hlast : ¬ FspSettled (pre ++ [ev]) p ∧
        u₁.coolsUntil s.network p = some (ev.now + s.fspTerminalCooldownSec) :=
      hpass.terminal_last hterm hcd
    obtain ⟨hunsettled, hcool⟩ := hlast
    obtain ⟨hcl, w₀, hw₀, hle⟩ := (hpass.inv hi hc hsafe).reported (p, .terminal) (by
      rw [verdicts_snoc]
      exact List.mem_append_right _ (terminalIn_iff.mp hterm))
    exact ⟨⟨⟨w₀, hw₀, hle⟩, hcl, hunsettled⟩, hcool⟩

omit [External] in
/-- The report lists what is pending. -/
theorem FspReported.lists (h : FspReported s interval ev u₁.auto u') {p : MessageType × Int}
    (hp : u₁.Pending s.network p) : ev.rep.Lists s.network p := by
  rw [StateReport.Lists, h.1]
  refine ⟨_, List.mem_map_of_mem (Dict.mem_entries.mpr (AutoState.get?_streams_pruned hp)), rfl, ?_⟩
  exact List.mem_mergeSort.mpr hp

omit [External] in
/-- The report is degraded while a pending pair is in cooldown. -/
theorem FspReported.degraded (h : FspReported s interval ev u₁.auto u') {p : MessageType × Int} {v : ℚ}
    (hp : u₁.Pending s.network p) (hv : u₁.coolsUntil s.network p = some v)
    (hlt : ev.reportNow < v) : ev.rep.degraded = true := by
  have hreason := @AutoState.mem_evaluate _ _ _ _ _ s.fspStaleAfterSec hp hv hlt
  have hne : (u₁.auto.evaluate ev.reportNow s.fspStaleAfterSec).2 ≠ [] := List.ne_nil_of_mem hreason
  rw [h.1]
  simpa [buildFspReport, stateReport, AutoState.evaluate] using hne

/-! ## Runs -/

/-- Every pass of a run of safe passes meets the invariant before it. -/
theorem fspRun_inv {evs : List FspEvent} (h : Run (FspStep s interval) { watermark := w } evs u)
    (hord : PassesInOrder evs) (hsafe : ∀ pre ev post, evs = pre ++ ev :: post →
      PassSafe w s.fspTerminalCooldownSec pre ev) :
    WorkInv s.network w s.fspTerminalCooldownSec evs u := by
  refine Run.invariant (fun es u => es <+: evs → WorkInv s.network w s.fspTerminalCooldownSec es u)
    (fun _ => .start _ _ _) ?_ h (List.prefix_refl _)
  intro es u₁ ev u₂ _ hi hstep hpre
  obtain ⟨post, rfl⟩ := hpre
  have hmem : ev ∈ es ++ [ev] ++ post := by simp
  exact (hstep.spec (hi ((List.prefix_append _ _).trans (List.prefix_append _ _)))
    (hsafe es ev post (by simp)) (hord.within ev hmem).1).1

/-- A cooldown on record stays on record, over passes that end before it does. -/
theorem fspRun_cooling {evs mid : List FspEvent} {v : ℚ} {p : MessageType × Int}
    (h : Run (FspStep s interval) u mid u') (hord : ∀ ev ∈ mid, 0 ≤ ev.now ∧ ev.now ≤ ev.reportNow)
    (hsafe : ∀ pre' ev post, mid = pre' ++ ev :: post →
      PassSafe w s.fspTerminalCooldownSec (evs ++ pre') ev)
    (hi : WorkInv s.network w s.fspTerminalCooldownSec evs u) (hp : Owed w evs p)
    (hv : u.coolsUntil s.network p = some v) (hlt : ∀ ev ∈ mid, ev.reportNow < v) :
    WorkInv s.network w s.fspTerminalCooldownSec (evs ++ mid) u' ∧ Owed w (evs ++ mid) p ∧
      u'.coolsUntil s.network p = some v ∧ ∀ last ∈ mid.getLast?, last.rep.degraded = true := by
  induction h with
  | nil => exact ⟨by rwa [List.append_nil], by rwa [List.append_nil], hv, by simp⟩
  | @snoc mid u₁ ev u₂ h hs ih =>
    obtain ⟨hi₁, hp₁, hv₁, -⟩ := ih (fun ev' h' => hord ev' (List.mem_append_left _ h'))
      (fun pre' ev' post heq => hsafe pre' ev' (post ++ [ev]) (by rw [heq]; simp))
      (fun ev' h' => hlt ev' (List.mem_append_left _ h'))
    have hmem : ev ∈ mid ++ [ev] := List.mem_append_right _ (List.mem_singleton_self _)
    obtain ⟨hnow, hle⟩ := hord ev hmem
    obtain ⟨hi₂, -, u₃, hrep, hpend, hkept, -⟩ := hs.spec hi₁ (hsafe mid ev [] rfl) hnow
    obtain ⟨hp₂, hv₂⟩ := hkept p v hp₁ hv₁ (lt_of_le_of_lt hle (hlt ev hmem))
    rw [← List.append_assoc]
    refine ⟨hi₂, hp₂, (pruned_spec hrep.2 rfl p).2.2 v hv₂ (hlt ev hmem), fun last hlast => ?_⟩
    rw [List.getLast?_append, List.getLast?_singleton] at hlast
    cases hlast
    exact hrep.degraded (hpend p hp₂) hv₂ (hlt ev hmem)

/-- Every run of safe passes keeps the work: what is owed is listed and tried again, and a terminal
outcome keeps the reports degraded until its cooldown ends. -/
theorem fspWork_kept {evs : List FspEvent} (h : Run (FspStep s interval) { watermark := w } evs u)
    (hord : PassesInOrder evs) (hsafe : ∀ pre ev post, evs = pre ++ ev :: post →
      PassSafe w s.fspTerminalCooldownSec pre ev) :
    WorkKept s.network w s.fspTerminalCooldownSec evs := by
  have hat : ∀ pre ev post, evs = pre ++ ev :: post → ∃ u₁ u₂,
      Run (FspStep s interval) { watermark := w } pre u₁ ∧ FspStep s interval u₁ ev u₂ ∧
      Run (FspStep s interval) u₂ post u ∧ WorkInv s.network w s.fspTerminalCooldownSec pre u₁ := by
    rintro pre ev post rfl
    obtain ⟨u₁, h₁, hrest⟩ := h.append_inv
    obtain ⟨u₂, hstep, hpost⟩ := hrest.cons_inv
    refine ⟨u₁, u₂, h₁, hstep, hpost, fspRun_inv h₁ ⟨fun ev' h' => ?_, ?_⟩ fun pre' ev' post' heq => ?_⟩
    · exact hord.within ev' (List.mem_append_left _ h')
    · exact (List.pairwise_append.mp hord.clock).1
    · exact hsafe pre' ev' (post' ++ ev :: post) (by rw [heq]; simp)
  refine ⟨fun pre ev post heq p hp => ?_, fun pre ev post heq hread p hp hcool => ?_,
    fun pre last post heq ev hev p hterm hlt => ?_⟩
  · obtain ⟨u₁, u₂, -, hstep, -, hi⟩ := hat pre ev post heq
    obtain ⟨-, -, u₃, hrep, hpend, -, -⟩ :=
      hstep.spec hi (hsafe pre ev post heq) (hord.within ev (by rw [heq]; simp)).1
    exact hrep.lists (hpend p hp)
  · obtain ⟨u₁, u₂, -, hstep, -, hi⟩ := hat pre ev post heq
    exact (hstep.spec hi (hsafe pre ev post heq) (hord.within ev (by rw [heq]; simp)).1).2.1
      hread p hp hcool
  · -- the passes from the terminal outcome on
    obtain ⟨pre', mid, hsplit⟩ := List.append_of_mem hev
    have hall : evs = pre' ++ ev :: (mid ++ post) := by
      rw [heq, ← List.singleton_append (l := post), ← List.append_assoc, hsplit]
      simp
    obtain ⟨u₁, u₂, -, hstep, hrest, hi⟩ := hat pre' ev (mid ++ post) hall
    obtain ⟨u₃, hmid, -⟩ := hrest.append_inv
    have hin : ∀ ev' ∈ ev :: mid, ev' ∈ evs := by
      intro ev' h'
      rw [hall]
      rcases List.mem_cons.mp h' with rfl | h'
      · simp
      · simp [h']
    have hlast : (ev :: mid).getLast? = some last := by
      have hends := congrArg List.getLast? hsplit
      rw [List.getLast?_append, List.getLast?_append] at hends
      simpa using hends.symm
    obtain ⟨hnow, hle⟩ := hord.within ev (hin ev List.mem_cons_self)
    -- the clock does not go back between them
    have hbefore : ∀ ev' ∈ ev :: mid, ev'.reportNow ≤ last.reportNow := by
      have hclock : (ev :: mid).Pairwise fun e e' => e.reportNow ≤ e'.now := by
        have hpart := (List.pairwise_append.mp (hall ▸ hord.clock)).2.1
        rw [← List.cons_append] at hpart
        exact (List.pairwise_append.mp hpart).1
      have hparts := List.dropLast_append_getLast? last hlast
      rw [← hparts] at hclock ⊢
      intro ev' h'
      rcases List.mem_append.mp h' with h' | h'
      · have hlastle := (hord.within last (hin last (List.mem_of_getLast? hlast))).2
        exact le_trans ((List.pairwise_append.mp hclock).2.2 ev' h' last
          (List.mem_singleton_self _)) hlastle
      · rw [List.mem_singleton.mp h']
    have hcd : (0 : ℚ) < s.fspTerminalCooldownSec := by
      have := hbefore ev List.mem_cons_self
      linarith
    have hsafe' := hsafe pre' ev (mid ++ post) hall
    obtain ⟨hi₂, -, u₄, hrep, hpend, -, hset⟩ := hstep.spec hi hsafe' hnow
    obtain ⟨hp, hv⟩ := hset p hterm hcd
    have hrun := @fspRun_cooling _ _ _ _ _ _ (pre' ++ [ev]) _ _ _ hmid
      (fun ev' h' => hord.within ev' (hin ev' (List.mem_cons_of_mem _ h')))
      (fun pre'' ev' post' heq' => hsafe _ ev' (post' ++ post) (by rw [hall, heq']; simp)) hi₂ hp
      ((pruned_spec hrep.2 rfl p).2.2 _ hv
        (lt_of_le_of_lt (hbefore ev List.mem_cons_self) hlt))
      fun ev' h' => lt_of_le_of_lt (hbefore ev' (List.mem_cons_of_mem _ h')) hlt
    cases mid with
    | nil =>
      cases hlast
      exact hrep.degraded (hpend p hp) hv hlt
    | cons ev₁ mid =>
      rw [List.getLast?_cons_cons] at hlast
      exact hrun.2.2.2 last hlast

end

/-! ### A terminal failure that is forgotten -/

/-- Epoch 5 has closed, and its reward file is published; every call that would send fails. -/
def closedWorld : (op : Op) → op.Ans
  | .rpc (.currentRewardEpochId _) => .result 6
  | .readRewardDistributionData _ _ => some rootOnlyFile.fields
  | op => deafWorld op

def fspExec (s : Settings) (now reportNow : ℚ) (u : FspAuto) :
    Trace × Except Exc StateReport × FspAuto :=
  execOn (S := sig) closedWorld (@fspCycle External.static s 900 now reportNow) u

def noFspReport : StateReport := buildFspReport {} .flare 900 86400 0

/-- The pass that `fspExec` runs, from a state with an empty log. -/
def fspEventOf (s : Settings) (now reportNow : ℚ) (u : FspAuto) : FspEvent :=
  ⟨now, reportNow, some 6, attempts (fspExec s now reportNow u).1.tail,
    (fspExec s now reportNow u).2.2.log.drop u.log.length,
    (fspExec s now reportNow u).2.1.toOption.getD noFspReport⟩

theorem fspStep_exec {s : Settings} {now reportNow : ℚ} {u : FspAuto}
    (hread : (fspExec s now reportNow u).1.head? =
      some ⟨.rpc (.currentRewardEpochId s.net.flareSystemsManager), .result 6⟩)
    (hok : (fspExec s now reportNow u).2.1.toOption.isSome = true)
    (hlog : u.log <+: (fspExec s now reportNow u).2.2.log) :
    @FspStep External.static s 900 u (fspEventOf s now reportNow u)
      (fspExec s now reportNow u).2.2 := by
  have h := execOn_runs (S := sig) closedWorld
    (@fspCycle External.static s 900 now reportNow) u
  have htrace : (fspExec s now reportNow u).1 =
      ⟨.rpc (.currentRewardEpochId s.net.flareSystemsManager), .result 6⟩ ::
        (fspExec s now reportNow u).1.tail := by
    cases hl : (fspExec s now reportNow u).1 with
    | nil => rw [hl] at hread; cases hread
    | cons e t =>
      rw [hl] at hread
      rw [Option.some.inj hread]
      rfl
  have hrep : (fspExec s now reportNow u).2.1 =
      .ok ((fspExec s now reportNow u).2.1.toOption.getD noFspReport) := by
    cases hr : (fspExec s now reportNow u).2.1 with
    | ok rep => rfl
    | error x => rw [hr] at hok; cases hok
  change RunsOn _ u (fspExec s now reportNow u).1 (fspExec s now reportNow u).2.1
    (fspExec s now reportNow u).2.2 at h
  rw [htrace, hrep] at h
  obtain ⟨lines, hlines⟩ := hlog
  refine @FspStep.pass External.static _ _ _ _ _ _ (.result 6) _ _ _ h ?_
  rw [← hlines, List.drop_left]

theorem passesInOrder_two {ev ev' : FspEvent} (h : 0 ≤ ev.now ∧ ev.now ≤ ev.reportNow)
    (h' : 0 ≤ ev'.now ∧ ev'.now ≤ ev'.reportNow) (hle : ev.reportNow ≤ ev'.now) :
    PassesInOrder ([ev] ++ [ev']) where
  within := by
    intro ev₀ hev
    rcases List.mem_append.mp hev with hev | hev
    · rw [List.mem_singleton.mp hev]
      exact h
    · rw [List.mem_singleton.mp hev]
      exact h'
  clock := by simpa using hle

/-- No caller is provisioned, so both signatures end terminally. -/
def forgottenState : FspAuto := (fspExec {} 100 101 { watermark := some 5 }).2.2

/-- The second pass, still in the cooldown, forgets the epoch and reports a healthy state. -/
theorem forgottenEpoch_healthy : ∃ evs u,
    Run (@FspStep External.static {} 900) { watermark := some 5 } evs u ∧ PassesInOrder evs ∧
      ¬ WorkKept .flare (some 5) 3600 evs := by
  have hstep₁ : @FspStep External.static {} 900 { watermark := some 5 }
      (fspEventOf {} 100 101 { watermark := some 5 }) forgottenState :=
    fspStep_exec (by with_unfolding_all rfl) (by with_unfolding_all rfl) List.nil_prefix
  have hstep₂ : @FspStep External.static {} 900 forgottenState
      (fspEventOf {} 200 201 forgottenState) (fspExec {} 200 201 forgottenState).2.2 :=
    fspStep_exec (by with_unfolding_all rfl) (by with_unfolding_all rfl)
      ⟨[], by with_unfolding_all rfl⟩
  have hterm : TerminalIn (fspEventOf {} 100 101 { watermark := some 5 }).lines (.uptime, 5) := by
    rw [terminalIn_iff, show (fspEventOf {} 100 101 { watermark := some 5 }).lines.filterMap
      FspLine.verdict = [((.uptime, 5), .terminal), ((.rewardDistribution, 5), .terminal)] by
        with_unfolding_all rfl]
    exact List.mem_cons_self
  have hhealthy : (fspEventOf {} 200 201 forgottenState).rep.degraded = false := by
    with_unfolding_all rfl
  refine ⟨_, _, .snoc (.single hstep₁) hstep₂, passesInOrder_two ?_ ?_ ?_, fun hkept => ?_⟩
  · show (0 : ℚ) ≤ 100 ∧ (100 : ℚ) ≤ 101
    norm_num
  · show (0 : ℚ) ≤ 200 ∧ (200 : ℚ) ≤ 201
    norm_num
  · show (101 : ℚ) ≤ 200
    norm_num
  · have hloud := hkept.loud [_] _ [] rfl _ List.mem_cons_self _ hterm (by
      show (201 : ℚ) < 100 + (3600 : Int)
      norm_num)
    rw [hhealthy] at hloud
    cases hloud

/-- Every caller is provisioned. -/
def signerSettings : Settings :=
  { sampleSettings with
    fspUptimeSignCallerToken := some "uptime-sign"
    fspUptimeSubmitCallerToken := some "uptime-submit" }

/-- `fwd` is unreachable, so both signatures fail retryably. -/
def retryState : FspAuto := (fspExec signerSettings 100 101 { watermark := some 5 }).2.2

/-- A pass at the same current epoch that only logs transient failures is safe. -/
theorem passSafe_transient {pre : List FspEvent} {ev : FspEvent} (hread : ev.reading = some 6)
    (hpre : ∀ ev' ∈ pre, ev'.reading = some 6)
    (hlines : ev.lines.map (fun l => (l.moved, l.caught)) = [(none, false), (none, false)]) :
    PassSafe (some 5) 3600 pre ev := by
  have hall : ∀ l ∈ ev.lines, l.moved = none ∧ l.caught = false := by
    intro l hl
    have hmem : (l.moved, l.caught) ∈ ev.lines.map fun l => (l.moved, l.caught) :=
      List.mem_map_of_mem hl
    rw [hlines] at hmem
    simpa using hmem
  refine ⟨fun c hc p hp => ?_, fun hab => ?_, fun e he => ?_⟩
  · obtain ⟨ev', hmem, c', hc', hlt⟩ := hp.closed
    rw [hpre ev' hmem] at hc'
    rw [hread] at hc
    cases hc
    cases hc'
    exact hlt
  · obtain ⟨l, hl, hcaught⟩ := hab
    rw [(hall l hl).2] at hcaught
    cases hcaught
  · obtain ⟨l, hl, hmoved⟩ := List.mem_filterMap.mp (List.mem_of_getLast? he)
    rw [(hall l hl).1] at hmoved
    cases hmoved

theorem fspWork_kept_retried : WorkKept .flare (some 5) 3600
    [fspEventOf signerSettings 100 101 { watermark := some 5 },
      fspEventOf signerSettings 1000 1001 retryState] := by
  have hstep₁ : @FspStep External.static signerSettings 900 { watermark := some 5 }
      (fspEventOf signerSettings 100 101 { watermark := some 5 }) retryState :=
    fspStep_exec (by with_unfolding_all rfl) (by with_unfolding_all rfl) List.nil_prefix
  have hlog : retryState.log <+: (fspExec signerSettings 1000 1001 retryState).2.2.log :=
    ⟨(fspExec signerSettings 1000 1001 retryState).2.2.log.drop 2, by with_unfolding_all rfl⟩
  have hstep₂ : @FspStep External.static signerSettings 900 retryState
      (fspEventOf signerSettings 1000 1001 retryState)
      (fspExec signerSettings 1000 1001 retryState).2.2 :=
    fspStep_exec (by with_unfolding_all rfl) (by with_unfolding_all rfl) hlog
  have hlines₁ : (fspEventOf signerSettings 100 101 { watermark := some 5 }).lines.map
      (fun l => (l.moved, l.caught)) = [(none, false), (none, false)] := by
    with_unfolding_all rfl
  have hlines₂ : (fspEventOf signerSettings 1000 1001 retryState).lines.map
      (fun l => (l.moved, l.caught)) = [(none, false), (none, false)] := by
    with_unfolding_all rfl
  let _ := External.static
  refine fspWork_kept (s := signerSettings) (.snoc (.single hstep₁) hstep₂)
    (passesInOrder_two ?_ ?_ ?_) ?_
  · show (0 : ℚ) ≤ 100 ∧ (100 : ℚ) ≤ 101
    norm_num
  · show (0 : ℚ) ≤ 1000 ∧ (1000 : ℚ) ≤ 1001
    norm_num
  · show (101 : ℚ) ≤ 1000
    norm_num
  · intro pre ev post heq
    rcases pre with _ | ⟨ev₀, pre⟩
    · obtain ⟨rfl, -⟩ := List.cons.inj heq
      exact passSafe_transient rfl (by simp) hlines₁
    · obtain ⟨rfl, hrest⟩ := List.cons.inj heq
      rcases pre with _ | ⟨ev₁, pre⟩
      · obtain ⟨rfl, -⟩ := List.cons.inj hrest
        exact passSafe_transient rfl (by simp [fspEventOf]) hlines₂
      · have hlen := congrArg List.length hrest
        simp at hlen

end Clif
