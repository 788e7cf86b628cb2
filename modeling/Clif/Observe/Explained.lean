import Clif.Observe.Health

/-!
# Observe.Explained — what a verdict explains, and what a recovery hides

`severity` and `verdict` are two lists of cases.  `verdict_explains_iff` says which snapshots the
second list leaves unexplained, `recovering_iff` in which ones a recovery stands before something
else.
-/

namespace Clif.Observe

/-! ## Causes -/

/-- The condition that a reason names. -/
def HealthReason.Holds (h : ObserveHealth) (now : ℚ) : HealthReason → Prop
  | .readError e => h.error = some e
  | .stale age => h.stale now = true ∧ ∃ x, h.ageSec now = some x ∧ age = ⌊x⌋
  | .disputes facts => facts = h.disputedFacts ∧ facts ≠ []
  | .notRegistered epoch => h.registered = some false ∧ epoch = h.rewardEpoch
  | .budget _ _ => ∃ b, h.budget = some b ∧ b.severity = some "CRIT"
  | .revealOffence n => n = h.revealOffences ∧ 0 < n
  | .participation pct =>
    pct = h.participationPct ∧ ∃ x, pct = some x ∧ x < participationCritPct
  | .fdcParticipation pct =>
    10 ≤ h.fdcRequestRounds ∧ pct = h.fdcParticipationPct ∧ ∃ x, pct = some x ∧ x < fdcCritPct
  | .warmingUp => h.windowRounds = 0
  | .isolatedMiss ms => ms = h.misses ∧ ms ≠ []

/-- How bad a reason is: a dispute is as bad as the configuration says. -/
def HealthReason.level (h : ObserveHealth) : HealthReason → Severity
  | .disputes _ => if h.quorumCrit then .crit else .warn
  | .warmingUp => .warn
  | .isolatedMiss _ => .warn
  | _ => .crit

/-- Every alarm is explained, and calls for something. -/
structure Explained (h : ObserveHealth) (now : ℚ) : Prop where
  crit : h.severity now = .crit → (h.verdict now).level = .crit ∧
    (∃ r ∈ (h.verdict now).headline.reasons, r.level h = .crit) ∧ (h.verdict now).actions ≠ []
  warn : h.severity now = .warn → h.recovering now = false →
    (h.verdict now).headline.reasons ≠ []
  ok : h.severity now = .ok → (h.verdict now).actions = []
  holds : ∀ r ∈ (h.verdict now).headline.reasons, r.Holds h now

namespace ObserveHealth

/-- A condition for CRIT that the verdict has a reason for. -/
def named (h : ObserveHealth) (now : ℚ) : Bool :=
  h.error.isSome || (h.disputed && h.quorumCrit) || h.stale now || h.unregistered || h.budgetCrit ||
    (h.windowRounds != 0 && (h.offended || h.participationLow || h.fdcLow))

/-- The snapshot shows nothing but what the verdict has no reason for: the ledger of the epoch below
the floor of the FDC, the uptime below its floor, or a hole while live. -/
def unnamed (h : ObserveHealth) (now : ℚ) : Bool :=
  !h.named now && h.windowRounds != 0 &&
    (h.epochFdcLow || h.uptimeLow || (h.liveHole && !h.isolatedMiss && !h.disputed))

variable {h : ObserveHealth} {now : ℚ}

/-! ## The severity -/

theorem severity_eq (henabled : h.enabled = true) : h.severity now =
    if h.named now then .crit
    else if h.windowRounds = 0 then .warn
    else if h.epochFdcLow || h.uptimeLow then .crit
    else if h.liveHole || h.isolatedMiss || h.disputed then .warn
    else .ok := by
  unfold severity named
  by_cases herror : h.error.isSome = true
  · simp [herror]
  by_cases hdispute : (h.disputed && h.quorumCrit) = true
  · simp [hdispute, henabled]
  by_cases hstale : h.stale now = true
  · simp [hstale, henabled]
  by_cases hreg : h.unregistered = true
  · simp [hreg, henabled]
  by_cases hbudget : h.budgetCrit = true
  · simp [hbudget, henabled]
  simp only [herror, henabled, hdispute, hstale, hreg, hbudget, Bool.not_true, Bool.false_eq_true,
    if_false, Bool.or_false] at *
  by_cases hwindow : h.windowRounds = 0
  · simp [hwindow]
  by_cases hoffended : h.offended = true
  · simp [hwindow, hoffended]
  by_cases hpart : h.participationLow = true
  · simp [hwindow, hpart]
  by_cases hfdc : h.fdcLow = true
  · simp [hwindow, hfdc]
  by_cases hepoch : h.epochFdcLow = true
  · simp [hwindow, hoffended, hpart, hfdc, hepoch]
  by_cases huptime : h.uptimeLow = true
  · simp [hwindow, hoffended, hpart, hfdc, huptime]
  by_cases hhole : h.liveHole = true
  · simp [hwindow, hoffended, hpart, hfdc, hepoch, huptime, hhole]
  by_cases hmiss : h.isolatedMiss = true
  · simp [hwindow, hoffended, hpart, hfdc, hepoch, huptime, hmiss]
  by_cases hdisp : h.disputed = true
  · simp [hwindow, hoffended, hpart, hfdc, hepoch, huptime, hdisp]
  · simp [hwindow, hoffended, hpart, hfdc, hepoch, huptime, hhole, hmiss, hdisp]

/-! ## The causes of a verdict -/

theorem mem_cause {c : Bool} {reason : HealthReason} {actions : List String}
    {x : HealthReason × List String} :
    x ∈ cause c reason actions ↔ c = true ∧ x = (reason, actions) := by
  cases c <;> simp [cause]

theorem below_iff {figure : Option ℚ} {floor : ℚ} :
    below figure floor = true ↔ ∃ x, figure = some x ∧ x < floor := by
  cases figure <;> simp [below]

theorem stale_iff : h.stale now = true ↔ ∃ x, h.ageSec now = some x ∧ staleAfterSec < x := by
  unfold stale
  cases h.ageSec now <;> simp

theorem disputed_iff : h.disputed = true ↔ h.disputedFacts ≠ [] := by simp [disputed]

theorem misses_ne_nil : h.misses ≠ [] ↔ h.isolatedMiss = true := by
  unfold misses isolatedMiss
  by_cases h1 : h.missingSubmit1 = 0
  · by_cases h2 : h.missingSubmit2 = 0
    · by_cases h3 : h.offWindow = 0
      · by_cases h4 : h.fdcMissing = 0
        · simp [h1, h2, h3, h4]
        · simp [h1, h2, h3, h4]
      · simp [h3]
    · simp [h2]
  · simp [h1]

theorem holds_of_mem_causes {x : HealthReason × List String} (hx : x ∈ h.causes now) :
    x.1.Holds h now := by
  simp only [causes, List.mem_append, mem_cause] at hx
  rcases hx with ((((((⟨hc, rfl⟩ | ⟨hc, rfl⟩) | ⟨hc, rfl⟩) | ⟨hc, rfl⟩) | ⟨hc, rfl⟩) |
    ⟨hc, rfl⟩) | ⟨hc, rfl⟩) | ⟨hc, rfl⟩
  · -- the read error
    obtain ⟨e, he⟩ := Option.isSome_iff_exists.mp hc
    show h.error = some (h.error.getD "")
    rw [he]
    rfl
  · -- stale
    obtain ⟨age, hage, -⟩ := stale_iff.mp hc
    exact ⟨hc, age, hage, by simp [hage]⟩
  · -- a dispute
    exact ⟨rfl, disputed_iff.mp hc⟩
  · -- not registered
    exact ⟨by simpa [unregistered] using hc, rfl⟩
  · -- the budget
    have hsev : (h.budget.bind BudgetStatus.severity) = some "CRIT" := by
      simpa [budgetCrit] using hc
    exact Option.bind_eq_some_iff.mp hsev
  · -- a reveal offence
    exact ⟨rfl, of_decide_eq_true hc⟩
  · -- the participation
    exact ⟨rfl, below_iff.mp hc⟩
  · -- the FDC participation
    have hboth := Bool.and_eq_true_iff.mp hc
    exact ⟨of_decide_eq_true hboth.1, rfl, below_iff.mp hboth.2⟩

theorem holds_of_mem_warnCauses {x : HealthReason × List String} (hx : x ∈ h.warnCauses) :
    x.1.Holds h now := by
  simp only [warnCauses, List.mem_append, mem_cause] at hx
  rcases hx with ⟨hc, rfl⟩ | ⟨hc, rfl⟩
  · show h.windowRounds = 0
    exact of_decide_eq_true hc
  · exact ⟨rfl, by simpa using hc⟩

/-- Where CRIT has a reason, the verdict names one and asks for something. -/
theorem crit_cause_of_named (hnamed : h.named now = true) :
    ∃ x ∈ h.causes now, x.1.level h = .crit ∧ x.2 ≠ [] := by
  simp only [named, Bool.or_eq_true, Bool.and_eq_true] at hnamed
  simp only [causes, List.mem_append, mem_cause]
  rcases hnamed with ((((herror | ⟨hdisputed, hcrit⟩) | hstale) | hreg) | hbudget) |
    ⟨-, (hoffended | hpart) | hfdc⟩
  · exact ⟨_, .inl (.inl (.inl (.inl (.inl (.inl (.inl ⟨herror, rfl⟩)))))), rfl, by simp⟩
  · refine ⟨_, .inl (.inl (.inl (.inl (.inl (.inr ⟨hdisputed, rfl⟩))))), ?_, ?_⟩
    · simp [HealthReason.level, hcrit]
    · simp [hcrit]
  · exact ⟨_, .inl (.inl (.inl (.inl (.inl (.inl (.inr ⟨hstale, rfl⟩)))))), rfl, by simp⟩
  · exact ⟨_, .inl (.inl (.inl (.inl (.inr ⟨hreg, rfl⟩)))), rfl, by simp⟩
  · exact ⟨_, .inl (.inl (.inl (.inr ⟨hbudget, rfl⟩))), rfl, by simp⟩
  · exact ⟨_, .inl (.inl (.inr ⟨hoffended, rfl⟩)), rfl, by simp⟩
  · exact ⟨_, .inl (.inr ⟨hpart, rfl⟩), rfl, by simp⟩
  · exact ⟨_, .inr ⟨hfdc, rfl⟩, rfl, by simp⟩

/-- Where it has none, every cause that is found is a dispute that does not count as CRIT. -/
theorem causes_of_not_named (hnamed : h.named now = false) (hwindow : h.windowRounds ≠ 0) :
    ∀ x ∈ h.causes now, h.disputed = true ∧ x.1.level h = .warn := by
  have hw : (h.windowRounds != 0) = true := by simpa using hwindow
  simp only [named, hw, Bool.true_and, Bool.or_eq_false_iff] at hnamed
  obtain ⟨⟨⟨⟨⟨herror, hdispute⟩, hstale⟩, hreg⟩, hbudget⟩, ⟨hoffended, hpart⟩, hfdc⟩ := hnamed
  intro x hx
  simp only [causes, List.mem_append, mem_cause, herror, hstale, hreg, hbudget, hoffended, hpart,
    hfdc, Bool.false_eq_true, false_and, or_false, false_or] at hx
  obtain ⟨hdisputed, rfl⟩ := hx
  have hcrit : h.quorumCrit = false := by simpa [hdisputed] using hdispute
  exact ⟨hdisputed, by simp [HealthReason.level, hcrit]⟩

/-! ## The verdict -/

theorem verdict_ok (henabled : h.enabled = true) (hsev : h.severity now = .ok) :
    (h.verdict now).headline.reasons = [] ∧ (h.verdict now).actions = [] := by
  unfold verdict
  simp only [henabled, hsev, Bool.not_true, Bool.false_eq_true, if_false, if_true]
  split
  · exact ⟨rfl, rfl⟩
  · exact ⟨rfl, rfl⟩

/-- An alarm that does not recover shows all that was found. -/
theorem verdict_alarm (henabled : h.enabled = true) (hsev : h.severity now ≠ .ok)
    (hrec : h.recovering now = false) :
    let found := h.causes now ++ (if h.severity now = .warn then h.warnCauses else [])
    (h.verdict now).level = h.severity now ∧
      (h.verdict now).headline.reasons = found.map Prod.fst ∧
      (h.verdict now).actions = found.flatMap Prod.snd := by
  intro found
  have hverdict : h.verdict now = ⟨h.severity now,
      .system (h.severity now) h.network (found.map Prod.fst), found.flatMap Prod.snd⟩ := by
    unfold verdict
    rw [if_neg (by simp [henabled])]
    dsimp only
    rw [if_neg hsev, if_neg (by simp [hrec])]
  rw [hverdict]
  exact ⟨rfl, rfl, rfl⟩

theorem recovering_warn (hrec : h.recovering now = true) : h.severity now = .warn := by
  unfold recovering at hrec
  split at hrec
  · cases hrec
  · rename_i hnot
    push Not at hnot
    exact hnot.1

theorem recovering_of_crit (hsev : h.severity now = .crit) : h.recovering now = false := by
  by_contra hrec
  have hwarn := recovering_warn (by simpa using hrec)
  rw [hsev] at hwarn
  cases hwarn

/-- Whatever the headline names was found. -/
theorem mem_reasons {r : HealthReason} (hr : r ∈ (h.verdict now).headline.reasons) :
    ∃ x ∈ h.causes now ++ (if h.severity now = .warn then h.warnCauses else []), x.1 = r := by
  unfold verdict at hr
  split at hr
  · cases hr
  dsimp only at hr
  split at hr
  · split at hr
    · cases hr
    · cases hr
  split at hr
  · exact List.mem_map.mp hr
  · exact List.mem_map.mp hr

/-- CRIT with nothing worse than a dispute to name, or a hole while live and nothing to name. -/
theorem unexplained_of_unnamed (henabled : h.enabled = true) (hun : h.unnamed now = true) :
    ¬ Explained h now := by
  intro hexp
  have heq := @severity_eq h now henabled
  simp only [unnamed, Bool.and_eq_true, Bool.or_eq_true, Bool.not_eq_true', bne_iff_ne,
    ne_eq] at hun
  obtain ⟨⟨hnamed, hwindow⟩, hrest⟩ := hun
  have hcauses := causes_of_not_named hnamed hwindow
  by_cases hcrit : (h.epochFdcLow || h.uptimeLow) = true
  · have hsev : h.severity now = .crit := by simp [heq, hnamed, hwindow, hcrit]
    obtain ⟨-, ⟨r, hr, hlevel⟩, -⟩ := hexp.crit hsev
    obtain ⟨x, hx, rfl⟩ := mem_reasons hr
    rw [if_neg (by rw [hsev]; decide), List.append_nil] at hx
    rw [(hcauses x hx).2] at hlevel
    cases hlevel
  · obtain ⟨⟨hhole, hmiss⟩, hdisp⟩ := hrest.resolve_left (by simpa using hcrit)
    have hsev : h.severity now = .warn := by simp [heq, hnamed, hwindow, hcrit, hhole]
    have hpos : 0 < (h.mincond.bind MincondStatus.missingInSpan).getD 0 :=
      of_decide_eq_true (Bool.and_eq_true_iff.mp hhole).2
    have hrec : h.recovering now = false := by
      unfold recovering
      rw [if_neg (by simp [hsev, hwindow]), if_pos (by omega)]
    refine hexp.warn hsev hrec (List.eq_nil_iff_forall_not_mem.mpr fun r hr => ?_)
    obtain ⟨x, hx, rfl⟩ := mem_reasons hr
    rw [if_pos hsev] at hx
    rcases List.mem_append.mp hx with hx | hx
    · rw [(hcauses x hx).1] at hdisp
      cases hdisp
    · simp only [warnCauses, List.mem_append, mem_cause] at hx
      rcases hx with ⟨hzero, -⟩ | ⟨hms, -⟩
      · exact hwindow (of_decide_eq_true hzero)
      · rw [misses_ne_nil.mp (by simpa using hms)] at hmiss
        cases hmiss

theorem named_of_crit (henabled : h.enabled = true) (hun : h.unnamed now = false)
    (hsev : h.severity now = .crit) : h.named now = true := by
  by_contra hnot
  have hnamed : h.named now = false := by simpa using hnot
  rw [severity_eq henabled, hnamed, if_neg (by decide)] at hsev
  by_cases hwindow : h.windowRounds = 0
  · rw [if_pos hwindow] at hsev
    cases hsev
  rw [if_neg hwindow] at hsev
  by_cases hcrit : (h.epochFdcLow || h.uptimeLow) = true
  · simp only [unnamed, hnamed, hcrit] at hun
    simp [hwindow] at hun
  · rw [if_neg hcrit] at hsev
    split at hsev
    · cases hsev
    · cases hsev

/-- If nothing is found, then nothing is wrong that a verdict could name. -/
theorem clear_of_no_cause (hnone : h.causes now ++ h.warnCauses = []) :
    h.named now = false ∧ h.disputed = false ∧ h.windowRounds ≠ 0 ∧ h.isolatedMiss = false := by
  obtain ⟨hcauses, hwarn⟩ := List.append_eq_nil_iff.mp hnone
  obtain ⟨hwarming, hmissing⟩ := List.append_eq_nil_iff.mp hwarn
  refine ⟨?_, ?_, fun hzero => ?_, ?_⟩
  · by_contra hnot
    obtain ⟨x, hx, -⟩ := crit_cause_of_named (by simpa using hnot : h.named now = true)
    rw [hcauses] at hx
    cases hx
  · by_contra hnot
    have hx : ((.disputes h.disputedFacts, if h.quorumCrit then
        ["reconcile against a third source before trusting these numbers"] else []) :
        HealthReason × List String) ∈ h.causes now := by
      simp only [causes, List.mem_append, mem_cause]
      exact .inl (.inl (.inl (.inl (.inl (.inr ⟨by simpa using hnot, trivial⟩)))))
    rw [hcauses] at hx
    cases hx
  · simp [cause, hzero] at hwarming
  · by_contra hnot
    have hms := misses_ne_nil.mpr (by simpa using hnot : h.isolatedMiss = true)
    simp [cause, hms] at hmissing

theorem cause_of_warn (henabled : h.enabled = true) (hun : h.unnamed now = false)
    (hsev : h.severity now = .warn) : h.causes now ++ h.warnCauses ≠ [] := by
  intro hnone
  obtain ⟨hnamed, hdisp, hwindow, hmiss⟩ := clear_of_no_cause hnone
  rw [severity_eq henabled, hnamed, if_neg (by decide), if_neg hwindow, hmiss, hdisp] at hsev
  simp only [unnamed, hnamed, hmiss, hdisp] at hun
  split at hsev
  · cases hsev
  split at hsev
  · rename_i hhole
    have hhole' : h.liveHole = true := by simpa using hhole
    simp [hwindow, hhole'] at hun
  · cases hsev

end ObserveHealth

open ObserveHealth

/-- An alarm is explained exactly if something shows that the verdict has a reason for. -/
theorem verdict_explains_iff (h : ObserveHealth) (now : ℚ) (henabled : h.enabled = true) :
    Explained h now ↔ h.unnamed now = false := by
  constructor
  · intro hexp
    by_contra hun
    exact unexplained_of_unnamed henabled (by simpa using hun) hexp
  · intro hun
    refine ⟨fun hsev => ?_, fun hsev hrec => ?_, fun hsev => (verdict_ok henabled hsev).2,
      fun r hr => ?_⟩
    · obtain ⟨hlevel, hreasons, hactions⟩ := verdict_alarm henabled (by rw [hsev]; decide)
        (recovering_of_crit hsev)
      obtain ⟨x, hx, hxlevel, hxactions⟩ :=
        crit_cause_of_named (named_of_crit henabled hun hsev)
      have hfound : x ∈ h.causes now ++ (if h.severity now = .warn then h.warnCauses else []) :=
        List.mem_append_left _ hx
      refine ⟨hlevel.trans hsev, ⟨x.1, ?_, hxlevel⟩, fun hnil => ?_⟩
      · rw [hreasons]
        exact List.mem_map_of_mem hfound
      · rw [hactions] at hnil
        exact hxactions (List.flatMap_eq_nil_iff.mp hnil x hfound)
    · obtain ⟨-, hreasons, -⟩ := verdict_alarm henabled (by rw [hsev]; decide) hrec
      rw [hreasons, if_pos hsev]
      intro hnil
      exact cause_of_warn henabled hun hsev (List.map_eq_nil_iff.mp hnil)
    · obtain ⟨x, hx, rfl⟩ := mem_reasons hr
      rcases List.mem_append.mp hx with hx | hx
      · exact holds_of_mem_causes hx
      · split at hx
        · exact holds_of_mem_warnCauses hx
        · cases hx

/-- Forty clean rounds, and an epoch that is below the floor of the FDC. -/
def epochBreach : ObserveHealth where
  network := "flare"
  enabled := true
  windowRounds := 40
  complete := 40
  trailingClean := 40
  registered := some true
  mincond := some { fdcExpected := some 100, fdcPct := some 50, missingInSpan := some 0 }

/-- The alarm says nothing but that there is one. -/
theorem epochBreach_unexplained : ¬ Explained epochBreach 0 := by
  intro h
  obtain ⟨-, ⟨r, hr, -⟩, -⟩ := h.crit (by decide +kernel)
  have hnone : (epochBreach.verdict 0).headline.reasons.isEmpty = true := by decide +kernel
  rw [List.isEmpty_iff.mp hnone] at hr
  cases hr

/-- A reveal offence has its reason. -/
theorem explained_offence : Explained { epochBreach with revealOffences := 1 } 0 :=
  (verdict_explains_iff _ 0 rfl).mpr (by decide +kernel)

/-! ## Recovery -/

/-- The snapshot without its isolated misses. -/
def ObserveHealth.withoutMisses (h : ObserveHealth) : ObserveHealth :=
  { h with missingSubmit1 := 0, missingSubmit2 := 0, offWindow := 0, fdcMissing := 0 }

/-- A condition for CRIT. -/
def ObserveHealth.critical (h : ObserveHealth) (now : ℚ) : Prop :=
  h.error.isSome = true ∨ (h.disputed && h.quorumCrit) = true ∨ h.stale now = true ∨
    h.unregistered = true ∨ h.budgetCrit = true ∨ h.offended = true ∨ h.participationLow = true ∨
    h.fdcLow = true ∨ h.epochFdcLow = true ∨ h.uptimeLow = true

/-- Isolated misses are all that is wrong. -/
structure NothingElse (h : ObserveHealth) (now : ℚ) : Prop where
  clear : h.withoutMisses.severity now = .ok
  undisputed : h.disputedFacts = []
  hole : h.hole = false
  window : h.windowRounds ≠ 0
  notCritical : ¬ h.critical now

namespace ObserveHealth

variable {h : ObserveHealth} {now : ℚ}

theorem enabled_of_warn (hsev : h.severity now = .warn) : h.enabled = true := by
  unfold severity at hsev
  by_contra henabled
  have hoff : h.enabled = false := by simpa using henabled
  by_cases herror : h.error.isSome = true
  · simp [herror] at hsev
  · simp [herror, hoff] at hsev

/-- The severity without the misses: nothing else changes. -/
theorem withoutMisses_severity (henabled : h.enabled = true) : h.withoutMisses.severity now =
    if h.named now then .crit
    else if h.windowRounds = 0 then .warn
    else if h.epochFdcLow || h.uptimeLow then .crit
    else if h.liveHole || h.disputed then .warn
    else .ok := by
  have heq := @severity_eq h.withoutMisses now henabled
  have hmiss : h.withoutMisses.isolatedMiss = false := rfl
  rw [hmiss, Bool.or_false] at heq
  exact heq

/-- What a recovery has looked at. -/
structure Recovers (h : ObserveHealth) (now : ℚ) : Prop where
  warn : h.severity now = .warn
  window : h.windowRounds ≠ 0
  hole : h.hole = false

theorem recovers (hrec : h.recovering now = true) : h.Recovers now := by
  unfold recovering at hrec
  by_cases hfirst : h.severity now ≠ .warn ∨ h.windowRounds = 0
  · rw [if_pos hfirst] at hrec
    cases hrec
  rw [if_neg hfirst] at hrec
  push Not at hfirst
  by_cases hspan : (h.mincond.bind MincondStatus.missingInSpan).getD 0 ≠ 0
  · rw [if_pos hspan] at hrec
    cases hrec
  · refine ⟨hfirst.1, hfirst.2, ?_⟩
    unfold hole
    rw [not_not.mp hspan]
    decide

/-- A snapshot of severity WARN has no condition for CRIT, once its window is filled. -/
theorem Recovers.calm (hr : h.Recovers now) :
    h.named now = false ∧ (h.epochFdcLow || h.uptimeLow) = false := by
  have hsev := hr.warn
  rw [severity_eq (enabled_of_warn hr.warn), if_neg hr.window] at hsev
  have hnamed : h.named now = false := by
    by_contra hnot
    rw [if_pos (by simpa using hnot)] at hsev
    cases hsev
  refine ⟨hnamed, ?_⟩
  by_contra hnot
  have hcrit : (h.epochFdcLow || h.uptimeLow) = true := by
    revert hnot
    cases (h.epochFdcLow || h.uptimeLow) <;> simp
  rw [hnamed, if_neg (by decide), if_pos hcrit] at hsev
  cases hsev

theorem Recovers.notCritical (hr : h.Recovers now) : ¬ h.critical now := by
  obtain ⟨hnamed, hcrit⟩ := hr.calm
  have hw : (h.windowRounds != 0) = true := by simpa using hr.window
  simp only [named, hw, Bool.true_and, Bool.or_eq_false_iff] at hnamed
  obtain ⟨⟨⟨⟨⟨herror, hdispute⟩, hstale⟩, hreg⟩, hbudget⟩, ⟨hoffended, hpart⟩, hfdc⟩ := hnamed
  obtain ⟨hepoch, huptime⟩ := Bool.or_eq_false_iff.mp hcrit
  unfold critical
  simp [herror, hdispute, hstale, hreg, hbudget, hoffended, hpart, hfdc, hepoch, huptime]

theorem Recovers.withoutMisses (hr : h.Recovers now) :
    h.withoutMisses.severity now = if h.disputed then .warn else .ok := by
  obtain ⟨hnamed, hcrit⟩ := hr.calm
  have hhole : h.liveHole = false := by
    unfold liveHole
    rw [hr.hole, Bool.and_false]
  rw [withoutMisses_severity (enabled_of_warn hr.warn), hnamed, if_neg (by decide),
    if_neg hr.window, hcrit, if_neg (by decide), hhole, Bool.false_or]

theorem withoutMisses_of_ok (hsev : h.severity now = .ok) : h.withoutMisses.severity now = .ok := by
  by_cases henabled : h.enabled = true
  · rw [severity_eq henabled] at hsev
    rw [withoutMisses_severity henabled]
    split_ifs at hsev ⊢ with hnamed hwindow hcrit hsome hany
    · rcases Bool.or_eq_true_iff.mp hsome with hhole | hdisp
      · simp [hhole] at hany
      · simp [hdisp] at hany
    · rfl
  · unfold severity at hsev ⊢
    by_cases herror : h.error.isSome = true
    · rw [if_pos herror] at hsev
      cases hsev
    · rw [if_neg (show ¬ h.withoutMisses.error.isSome = true from herror),
        if_pos (by simpa [withoutMisses] using henabled)]

end ObserveHealth

/-- A snapshot that counts as resolved has nothing behind it, unless a fact is disputed. -/
theorem ObserveHealth.clear_of_resolved {h : ObserveHealth} {now : ℚ}
    (hresolved : h.severity now = .ok ∨ h.recovering now = true) (hnone : h.disputedFacts = []) :
    h.withoutMisses.severity now = .ok := by
  rcases hresolved with hok | hrec
  · exact withoutMisses_of_ok hok
  · rw [(recovers hrec).withoutMisses, if_neg]
    rw [disputed_iff]
    exact not_not.mpr hnone

/-- A recovery stands before nothing else exactly if no fact is disputed; where none is, neither the
relaxed cadence of the report nor its level hides anything else. -/
theorem recovering_iff (h : ObserveHealth) (now : ℚ) :
    (h.recovering now = true → (NothingElse h now ↔ h.disputedFacts = [])) ∧
    (∀ healthySec degradedSec, healthySec ≠ degradedSec →
      reportInterval (h.severity now) healthySec degradedSec (h.recovering now) = healthySec →
      h.disputedFacts = [] → h.withoutMisses.severity now = .ok) ∧
    (statusLogLevel h now = .info → h.disputedFacts = [] →
      h.withoutMisses.severity now = .ok) := by
  refine ⟨fun hrec => ⟨fun hnothing => hnothing.undisputed, fun hnone => ?_⟩,
    fun healthySec degradedSec hne hinterval => clear_of_resolved ?_,
    fun hlevel => clear_of_resolved ?_⟩
  · have hr := recovers hrec
    exact ⟨clear_of_resolved (.inr hrec) hnone, hnone, hr.hole, hr.window, hr.notCritical⟩
  · unfold reportInterval at hinterval
    by_contra hnot
    push Not at hnot
    rw [if_pos ⟨hnot.1, by simpa using hnot.2⟩] at hinterval
    exact hne hinterval.symm
  · unfold statusLogLevel at hlevel
    by_contra hnot
    push Not at hnot
    cases hsev : h.severity now with
    | ok => exact hnot.1 hsev
    | crit =>
      rw [if_pos hsev] at hlevel
      cases hlevel
    | warn =>
      rw [if_neg (by rw [hsev]; decide), if_pos ⟨hsev, by simpa using hnot.2⟩] at hlevel
      cases hlevel

/-- A commit was missed a while ago, and the other node disputes that we are registered. -/
def disputedMiss : ObserveHealth where
  network := "flare"
  enabled := true
  windowRounds := 40
  complete := 39
  trailingClean := 20
  missingSubmit1 := 1
  quorum := some (Dict.empty.set "registered" (some ⟨some "dispute"⟩))

/-- The dispute is behind the recovery. -/
theorem disputedMiss_recovers : disputedMiss.recovering 0 = true ∧
    disputedMiss.withoutMisses.severity 0 = .warn ∧ ¬ NothingElse disputedMiss 0 := by
  refine ⟨by decide +kernel, by decide +kernel, fun h => ?_⟩
  have hsome : disputedMiss.disputedFacts.isEmpty = false := by decide +kernel
  rw [h.undisputed] at hsome
  cases hsome

/-- The same miss with nothing behind it. -/
theorem plainMiss_recovers : NothingElse { disputedMiss with quorum := none } 0 :=
  ((recovering_iff _ 0).1 (by decide +kernel)).mpr rfl

end Clif.Observe
