import Clif.Staleness

/-!
# Fleet — the processes of `clif epoch run` over one status file

The watermark lives in a process, and between two processes only in the status file.
`watermark_survives` says that no run loses it in which no idle report replaces it.
-/

namespace Clif

open Effect

/-- The status file, and the enabled process that is up. -/
structure Fleet where
  status : Option Report := none
  process : Option Process := none

inductive FleetEvent where
  /-- An enabled process starts, without `--from-epoch`; whether it can read the status file. -/
  | start (read : Bool)
  /-- A cycle ends, and its report is written. -/
  | cycle (report : Report)
  /-- A disabled process writes its report. -/
  | idle (report : Report)
  /-- The enabled process ends; a cycle that it has begun leaves no report. -/
  | down

/-! ## What the reports of a run show -/

def reportOfEvent : FleetEvent → Option Report
  | .cycle report => some report
  | _ => none

/-- The reports of the cycles. -/
def cycleReports (es : List FleetEvent) : List Report := es.filterMap reportOfEvent

/-- The current epochs of the cycles that ran to their end. -/
def epochsRead (es : List FleetEvent) : List Int := (cycleReports es).filterMap Report.currentEpoch

/-- A report lists the epoch. -/
def Report.Lists (report : Report) (e : Int) : Prop := ∃ v ∈ report.epochs, v.epoch = e

/-- A report shows the epoch as closed and not done. -/
def ShownOpen (es : List FleetEvent) (e : Int) : Prop :=
  ∃ report ∈ cycleReports es, ∃ v ∈ report.epochs, v.epoch = e ∧ v.done = false

/-- A report shows the epoch as done, or a cycle skipped it by the catch-up cap. -/
def Dealt (es : List FleetEvent) (e : Int) : Prop :=
  (∃ report ∈ cycleReports es, ∃ v ∈ report.epochs, v.epoch = e ∧ v.done = true) ∨
    ∃ c ∈ epochsRead es, e < c - maxCatchup

section

variable {es : List FleetEvent} {ev : FleetEvent} {e : Int}

theorem cycleReports_silent (h : reportOfEvent ev = none) :
    cycleReports (es ++ [ev]) = cycleReports es := by
  simp [cycleReports, h]

theorem cycleReports_cycle {report : Report} :
    cycleReports (es ++ [.cycle report]) = cycleReports es ++ [report] := by
  simp [cycleReports, reportOfEvent]

theorem mem_epochsRead_append {es' : List FleetEvent} {c : Int} (h : c ∈ epochsRead es) :
    c ∈ epochsRead (es ++ es') := by
  unfold epochsRead cycleReports at h ⊢
  rw [List.filterMap_append, List.filterMap_append]
  exact List.mem_append_left _ h

theorem Dealt.append (h : Dealt es e) (es' : List FleetEvent) : Dealt (es ++ es') e := by
  rcases h with ⟨report, hrep, hv⟩ | ⟨c, hc, hlt⟩
  · refine .inl ⟨report, ?_, hv⟩
    unfold cycleReports
    rw [List.filterMap_append]
    exact List.mem_append_left _ hrep
  · exact .inr ⟨c, mem_epochsRead_append hc, hlt⟩

end

/-! ## Steps -/

/-- `prior.get("last_done_epoch")`. -/
def Fleet.mark (f : Fleet) : Option Int := f.status.bind Report.lastDoneEpoch

/-- What can happen: the enabled processes exclude each other by their lock; a disabled one takes
no lock. -/
inductive FleetStep [External] (f : Fleet) : FleetEvent → Fleet → Prop where
  | start {read : Bool} (hdown : f.process = none) :
      FleetStep f (.start read)
        { f with process := some (Process.start none (if read then f.status else none)) }
  | cycle {s : Settings} {voter : String} {claimers : List (Int × String)} {interval : Int}
      {now reportNow : ℚ} {p p' : Process} {t : Trace} {report : Report}
      (hup : f.process = some p)
      (hrun : RunsOn (daemonCycle s voter claimers interval now reportNow) p t (.ok report) p') :
      FleetStep f (.cycle report) { status := some report, process := some p' }
  | idle {network : Network} {interval : Int} {now : ℚ} :
      FleetStep f (.idle (buildDisabledReport network interval now))
        { f with status := some (buildDisabledReport network interval now) }
  | down {p : Process} (hup : f.process = some p) : FleetStep f .down { f with process := none }

/-- The step keeps the watermark of the status file: an enabled process reads it, and no idle report
replaces it. -/
def KeepsMark (f : Fleet) : FleetEvent → Prop
  | .start read => read = true ∨ f.mark = none
  | .idle _ => f.mark = none
  | _ => True

/-! ## One cycle -/

section

variable {key : String} {now : ℚ} {cd current : Int} {lastDone : Option Int} {st st' : AutoState}
  {ds : List (Int × Except Exc EpochObs)} {w c : Int} {obs : List EpochObs}

theorem CycleSpec.mark_covers
    (h : CycleSpec key now cd lastDone current st ds (.ok (w, c, obs)) st')
    (hstart : startWatermark lastDone c < c) : w < c ∧ ∀ e, 0 ≤ e →
      startWatermark lastDone c < e → e ≤ w →
        e < c - maxCatchup ∨ ∃ o ∈ obs, o.epoch = e ∧ o.done = true := by
  obtain ⟨rfl, hmap, hmark, -, -⟩ := h.returned _ _ _ rfl
  exact (advanceMark_covers hmap hmark hstart).2

end

/-- What a written report owes to the cycle, and to the watermark before it. -/
inductive CycleReport (lastDone : Option Int) (report : Report) : Option Int → Prop where
  | failed (hmark : report.lastDoneEpoch = lastDone) (hcurrent : report.currentEpoch = none)
      (hepochs : report.epochs = []) : CycleReport lastDone report lastDone
  | returned {w c : Int} (hmark : report.lastDoneEpoch = some w)
      (hcurrent : report.currentEpoch = some c)
      (hlisted : ∀ e, report.Lists e ↔ startWatermark lastDone c < e ∧ c - maxCatchup ≤ e ∧ 0 ≤ e ∧
        e < c)
      (hopen : ∀ v ∈ report.epochs, v.done = false → w < v.epoch)
      (hcovers : startWatermark lastDone c < c → w < c ∧ ∀ e, 0 ≤ e →
        startWatermark lastDone c < e → e ≤ w →
          e < c - maxCatchup ∨ ∃ v ∈ report.epochs, v.epoch = e ∧ v.done = true) :
      CycleReport lastDone report (some w)

section

variable [External] {f f' : Fleet} {es : List FleetEvent} {ev : FleetEvent}

theorem daemonCycle_report {s : Settings} {voter : String} {claimers : List (Int × String)}
    {interval : Int} {now reportNow : ℚ} {p p' : Process} {t : Trace} {report : Report}
    (h : RunsOn (daemonCycle s voter claimers interval now reportNow) p t (.ok report) p') :
    CycleReport p.lastDone report p'.lastDone := by
  obtain ⟨auto, mark, current, obs, hout, -, hmark, hreport⟩ := daemonCycle_outcome h
  rw [hmark, hreport]
  cases hout with
  | unread => exact .failed rfl rfl rfl
  | raised => exact .failed rfl rfl rfl
  | @returned c w ds obs auto hread hspec =>
    have hmap := (hspec.returned _ _ _ rfl).2.1
    refine .returned rfl rfl (fun e => ?_) (fun v hv hopen => ?_) fun hstart => ?_
    · rw [← mem_cycleEpochs, ← hmap]
      simp [Report.Lists, buildEpochReport, EpochObs.view]
    · obtain ⟨o, ho, rfl⟩ := List.mem_map.mp hv
      exact hspec.mark_lt rfl ho hopen
    · obtain ⟨hlt, hcovers⟩ := hspec.mark_covers hstart
      refine ⟨hlt, fun e h0 hlo hle => ?_⟩
      rcases hcovers e h0 hlo hle with hcap | ⟨o, ho, he, hdone⟩
      · exact .inl hcap
      · exact .inr ⟨o.view, List.mem_map_of_mem ho, he, hdone⟩

/-! ## Runs -/

/-- The watermark is there, and below the epoch, unless the epoch is dealt with. -/
def Guards (es : List FleetEvent) (e : Int) (mark : Option Int) : Prop :=
  ∃ w, mark = some w ∧ (w < e ∨ Dealt es e)

/-- What is known of the watermarks after the events `es`. -/
structure Fleet.Kept (f : Fleet) (es : List FleetEvent) : Prop where
  shown : ∀ e, ShownOpen es e → 0 ≤ e ∧ ∃ c ∈ epochsRead es, e < c
  fileBelow : ∀ w, f.mark = some w → ∃ c ∈ epochsRead es, w < c
  below : ∀ p, f.process = some p → ∀ w, p.lastDone = some w → ∃ c ∈ epochsRead es, w < c
  file : ∀ e, ShownOpen es e → Guards es e f.mark
  guarded : ∀ e, ShownOpen es e → ∀ p, f.process = some p → Guards es e p.lastDone

omit [External] in
theorem Guards.append {e : Int} {mark : Option Int} (h : Guards es e mark) (es' : List FleetEvent) :
    Guards (es ++ es') e mark := by
  obtain ⟨w, hw, hor⟩ := h
  exact ⟨w, hw, hor.imp_right fun hd => hd.append es'⟩

omit [External] in
/-- An event without a report changes nothing of what is known of the epochs. -/
theorem Fleet.Kept.silent (h : f.Kept es) (hsilent : reportOfEvent ev = none)
    (hmark : f'.mark = f.mark ∨ f.mark = none ∧ f'.mark = none)
    (hprocess : ∀ p, f'.process = some p → p.lastDone = f.mark ∨
      ∃ p₀, f.process = some p₀ ∧ p.lastDone = p₀.lastDone) : f'.Kept (es ++ [ev]) := by
  have hsame : f'.mark = f.mark := hmark.elim id fun h => h.2.trans h.1.symm
  have hreports := @cycleReports_silent es ev hsilent
  have hread : epochsRead (es ++ [ev]) = epochsRead es := by
    unfold epochsRead
    rw [hreports]
  have hshown : ∀ e, ShownOpen (es ++ [ev]) e ↔ ShownOpen es e := by
    intro e
    unfold ShownOpen
    rw [hreports]
  refine ⟨?_, ?_, ?_, ?_, ?_⟩
  · intro e he
    rw [hread]
    exact h.shown e ((hshown e).mp he)
  · rw [hsame, hread]
    exact h.fileBelow
  · intro p hp w hw
    rw [hread]
    rcases hprocess p hp with heq | ⟨p₀, hp₀, heq⟩
    · exact h.fileBelow w (heq ▸ hw)
    · exact h.below p₀ hp₀ w (heq ▸ hw)
  · intro e he
    rw [hsame]
    exact (h.file e ((hshown e).mp he)).append _
  · intro e he p hp
    rcases hprocess p hp with heq | ⟨p₀, hp₀, heq⟩
    · rw [heq]
      exact (h.file e ((hshown e).mp he)).append _
    · rw [heq]
      exact (h.guarded e ((hshown e).mp he) p₀ hp₀).append _

omit [External] in
theorem epochsRead_cycle {report : Report} :
    epochsRead (es ++ [.cycle report]) = epochsRead es ++ report.currentEpoch.toList := by
  unfold epochsRead
  rw [cycleReports_cycle, List.filterMap_append]
  cases h : report.currentEpoch with
  | none => simp [h]
  | some c => simp [h]

omit [External] in
theorem shownOpen_cycle {report : Report} {e : Int} (h : ShownOpen (es ++ [.cycle report]) e) :
    ShownOpen es e ∨ ∃ v ∈ report.epochs, v.epoch = e ∧ v.done = false := by
  obtain ⟨report', hmem, hv⟩ := h
  rw [cycleReports_cycle] at hmem
  rcases List.mem_append.mp hmem with hmem | hmem
  · exact .inl ⟨report', hmem, hv⟩
  · rw [List.mem_singleton.mp hmem] at hv
    exact .inr hv

omit [External] in
/-- The watermark of a process is below the epoch that it reads. -/
theorem Fleet.Kept.start_lt (h : f.Kept es) {p : Process} {c : Int} (hup : f.process = some p)
    (hsort : ∀ c' ∈ epochsRead es, c' ≤ c) : startWatermark p.lastDone c < c := by
  unfold startWatermark
  cases hv : p.lastDone with
  | none =>
    show c - 2 < c
    omega
  | some v =>
    obtain ⟨c', hc', hlt⟩ := h.below p hup v hv
    exact lt_of_lt_of_le hlt (hsort c' hc')

omit [External] in
theorem Fleet.Kept.cycle (h : f.Kept es) {p p' : Process} {report : Report}
    (hup : f.process = some p) (hreport : CycleReport p.lastDone report p'.lastDone)
    (hsort : ∀ c' ∈ epochsRead es, ∀ c ∈ report.currentEpoch, c' ≤ c) :
    Fleet.Kept { status := some report, process := some p' } (es ++ [.cycle report]) := by
  generalize hm : p'.lastDone = mark at hreport
  have hmark : ∀ {m : Option Int}, report.lastDoneEpoch = m →
      Fleet.mark { status := some report, process := some p' } = m := fun h => h
  cases hreport with
  | failed hfile hcurrent hepochs =>
    have hread : epochsRead (es ++ [.cycle report]) = epochsRead es := by
      rw [epochsRead_cycle, hcurrent]
      exact List.append_nil _
    have hshown : ∀ e, ShownOpen (es ++ [.cycle report]) e → ShownOpen es e := by
      intro e he
      rcases shownOpen_cycle he with he | ⟨v, hv, -⟩
      · exact he
      · rw [hepochs] at hv
        cases hv
    refine ⟨?_, ?_, ?_, ?_, ?_⟩
    · intro e he
      rw [hread]
      exact h.shown e (hshown e he)
    · rw [hmark hfile, hread]
      exact h.below p hup
    · rintro _ ⟨⟩
      rw [hm, hread]
      exact h.below p hup
    · intro e he
      rw [hmark hfile]
      exact (h.guarded e (hshown e he) p hup).append _
    · rintro e he _ ⟨⟩
      rw [hm]
      exact (h.guarded e (hshown e he) p hup).append _
  | @returned w c hfile hcurrent hlisted hopen hcovers =>
    have hread : epochsRead (es ++ [.cycle report]) = epochsRead es ++ [c] := by
      rw [epochsRead_cycle, hcurrent]
      rfl
    have hc : c ∈ epochsRead (es ++ [.cycle report]) := by
      rw [hread]
      exact List.mem_append_right _ (List.mem_singleton_self c)
    have hin : report ∈ cycleReports (es ++ [.cycle report]) := by
      rw [cycleReports_cycle]
      exact List.mem_append_right _ (List.mem_singleton_self report)
    obtain ⟨hlt, hcovers⟩ := hcovers (h.start_lt hup fun c' hc' => hsort c' hc' c hcurrent)
    have hguards : ∀ e, ShownOpen (es ++ [.cycle report]) e →
        Guards (es ++ [.cycle report]) e (some w) := by
      intro e he
      refine ⟨w, rfl, ?_⟩
      rcases shownOpen_cycle he with he | ⟨v, hv, rfl, hopen'⟩
      · obtain ⟨v, hv, hlo | hdealt⟩ := h.guarded e he p hup
        · by_cases hle : e ≤ w
          · -- the cycle moves the watermark over the epoch
            have hstart : startWatermark p.lastDone c < e := by
              rw [hv]
              exact hlo
            rcases hcovers e (h.shown e he).1 hstart hle with hcap | hdone
            · exact .inr (.inr ⟨c, hc, hcap⟩)
            · exact .inr (.inl ⟨report, hin, hdone⟩)
          · exact .inl (not_le.mp hle)
        · exact .inr (hdealt.append _)
      · exact .inl (hopen v hv hopen')
    refine ⟨?_, ?_, ?_, ?_, ?_⟩
    · intro e he
      rcases shownOpen_cycle he with he | ⟨v, hv, hve, -⟩
      · obtain ⟨h0, c', hc', hlt'⟩ := h.shown e he
        exact ⟨h0, c', mem_epochsRead_append hc', hlt'⟩
      · obtain ⟨-, -, h0, hlt'⟩ := (hlisted e).mp ⟨v, hv, hve⟩
        exact ⟨h0, c, hc, hlt'⟩
    · rw [hmark hfile]
      rintro _ ⟨⟩
      exact ⟨c, hc, hlt⟩
    · rintro _ ⟨⟩
      rw [hm]
      rintro _ ⟨⟩
      exact ⟨c, hc, hlt⟩
    · rw [hmark hfile]
      exact hguards
    · rintro e he _ ⟨⟩
      rw [hm]
      exact hguards e he

omit [External] in
/-- A cycle that runs to its end lists an epoch that was shown as open. -/
theorem Fleet.Kept.listed (h : f.Kept es) {p : Process} {report : Report} {mark : Option Int}
    {c e : Int} (hup : f.process = some p) (hreport : CycleReport p.lastDone report mark)
    (hcurrent : report.currentEpoch = some c) (hsort : ∀ c' ∈ epochsRead es, c' ≤ c)
    (he : ShownOpen es e) : report.Lists e ∨ Dealt (es ++ [.cycle report]) e := by
  cases hreport with
  | failed _ hnone _ =>
    rw [hnone] at hcurrent
    cases hcurrent
  | @returned w c₁ _ hcurrent₁ hlisted _ _ =>
    obtain rfl : c₁ = c := Option.some.inj (hcurrent₁.symm.trans hcurrent)
    obtain ⟨h0, c', hc', hlt⟩ := h.shown e he
    have hclosed := hsort c' hc'
    obtain ⟨v, hv, hlo | hdealt⟩ := h.guarded e he p hup
    · by_cases hcap : e < c₁ - maxCatchup
      · refine .inr (.inr ⟨c₁, ?_, hcap⟩)
        rw [epochsRead_cycle, hcurrent]
        exact List.mem_append_right _ (List.mem_singleton_self c₁)
      · refine .inl ((hlisted e).mpr ⟨?_, not_lt.mp hcap, h0, by omega⟩)
        rw [hv]
        exact hlo
    · exact .inr (hdealt.append _)

theorem Fleet.Kept.step (h : f.Kept es) (hstep : FleetStep f ev f') (hkeeps : KeepsMark f ev)
    (hsort : (epochsRead (es ++ [ev])).Pairwise (· ≤ ·)) : f'.Kept (es ++ [ev]) := by
  cases hstep with
  | @start read hdown =>
    refine h.silent rfl (.inl rfl) fun p hp => .inl ?_
    cases hp
    rcases hkeeps with rfl | hnone
    · rfl
    · cases read with
      | true => rfl
      | false => exact hnone.symm
  | cycle hup hrun =>
    refine h.cycle hup (daemonCycle_report hrun) fun c' hc' c hc => ?_
    rw [epochsRead_cycle, hc] at hsort
    exact (List.pairwise_append.mp hsort).2.2 c' hc' c (List.mem_singleton_self c)
  | idle => exact h.silent rfl (.inr ⟨hkeeps, rfl⟩) fun p hp => .inr ⟨p, hp, rfl⟩
  | down hup =>
    refine h.silent rfl (.inl rfl) fun p hp => ?_
    cases hp

theorem kept_run (hrun : Run (fun f ev f' => FleetStep f ev f' ∧ KeepsMark f ev) {} es f)
    (hsort : (epochsRead es).Pairwise (· ≤ ·)) : f.Kept es := by
  induction hrun with
  | nil =>
    refine ⟨?_, ?_, ?_, ?_, ?_⟩
    · rintro e ⟨report, hreport, -⟩
      cases hreport
    · intro w hw
      cases hw
    · intro p hp
      cases hp
    · rintro e ⟨report, hreport, -⟩
      cases hreport
    · rintro e ⟨report, hreport, -⟩
      cases hreport
  | snoc _ hstep ih =>
    refine (ih ?_).step hstep.1 hstep.2 hsort
    unfold epochsRead cycleReports at hsort ⊢
    rw [List.filterMap_append, List.filterMap_append] at hsort
    exact (List.pairwise_append.mp hsort).1

/-- Where no idle report replaces a watermark, and the status file is read at each start, an epoch
that some report shows as closed and not done stays above the watermark, and every later cycle that
runs to its end lists it, until it is done or skipped by the cap. -/
theorem watermark_survives
    (hrun : Run (fun f ev f' => FleetStep f ev f' ∧ KeepsMark f ev) {} es f)
    (hsort : (epochsRead es).Pairwise (· ≤ ·)) :
    (∀ e, ShownOpen es e → ∀ p, f.process = some p → Guards es e p.lastDone) ∧
    ∀ before report later, es = before ++ .cycle report :: later →
      report.currentEpoch.isSome → ∀ e, ShownOpen before e →
        report.Lists e ∨ Dealt (before ++ [.cycle report]) e := by
  refine ⟨(kept_run hrun hsort).guarded, ?_⟩
  rintro before report later rfl hsome e he
  obtain ⟨f₁, hbefore, hrest⟩ := hrun.append_inv
  obtain ⟨f₂, ⟨hstep, -⟩, -⟩ := hrest.cons_inv
  obtain ⟨c, hcurrent⟩ := Option.isSome_iff_exists.mp hsome
  have hsort₁ : (epochsRead (before ++ [.cycle report])).Pairwise (· ≤ ·) := by
    rw [show before ++ .cycle report :: later = (before ++ [.cycle report]) ++ later by simp] at hsort
    unfold epochsRead cycleReports at hsort ⊢
    rw [List.filterMap_append, List.filterMap_append] at hsort
    exact (List.pairwise_append.mp hsort).1
  rw [epochsRead_cycle, hcurrent] at hsort₁
  obtain ⟨hsorted, -, hlast⟩ := List.pairwise_append.mp hsort₁
  cases hstep with
  | cycle hup hreport =>
    exact (kept_run hbefore hsorted).listed hup (daemonCycle_report hreport) hcurrent
      (fun c' hc' => hlast c' hc' c (List.mem_singleton_self c)) he

end

/-! ### Two processes, with and without an idle report between them -/

/-- The node answers the current epoch `c`, and that we signed; the network is not through. -/
def awaitingWorld (c : Int) : (op : Op) → op.Ans
  | .rpc (.currentRewardEpochId _) => .result c
  | op => answeringWorld op

def awaitingCycle (c : Int) (p : Process) : Trace × Except Exc Report × Process :=
  execOn (S := sig) (awaitingWorld c) (@daemonCycle External.static {} bareArgs.voter [] 1800 0 1) p

/-- The epochs of a report, and whether they are done; the current epoch; the watermark. -/
def Report.view (report : Report) : List (Int × Bool) × Option Int × Option Int :=
  (report.epochs.map fun v => (v.epoch, v.done), report.currentEpoch, report.lastDoneEpoch)

theorem awaiting_step {f : Fleet} {p : Process} {c : Int}
    {view : List (Int × Bool) × Option Int × Option Int} (hup : f.process = some p)
    (h : (awaitingCycle c p).2.1.toOption.map Report.view = some view) :
    ∃ report, @FleetStep External.static f (.cycle report)
        { status := some report, process := some (awaitingCycle c p).2.2 } ∧
      report.view = view := by
  obtain ⟨report, hreport, hview⟩ := Option.map_eq_some_iff.mp h
  have hok : (awaitingCycle c p).2.1 = .ok report := by
    cases hr : (awaitingCycle c p).2.1 with
    | ok report' =>
      rw [hr] at hreport
      cases hreport
      rfl
    | error e =>
      rw [hr] at hreport
      cases hreport
  have hrun := execOn_runs (S := sig) (awaitingWorld c)
    (@daemonCycle External.static {} bareArgs.voter [] 1800 0 1) p
  rw [show (execOn (S := sig) (awaitingWorld c)
    (@daemonCycle External.static {} bareArgs.voter [] 1800 0 1) p).2.1 = .ok report from hok] at hrun
  exact ⟨report, @FleetStep.cycle External.static f _ _ _ _ _ _ _ _ _ _ hup hrun, hview⟩

theorem mem_of_view {report : Report} {l : List (Int × Bool)} {c w : Option Int} {e : Int} {d : Bool}
    (h : report.view = (l, c, w)) :
    (e, d) ∈ l ↔ ∃ v ∈ report.epochs, v.epoch = e ∧ v.done = d := by
  have hl : (report.epochs.map fun v => (v.epoch, v.done)) = l := congrArg Prod.fst h
  rw [← hl]
  simp

/-- The second process lists the epoch 5, that the first one showed as open. -/
theorem watermark_survives_restart : ∃ before report, ShownOpen before 5 ∧
    epochsRead (before ++ [.cycle report]) = [6, 7] ∧
    (report.Lists 5 ∨ Dealt (before ++ [.cycle report]) 5) := by
  obtain ⟨first, hfirst, hview⟩ := @awaiting_step { process := some (Process.start none none) } _ 6
    ([(5, false)], some 6, some 4) rfl (by decide +kernel)
  have hmark : Process.start none (some first) = { lastDone := some 4 } := by
    unfold Process.start
    rw [show resumeWatermark none (some first) = some 4 from congrArg (·.2.2) hview]
  obtain ⟨second, hsecond, hview'⟩ := @awaiting_step
    { status := some first, process := some (Process.start none (some first)) }
    { lastDone := some 4 } 7 ([(5, false), (6, false)], some 7, some 4) (by rw [hmark])
    (by decide +kernel)
  have hread : epochsRead ([.start true, .cycle first, .down, .start true] ++ [.cycle second]) =
      [6, 7] := by
    unfold epochsRead
    rw [show cycleReports ([.start true, .cycle first, .down, .start true] ++ [.cycle second]) =
      [first, second] from rfl, List.filterMap_cons, List.filterMap_cons,
      show first.currentEpoch = some 6 from congrArg (·.2.1) hview,
      show second.currentEpoch = some 7 from congrArg (·.2.1) hview']
    rfl
  have hstart : Run (fun f ev f' => @FleetStep External.static f ev f' ∧ KeepsMark f ev) {}
      [.start true] { process := some (Process.start none none) } :=
    .single ⟨@FleetStep.start External.static _ true rfl, .inl rfl⟩
  have hrun : Run (fun f ev f' => @FleetStep External.static f ev f' ∧ KeepsMark f ev) {}
      ([.start true, .cycle first, .down, .start true] ++ [.cycle second]) _ :=
    (((hstart.snoc ⟨hfirst, trivial⟩).snoc ⟨@FleetStep.down External.static _ _ rfl, trivial⟩).snoc
      ⟨@FleetStep.start External.static _ true rfl, .inl rfl⟩).snoc ⟨hsecond, trivial⟩
  have hopen : ShownOpen [.start true, .cycle first, .down, .start true] 5 :=
    ⟨first, List.mem_cons_self, (mem_of_view hview).mp (List.mem_singleton_self _)⟩
  refine ⟨[.start true, .cycle first, .down, .start true], second, hopen, hread, ?_⟩
  refine (@watermark_survives External.static _ _ hrun ?_).2 _ second [] rfl ?_ 5 hopen
  · rw [hread]
    decide
  · rw [show second.currentEpoch = some 7 from congrArg (·.2.1) hview']
    rfl

/-- A first process shows the epoch 5 as open; a disabled one replaces its report; the next process
does not come to the epoch 5 any more. -/
theorem idleReport_skips : ∃ before report f, Run (@FleetStep External.static) {}
      (before ++ [.cycle report]) f ∧
    (epochsRead (before ++ [.cycle report])).Pairwise (· ≤ ·) ∧ report.currentEpoch.isSome ∧
    ShownOpen before 5 ∧ ¬ Dealt (before ++ [.cycle report]) 5 ∧ ¬ report.Lists 5 := by
  obtain ⟨first, hfirst, hview⟩ := @awaiting_step { process := some (Process.start none none) } _ 6
    ([(5, false)], some 6, some 4) rfl (by decide +kernel)
  obtain ⟨second, hsecond, hview'⟩ := @awaiting_step
    { status := some (buildDisabledReport .flare 1800 2), process := some (Process.start none none) }
    _ 7 ([(6, false)], some 7, some 5) rfl (by decide +kernel)
  have hc : first.currentEpoch = some 6 := congrArg (·.2.1) hview
  have hc' : second.currentEpoch = some 7 := congrArg (·.2.1) hview'
  let before : List FleetEvent :=
    [.start true, .cycle first, .down, .idle (buildDisabledReport .flare 1800 2), .start true]
  have hreports : cycleReports (before ++ [.cycle second]) = [first, second] := rfl
  have hread : epochsRead (before ++ [.cycle second]) = [6, 7] := by
    unfold epochsRead
    rw [hreports, List.filterMap_cons, List.filterMap_cons, hc, hc']
    rfl
  have hrun : Run (@FleetStep External.static) {} before
      { status := some (buildDisabledReport .flare 1800 2)
        process := some (Process.start none none) } := by
    have hstart : Run (@FleetStep External.static) {} [.start true]
        { process := some (Process.start none none) } :=
      .single (@FleetStep.start External.static _ true rfl)
    have hcycle := hstart.snoc hfirst
    have hdown := hcycle.snoc (@FleetStep.down External.static _ _ rfl)
    have hidle := hdown.snoc (@FleetStep.idle External.static _ .flare 1800 2)
    exact hidle.snoc (@FleetStep.start External.static _ true rfl)
  refine ⟨before, second, _, hrun.snoc hsecond, ?_, by rw [hc']; rfl, ?_, ?_, ?_⟩
  · rw [hread]
    decide
  · exact ⟨first, List.mem_cons_self, (mem_of_view hview).mp (List.mem_singleton_self _)⟩
  · rintro (⟨report, hreport, hdone⟩ | ⟨c, hmem, hlt⟩)
    · have hshown : ((5, true) : Int × Bool) ∈ [(5, false)] ++ [(6, false)] := by
        rw [hreports] at hreport
        rcases List.mem_cons.mp hreport with rfl | hreport
        · exact List.mem_append_left _ ((mem_of_view hview).mpr hdone)
        · rw [List.mem_singleton.mp hreport] at hdone
          exact List.mem_append_right _ ((mem_of_view hview').mpr hdone)
      exact absurd hshown (by decide)
    · rw [hread] at hmem
      have hnone : ∀ c ∈ [(6 : Int), 7], ¬ 5 < c - maxCatchup := by decide
      exact hnone c hmem hlt
  · rintro ⟨v, hv, he⟩
    have hmem : ((5, v.done) : Int × Bool) ∈ [(6, false)] :=
      (mem_of_view hview').mpr ⟨v, hv, he, rfl⟩
    rw [List.mem_singleton] at hmem
    cases hmem

end Clif
