import Clif.RenameFile
import Clif.EpochSleep

/-!
# StatusFile — `write_status_atomic` and `read_status`, and what `clif epoch status` tells

The daemon and the status commands share no lock.  `status_told`: whichever of them take turns, and
wherever a writer is killed or fails, the verdict is that of the last report that was put in place.
-/

namespace Clif

open Effect RenameFile

/-- What an operation on a file raises: an `OSError`, or the `ValueError` of a text that is not
UTF-8. -/
inductive FileError where
  | os (text : String)
  | value (text : String)
deriving DecidableEq

/-- `str(exc)`. -/
def FileError.str : FileError → String
  | .os text => text
  | .value text => text

/-- `json.dump`, piece by piece, and `json.loads` of a text. -/
structure JsonCodec (δ : Type) where
  dump : δ → List String
  loads : List String → Except FileError δ

abbrev FileProg (α : Type) := Act (fileSig String FileError) FileError α

abbrev StatusTurn := Turn String FileError

variable {δ : Type}

/-- `write_status_atomic`. -/
def writeStatusAtomic (j : JsonCodec δ) (report : δ) : FileProg Unit := publish (j.dump report)

/-- `json.loads(path.read_text())`. -/
def readJson (j : JsonCodec δ) : FileProg δ := do
  let text ← readPath
  fromExcept (j.loads text)

/-- `read_status`. -/
def readStatus (j : JsonCodec δ) : FileProg (Option δ) := do
  match ← attempt (readJson j) with
  | .ok report => return some report
  | .error _ => return none

/-- `epoch status`: its verdict, or what it raises. -/
def epochStatus (j : JsonCodec Report) (now : ℚ) : FileProg (Except Exc StatusVerdict) := do
  let report ← readStatus j
  return statusExitCode report now

/-! ## Writers and readers -/

/-- Process `i` writes the report `reports i`, or reads if there is none; what `json.dump` wrote is
what `json.loads` reads. -/
structure StatusTurns (j : JsonCodec δ) (reports : Nat → Option δ) (h : List StatusTurn)
    (d : Disk String) : Prop where
  json : ∀ i report, reports i = some report → j.loads (j.dump report) = .ok report
  writer : ∀ i report, reports i = some report → Begun (writeStatusAtomic j report) (part i h)
  reader : ∀ i, reports i = none → Begun (readJson j) (part i h)
  run : Run TurnStep .empty h d

/-- `report` is the one that was in place when the process `k` opened the file. -/
def InPlace (reports : Nat → Option δ) (h : List StatusTurn) (k : Nat) (report : δ) : Prop :=
  ∃ i file before after, h = before ++ .proc k ⟨.openPath, .ok file⟩ :: after ∧
    LastRenamed before i file ∧ reports i = some report

section

variable {j : JsonCodec δ} {reports : Nat → Option δ} {h : List StatusTurn} {d : Disk String}
  {t : FileTrace String FileError} {k : Nat}

theorem runs_readJson {r : Except FileError δ} (hr : Runs (readJson j) t r) :
    ∃ x, Runs readPath t x ∧ r = x.bind j.loads := by
  rcases runs_bind.mp hr with ⟨text, t₁, t₂, rfl, hread, hrest⟩ | ⟨e, hread, rfl⟩
  · obtain ⟨rfl, rfl⟩ := runs_fromExcept.mp hrest
    exact ⟨.ok text, by rwa [List.append_nil], rfl⟩
  · exact ⟨.error e, hread, rfl⟩

theorem runs_readStatus {r : Except FileError (Option δ)} (hr : Runs (readStatus j) t r) :
    ∃ x, Runs (readJson j) t x ∧ r = .ok x.toOption := by
  unfold readStatus at hr
  obtain ⟨x, t₁, t₂, rfl, hread, hrest⟩ := runs_attempt_bind.mp hr
  have hend : t₂ = [] ∧ r = .ok x.toOption := by
    cases x with
    | ok report => exact hrest
    | error e => exact hrest
  obtain ⟨rfl, rfl⟩ := hend
  exact ⟨x, by rwa [List.append_nil], rfl⟩

theorem StatusTurns.shared (hs : StatusTurns j reports h d) :
    Shared (fun i => (reports i).map j.dump) h d := by
  refine ⟨fun i doc hdoc => ?_, fun i hnone => ?_, hs.run⟩
  · obtain ⟨report, hreport, rfl⟩ := Option.map_eq_some_iff.mp hdoc
    exact hs.writer i report hreport
  · obtain ⟨t', r, hr⟩ := hs.reader i (Option.map_eq_none_iff.mp hnone)
    obtain ⟨x, hread, -⟩ := runs_readJson hr
    exact ⟨t', x, hread⟩

/-- A reader fails, or gets all of the report that was in place. -/
theorem StatusTurns.read (hs : StatusTurns j reports h d) {r : Except FileError δ}
    (hr : Runs (readJson j) (part k h) r) :
    (∃ e, r = .error e) ∨ ∃ report, r = .ok report ∧ InPlace reports h k report := by
  obtain ⟨x, hread, rfl⟩ := runs_readJson hr
  cases x with
  | error e => exact .inl ⟨e, rfl⟩
  | ok text =>
    obtain ⟨i, file, before, after, hwhole, hlast, hdoc⟩ := hs.shared.read_whole hread
    obtain ⟨report, hreport, rfl⟩ := Option.map_eq_some_iff.mp hdoc
    exact .inr ⟨report, hs.json i report hreport,
      i, file, before, after, hwhole, hlast, hreport⟩

end

/-! ## What the status command tells -/

/-- No epoch that the daemon counts as active is overdue or in cooldown. -/
def SleepingCycle.CaughtUp (c : SleepingCycle) : Prop :=
  ∀ key epoch seen, (c.state.s key).firstSeen.get? epoch = some seen →
    c.reportedAt - seen ≤ c.staleAfterSec ∧ ¬ c.state.hot key epoch c.reportedAt

/-- The reports that `epoch run` writes: after a cycle, or while it is disabled. -/
inductive Report.ByDaemon : Report → Prop
  | cycle (c : SleepingCycle) : ByDaemon c.report
  | idle (network : Network) (interval : Int) (t : ℚ) :
      ByDaemon (buildDisabledReport network interval t)

/-- A report that a healthcheck is satisfied with: the daemon is off, or it has reported within
three intervals and is caught up. -/
def Report.Sound (r : Report) (now : ℚ) : Prop :=
  r.disabled = true ∨ ∃ c : SleepingCycle, r = c.report ∧ c.reportedAt ≠ 0 ∧
    now - c.reportedAt ≤ deadIntervals * c.pollInterval ∧ c.CaughtUp

theorem SleepingCycle.degraded_iff {c : SleepingCycle} :
    c.report.degraded = false ↔ c.CaughtUp := by
  show (c.state.evaluate c.reportedAt c.staleAfterSec).1 = false ↔ _
  rw [← Bool.not_eq_true, AutoState.evaluate_iff]
  unfold CaughtUp
  simp only [not_exists, not_and, not_or, not_lt]

/-- The verdict on a report of the daemon is 0 exactly if the report is sound. -/
theorem healthy_iff {r : Report} (hr : r.ByDaemon) {now : ℚ} :
    (∃ v, statusExitCode (some r) now = .ok v ∧ v.exitCode = 0) ↔ r.Sound now := by
  cases hr with
  | idle network interval t =>
    have hoff : statusExitCode (some (buildDisabledReport network interval t)) now =
        .ok .disabled := rfl
    exact ⟨fun _ => .inl rfl, fun _ => ⟨_, hoff, rfl⟩⟩
  | cycle c =>
    have hverdict : statusExitCode (some c.report) now =
        if c.reportedAt = 0 then
          .error (.other "OverflowError" "cannot convert float infinity to integer")
        else if deadIntervals * c.pollInterval < now - c.reportedAt then
          .ok (.stale (now - c.reportedAt) c.pollInterval)
        else if c.report.degraded then .ok (.degraded c.report.reasons) else .ok .healthy := by
      unfold statusExitCode Report.age
      by_cases hzero : c.reportedAt = 0
      · simp [SleepingCycle.report, buildEpochReport, hzero]
      · simp [SleepingCycle.report, buildEpochReport, hzero]
        rfl
    have hsound : c.report.Sound now ↔ c.reportedAt ≠ 0 ∧
        now - c.reportedAt ≤ deadIntervals * c.pollInterval ∧ c.report.degraded = false := by
      constructor
      · rintro (hoff | ⟨c', hsame, hzero, hage, hdone⟩)
        · cases hoff
        · have hts := congrArg Report.updatedAtTs hsame
          have hint := congrArg Report.pollIntervalSec hsame
          have hdeg := congrArg Report.degraded hsame
          refine ⟨?_, ?_, hdeg.trans (SleepingCycle.degraded_iff.mpr hdone)⟩
          · exact fun h => hzero (hts.symm.trans h)
          · show now - c.report.updatedAtTs ≤ deadIntervals * c.report.pollIntervalSec
            rw [hts, hint]
            exact hage
      · rintro ⟨hzero, hage, hdeg⟩
        exact .inr ⟨c, rfl, hzero, hage, SleepingCycle.degraded_iff.mp hdeg⟩
    rw [hsound, hverdict]
    by_cases hzero : c.reportedAt = 0
    · simp [hzero]
    · by_cases hold : deadIntervals * c.pollInterval < now - c.reportedAt
      · have hnot : ¬ now - c.reportedAt ≤ deadIntervals * c.pollInterval := not_le.mpr hold
        simp [hzero, hold, hnot, StatusVerdict.exitCode]
      · have hage : now - c.reportedAt ≤ deadIntervals * c.pollInterval := not_lt.mp hold
        cases hdeg : c.report.degraded with
        | true => simp [hzero, hold, StatusVerdict.exitCode]
        | false => simp [hzero, hold, hage, StatusVerdict.exitCode]

variable {j : JsonCodec Report} {reports : Nat → Option Report} {h : List StatusTurn}
  {d : Disk String} {k : Nat} {now : ℚ}

/-- Whatever the daemons and the readers of the file do, `epoch status` finds no state, or gives
the verdict on the whole report that was in place when it opened the file: and that is 0 exactly if
the daemon was off, or had reported within three intervals and was caught up. -/
theorem status_told (hs : StatusTurns j reports h d)
    (hdaemon : ∀ i report, reports i = some report → report.ByDaemon)
    {r : Except FileError (Except Exc StatusVerdict)}
    (hr : Runs (epochStatus j now) (part k h) r) :
    r = .ok (.ok .noState) ∨ ∃ report, InPlace reports h k report ∧
      r = .ok (statusExitCode (some report) now) ∧
        ((∃ v, r = .ok (.ok v) ∧ v.exitCode = 0) ↔ report.Sound now) := by
  unfold epochStatus at hr
  rcases runs_bind.mp hr with ⟨report, t₁, t₂, ht, hread, hrest⟩ | ⟨e, hread, -⟩
  · obtain ⟨rfl, rfl⟩ := runs_pure.mp hrest
    rw [List.append_nil] at ht
    subst ht
    obtain ⟨x, hjson, hx⟩ := runs_readStatus hread
    obtain rfl : report = x.toOption := Except.ok.inj hx
    rcases hs.read hjson with ⟨e, rfl⟩ | ⟨report', rfl, hplace⟩
    · exact .inl rfl
    · have hby : report'.ByDaemon := by
        obtain ⟨i, _, _, _, -, -, hreport⟩ := hplace
        exact hdaemon i report' hreport
      refine .inr ⟨report', hplace, rfl, ?_⟩
      rw [← healthy_iff hby]
      exact ⟨fun ⟨v, hv, hcode⟩ => ⟨v, Except.ok.inj hv, hcode⟩,
        fun ⟨v, hv, hcode⟩ => ⟨v, congrArg Except.ok hv, hcode⟩⟩
  · obtain ⟨x, -, hx⟩ := runs_readStatus hread
    cases hx

/-! ### A writer is killed before the status command -/

section

/-- The first writer is done, the second was killed after its first piece, and a reader has read. -/
def killedTurns (a b c : String) : List StatusTurn :=
  [.proc 0 ⟨.mkdir, .ok ()⟩, .proc 0 ⟨.mkstemp, .ok 0⟩, .proc 0 ⟨.write 0 a, .ok ()⟩,
    .proc 0 ⟨.write 0 b, .ok ()⟩, .proc 0 ⟨.close 0, .ok ()⟩, .proc 0 ⟨.replace 0, .ok ()⟩,
    .proc 0 ⟨.isThere 0, false⟩, .proc 1 ⟨.mkdir, .ok ()⟩, .proc 1 ⟨.mkstemp, .ok 1⟩,
    .proc 1 ⟨.write 1 c, .ok ()⟩, .proc 2 ⟨.openPath, .ok 0⟩, .proc 2 ⟨.read 0, .ok [a, b]⟩]

def twoReports (first second : δ) : Nat → Option δ
  | 0 => some first
  | 1 => some second
  | _ => none

/-- Nothing fails. -/
def diskAnswers (made : Nat) (text : List String) : (op : FileOp String) → op.Ans FileError
  | .mkdir => .ok ()
  | .mkstemp => .ok made
  | .write _ _ => .ok ()
  | .close _ => .ok ()
  | .replace _ => .ok ()
  | .isThere _ => false
  | .unlink _ => .ok ()
  | .openPath => .ok 0
  | .read _ => .ok text

variable {j : JsonCodec δ} {first second : δ} {a b c c' : String}

theorem killed_read (hloads : j.loads [a, b] = .ok first) :
    Runs (readJson j) (part 2 (killedTurns a b c)) (.ok first) := by
  have hread := exec_runs (diskAnswers 0 [a, b]) readPath
  exact runs_bind_ok hread ⟨rfl, hloads.symm⟩

theorem killed_turns (hfirst : j.dump first = [a, b]) (hsecond : j.dump second = [c, c'])
    (hloads : j.loads [a, b] = .ok first) (hloads' : j.loads [c, c'] = .ok second) :
    ∃ d, StatusTurns j (twoReports first second) (killedTurns a b c) d := by
  have hrun : ∃ d, Run TurnStep .empty (killedTurns a b c) d :=
    ⟨_, .cons (.proc .mkdir) <| .cons (.proc .mkstemp) <| .cons (.proc .write) <|
      .cons (.proc .write) <| .cons (.proc .close) <| .cons (.proc .replace) <|
      .cons (.proc .isThere) <| .cons (.proc .mkdir) <| .cons (.proc .mkstemp) <|
      .cons (.proc .write) <| .cons (.proc (.openPath rfl)) <| .cons (.proc .read) .nil⟩
  obtain ⟨d, hrun⟩ := hrun
  refine ⟨d, fun i report hi => ?_, fun i report hi => ?_, fun i hi => ?_, hrun⟩
  · match i, hi with
    | 0, hi =>
      cases hi
      rw [hfirst, hloads]
    | 1, hi =>
      cases hi
      rw [hsecond, hloads']
  · match i, hi with
    | 0, hi =>
      cases hi
      rw [writeStatusAtomic, hfirst]
      exact begun_exec (S := fileSig String FileError) (diskAnswers 0 []) 7
    | 1, hi =>
      cases hi
      rw [writeStatusAtomic, hsecond]
      exact begun_exec (S := fileSig String FileError) (diskAnswers 1 []) 3
  · match i, hi with
    | 2, _ => exact ⟨[], _, @killed_read _ _ _ _ _ c hloads⟩
    | i + 3, _ => exact begun_exec (S := fileSig String FileError) (diskAnswers 0 []) 0

end

/-- The report after a cycle, and the one of a daemon that is disabled after that. -/
def activeReport : Report := (idleCycle 1800).report

def disabledReport : Report := buildDisabledReport .flare 1800 1754000500

def activeText : List String :=
  ["\x7b\n  \"current_epoch\": 424,\n  \"degraded\": false,\n  \"epochs\": [],\n" ++
    "  \"last_done_epoch\": 423,\n  \"network\": \"flare\",\n",
    "  \"poll_interval_sec\": 1800,\n  \"reasons\": [],\n  \"stale_after_sec\": 86400,\n" ++
    "  \"updated_at\": \"2025-07-31T22:13:20+00:00\",\n  \"updated_at_ts\": 1754000000.0\n\x7d"]

def disabledText : List String :=
  ["\x7b\n  \"degraded\": false,\n  \"disabled\": true,\n  \"epochs\": [],\n",
    "  \"network\": \"flare\",\n  \"poll_interval_sec\": 1800,\n  \"reasons\": [],\n" ++
    "  \"updated_at\": \"2025-07-31T22:21:40+00:00\",\n  \"updated_at_ts\": 1754000500.0\n\x7d"]

def sampleJson : JsonCodec Report where
  dump report := if report = activeReport then activeText else disabledText
  loads text :=
    if text = activeText then .ok activeReport
    else if text = disabledText then .ok disabledReport
    else .error (.value "Expecting value: line 1 column 1 (char 0)")

def sampleTurns : List StatusTurn :=
  killedTurns (activeText.getD 0 "") (activeText.getD 1 "") (disabledText.getD 0 "")

/-- The command finds the report of the first writer. -/
theorem status_told_killed : ∃ report,
    InPlace (twoReports activeReport disabledReport) sampleTurns 2 report ∧
      report.Sound 1754001000 := by
  have hloads : sampleJson.loads activeText = .ok activeReport := by decide +kernel
  obtain ⟨d, hs⟩ := @killed_turns _ sampleJson activeReport disabledReport _ _ _ _
    (by decide +kernel : sampleJson.dump activeReport = activeText)
    (by decide +kernel : sampleJson.dump disabledReport = disabledText) hloads (by decide +kernel)
  have hdaemon : ∀ i report, twoReports activeReport disabledReport i = some report →
      report.ByDaemon := by
    intro i report hi
    match i, hi with
    | 0, hi =>
      cases hi
      exact .cycle (idleCycle 1800)
    | 1, hi =>
      cases hi
      exact .idle .flare 1800 1754000500
  have hverdict : statusExitCode (some activeReport) 1754001000 = .ok .healthy := by decide +kernel
  have hr : Runs (epochStatus sampleJson 1754001000) (part 2 sampleTurns) (.ok (.ok .healthy)) := by
    have hstatus : Runs (readStatus sampleJson) (part 2 sampleTurns) (.ok (some activeReport)) :=
      runs_attempt_bind.mpr ⟨_, _, [], (List.append_nil _).symm, killed_read hloads, rfl, rfl⟩
    have htell : Runs (pure (statusExitCode (some activeReport) 1754001000) :
        FileProg (Except Exc StatusVerdict)) [] (.ok (.ok .healthy)) :=
      ⟨rfl, congrArg Except.ok hverdict.symm⟩
    exact runs_bind.mpr (.inl ⟨_, _, [], (List.append_nil _).symm, hstatus, htell⟩)
  rcases status_told hs hdaemon hr with hnone | ⟨report, hplace, -, hiff⟩
  · cases hnone
  · exact ⟨report, hplace, hiff.mp ⟨.healthy, rfl, rfl⟩⟩

end Clif
