import Clif.StatusFile
import Clif.Observe.Window

/-!
# Observe.Published — `read_observe_status`, and the exit code of `clif observe status`

The engine publishes its snapshots while other commands read them.  `observe_told` says what exit 0
tells: of the file, of the engine that wrote it, and of the rounds that engine had finalized.
-/

namespace Clif

/-- The exit code of a severity. -/
def Severity.exitCode : Severity → Int
  | .ok => 0
  | .warn => 1
  | .crit => 2

theorem Severity.exitCode_eq_zero {s : Severity} : s.exitCode = 0 ↔ s = .ok := by
  cases s with
  | ok => simp [exitCode]
  | warn => simp [exitCode]
  | crit => simp [exitCode]

namespace Observe

open Effect RenameFile

/-- `read_observe_status`. -/
def readObserveStatus (j : JsonCodec ObserveHealth) (enabled : Bool) : FileProg ObserveHealth := do
  match ← attempt (readJson j) with
  | .ok h => return h
  | .error exc =>
    if enabled then
      return { network := "?", enabled := true, error := some s!"no observer status ({exc.str})" }
    else return { network := "?", enabled := false }

/-- `observe status`: its exit code. -/
def observeStatus (j : JsonCodec ObserveHealth) (enabled : Bool) (now : ℚ) : FileProg Int := do
  let h ← readObserveStatus j enabled
  return (h.severity now).exitCode

section

variable [FtsoRules] [Messaging]

/-- A snapshot that an engine made, from the rounds `w` of its window. -/
inductive Snapshot (cfg : EngineConfig) (setup : ObserverSetup) :
    ObserveHealth → List RoundState → Prop
  | made {first : Nat} {file : List RoundRecord} {tallies : List IqrTally} {a : PauseAnswers}
      {hs : List Happening} {s : EngineState}
      (hrun : Run (EngineStep cfg) (EngineState.start cfg setup first file tallies a) hs s)
      (x : StatusInputs) :
      Snapshot cfg setup (s.health cfg x) (lastOf setup.windowRounds (finalizedIn (noticesOf hs)))

variable {cfg : EngineConfig} {setup : ObserverSetup} {j : JsonCodec ObserveHealth}
  {snapshots : Nat → Option ObserveHealth} {h : List StatusTurn} {d : Disk String} {k : Nat}
  {enabled : Bool} {now : ℚ}

theorem Snapshot.ok_iff {snap : ObserveHealth} {w : List RoundState}
    (hs : Snapshot cfg setup snap w) :
    snap.severity now = .ok ↔ snap.Undisturbed now ∧ w ≠ [] ∧ ∀ rs ∈ w, rs.Well := by
  cases hs with
  | made hrun x => exact health_ok_iff (window_run hrun) (window_judged hrun) x now

omit [FtsoRules] [Messaging] in
theorem runs_observeStatus {t : FileTrace String FileError} {r : Except FileError Int}
    (hr : Runs (observeStatus j enabled now) t r) :
    (∃ e, Runs (readJson j) t (.error e) ∧ r = .ok (if enabled then 2 else 0)) ∨
      ∃ snap, Runs (readJson j) t (.ok snap) ∧ r = .ok (snap.severity now).exitCode := by
  unfold observeStatus readObserveStatus at hr
  rcases runs_bind.mp hr with ⟨snap, t₁, t₂, rfl, hread, hrest⟩ | ⟨e, hread, rfl⟩
  · obtain ⟨rfl, rfl⟩ := runs_pure.mp hrest
    obtain ⟨x, t₃, t₄, rfl, hjson, htail⟩ := runs_attempt_bind.mp hread
    cases x with
    | ok snap' =>
      obtain ⟨rfl, hsnap⟩ := runs_pure.mp htail
      cases hsnap
      exact .inr ⟨snap, by simpa using hjson, rfl⟩
    | error e =>
      cases enabled with
      | true =>
        obtain ⟨rfl, hsnap⟩ := runs_pure.mp htail
        cases hsnap
        exact .inl ⟨e, by simpa using hjson, rfl⟩
      | false =>
        obtain ⟨rfl, hsnap⟩ := runs_pure.mp htail
        cases hsnap
        exact .inl ⟨e, by simpa using hjson, rfl⟩
  · obtain ⟨x, t₃, t₄, -, -, htail⟩ := runs_attempt_bind.mp hread
    cases x with
    | ok snap' => cases (runs_pure.mp htail).2
    | error e' =>
      cases enabled with
      | true => cases (runs_pure.mp htail).2
      | false => cases (runs_pure.mp htail).2

/-- Whatever the engines and the readers of the file do, each engine with a configuration and a
start of its own: without a snapshot that can be read the command fails exactly if the observer is
enabled; and it exits 0 on a snapshot exactly if the engine that made the one in place when the file
was opened had nothing else to report, and had finalized well all rounds of its window. -/
theorem observe_told (hs : StatusTurns j snapshots h d)
    (hengine : ∀ i snap, snapshots i = some snap → ∃ cfg setup w, Snapshot cfg setup snap w)
    {r : Except FileError Int} (hr : Runs (observeStatus j enabled now) (part k h) r) :
    ((∃ e, Runs (readJson j) (part k h) (.error e)) ∧ r = .ok (if enabled then 2 else 0)) ∨
      ∃ snap cfg setup w, InPlace snapshots h k snap ∧ Snapshot cfg setup snap w ∧
        (r = .ok 0 ↔ snap.Undisturbed now ∧ w ≠ [] ∧ ∀ rs ∈ w, rs.Well) := by
  rcases runs_observeStatus hr with ⟨e, hjson, rfl⟩ | ⟨snap, hjson, rfl⟩
  · exact .inl ⟨⟨e, hjson⟩, rfl⟩
  · rcases hs.read hjson with ⟨e, he⟩ | ⟨snap', hsnap, hplace⟩
    · cases he
    · cases hsnap
      obtain ⟨cfg, setup, w, hw⟩ : ∃ cfg setup w, Snapshot cfg setup snap w := by
        obtain ⟨i, _, _, _, -, -, hi⟩ := hplace
        exact hengine i snap hi
      refine .inr ⟨snap, cfg, setup, w, hplace, hw, ?_⟩
      rw [← hw.ok_iff, ← Severity.exitCode_eq_zero, Except.ok.injEq]

end

/-! ### A clean round -/

/-- The engine is restarted at a later block. -/
def restartSetup : ObserverSetup := { sampleSetup with observeStartTs := 300 }

/-- The snapshot after a clean round, and one of the engine that was just restarted. -/
def cleanSnapshot : ObserveHealth :=
  let _ := sampleRules
  let _ := sampleMessages
  (after sampleConfig sampleStart cleanEvents).health sampleConfig sampleInputs

def startSnapshot : ObserveHealth :=
  (EngineState.start sampleConfig restartSetup 2 [] [] noAnswers).health sampleConfig sampleInputs

/-- The keys that are read, of a snapshot with so many rounds, all of them clean. -/
def snapshotText (rounds : String) (lastBlock : String) : List String :=
  ["\x7b\n  \"budget\": null,\n  \"complete\": " ++ rounds ++ ",\n  \"enabled\": true,\n" ++
    "  \"fdc_missing\": 0,\n  \"fdc_participated\": 0,\n  \"fdc_request_rounds\": 0,\n" ++
    "  \"head\": 3,\n  \"last_block\": " ++ lastBlock ++ ",\n  \"live_lag_blocks\": 8,\n" ++
    "  \"mincond\": null,\n  \"missing_submit1\": 0,\n  \"missing_submit2\": 0,\n",
    "  \"network\": \"flare\",\n  \"off_window\": 0,\n  \"quorum\": null,\n" ++
    "  \"quorum_crit\": false,\n  \"registered\": null,\n  \"reveal_offences\": 0,\n" ++
    "  \"reward_epoch\": null,\n  \"trailing_clean\": " ++ rounds ++ ",\n" ++
    "  \"uptime_pct\": null,\n  \"validator_node\": null,\n  \"window_rounds\": " ++ rounds ++
    ",\n  \"written_at\": 300\n\x7d"]

def sampleSnapshotJson : JsonCodec ObserveHealth where
  dump snap := if snap.windowRounds = 0 then snapshotText "0" "2" else snapshotText "1" "3"
  loads text :=
    if text = snapshotText "1" "3" then .ok cleanSnapshot
    else if text = snapshotText "0" "2" then .ok startSnapshot
    else .error (.value "Expecting value: line 1 column 1 (char 0)")

def snapshotTurns : List StatusTurn :=
  killedTurns ((snapshotText "1" "3").getD 0 "") ((snapshotText "1" "3").getD 1 "")
    ((snapshotText "0" "2").getD 0 "")

/-- The command exits 0, and so the round was clean. -/
theorem observe_told_clean :
    let _ := sampleRules
    let _ := sampleMessages
    ∃ snap cfg setup w, InPlace (twoReports cleanSnapshot startSnapshot) snapshotTurns 2 snap ∧
      Snapshot cfg setup snap w ∧ w ≠ [] ∧ ∀ rs ∈ w, rs.Well := by
  intro rules messages
  have hne : snapshotText "0" "2" ≠ snapshotText "1" "3" := by decide +kernel
  have hrounds : cleanSnapshot.windowRounds = 1 := by decide +kernel
  have hdump : sampleSnapshotJson.dump cleanSnapshot = snapshotText "1" "3" := by
    simp only [sampleSnapshotJson]
    rw [hrounds, if_neg (by decide)]
  have hdump' : sampleSnapshotJson.dump startSnapshot = snapshotText "0" "2" := by
    simp only [sampleSnapshotJson]
    exact if_pos rfl
  have hloads : sampleSnapshotJson.loads (snapshotText "1" "3") = .ok cleanSnapshot := by
    simp only [sampleSnapshotJson, if_true]
  have hloads' : sampleSnapshotJson.loads (snapshotText "0" "2") = .ok startSnapshot := by
    simp only [sampleSnapshotJson, if_true]
    rw [if_neg hne]
  obtain ⟨d, hs⟩ := @killed_turns _ sampleSnapshotJson _ _ _ _ _ _ hdump hdump' hloads hloads'
  have hengine : ∀ i snap, twoReports cleanSnapshot startSnapshot i = some snap →
      ∃ cfg setup w, Snapshot cfg setup snap w := by
    intro i snap hi
    match i, hi with
    | 0, hi =>
      cases hi
      have hrun := (run_of_allowed clean_shown.1).mono fun _ _ _ h => h.2
      exact ⟨_, _, _, .made hrun sampleInputs⟩
    | 1, hi =>
      cases hi
      exact ⟨_, restartSetup, _, .made .nil sampleInputs⟩
  have hgreen : cleanSnapshot.severity 310 = .ok := by decide +kernel
  have hr : Runs (observeStatus sampleSnapshotJson true 310) (part 2 snapshotTurns) (.ok 0) := by
    have hread : Runs (readObserveStatus sampleSnapshotJson true) (part 2 snapshotTurns)
        (.ok cleanSnapshot) :=
      runs_attempt_bind.mpr ⟨_, _, [], (List.append_nil _).symm, killed_read hloads, rfl, rfl⟩
    have htell : Runs (pure (cleanSnapshot.severity 310).exitCode : FileProg Int) [] (.ok 0) :=
      ⟨rfl, congrArg Except.ok (Severity.exitCode_eq_zero.mpr hgreen).symm⟩
    exact runs_bind.mpr (.inl ⟨_, _, [], (List.append_nil _).symm, hread, htell⟩)
  rcases observe_told hs hengine hr with ⟨-, hcode⟩ | ⟨snap, cfg, setup, w, hplace, hw, hiff⟩
  · cases hcode
  · exact ⟨snap, cfg, setup, w, hplace, hw, (hiff.mp rfl).2⟩

end Observe

end Clif
