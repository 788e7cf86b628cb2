import Clif.Tempered
import Clif.Pager

/-!
# LogRun — what the logs of `registration run` and `fund run` tell

Both daemons write a healthy line only when it is another one, or when the last is old; what else
they log, they always write.  `registration_log_told`: the last readiness line of the registration
log tells what the node last answered, and only errors stand behind it.  The funding daemon does not
remember its alarms, so `fund_log_iff`: the last health line of its log tells the current state
exactly as long as no alarm goes away without a word.
-/

namespace Clif

open Effect Tempered

/-! ## The registration daemon -/

/-- `key`. -/
structure RegistrationKey where
  severity : Severity
  currentRegistered : Bool
  nextRegistered : Bool
  nextWindowEnabled : Bool
  gasOk : Bool
  entityOk : Bool
  votepowerOk : Bool
deriving DecidableEq

def RegistrationReadiness.key (r : RegistrationReadiness) : RegistrationKey :=
  ⟨r.severity, r.currentRegistered, r.nextRegistered, r.nextWindowEnabled, r.gasOk, r.entityOk,
    r.votepowerOk⟩

/-- The lines of `registration_run`; `heartbeat` is `_REG_HEARTBEAT_SEC`. -/
def registrationLog : Policy RegistrationReadiness RegistrationKey where
  key := RegistrationReadiness.key
  alarm r := decide (r.severity ≠ .ok)
  told r r' h := by
    have hsev : r.severity = r'.severity := congrArg RegistrationKey.severity h
    rw [hsev]
  heartbeat := 3600
  remembersAlarms := true

/-- A cycle of `registration run`. -/
structure RegistrationCycle where
  trace : DaemonTrace
  read : Except Exc RegistrationReadiness
  /-- `write_status_atomic`, which comes before the line. -/
  stored : Except Exc Unit := .ok ()
  /-- `time.monotonic()`, when the line is judged. -/
  time : ℚ

namespace RegistrationCycle

variable (c : RegistrationCycle)

def outcome : Except Exc RegistrationReadiness := do
  let r ← c.read
  c.stored
  return r

/-- The reading that the cycle judges. -/
def judged : Option (ℚ × RegistrationReadiness) := c.outcome.toOption.map fun r => (c.time, r)

/-- The text of `registration cycle error`. -/
def errors : List String :=
  match c.outcome with
  | .ok _ => []
  | .error e => [e.str]

end RegistrationCycle

abbrev RegistrationLog := Log RegistrationReadiness RegistrationKey String

/-- A cycle, and what it adds to the log. -/
def RegistrationStep (rs : ReadinessSettings) (l : RegistrationLog) (c : RegistrationCycle)
    (l' : RegistrationLog) : Prop :=
  (∀ r, c.read = .ok r → Runs (readReadiness rs) c.trace (.ok r)) ∧
    l' = registrationLog.cycle l c.judged c.errors

section

variable {rs : ReadinessSettings} {cs : List RegistrationCycle} {c : RegistrationCycle}
  {r : RegistrationReadiness} {l : RegistrationLog}

theorem tells_registration : Tells registrationLog RegistrationCycle.judged
    RegistrationCycle.errors (RegistrationStep rs) :=
  fun _ _ _ h => h.2

theorem RegistrationCycle.read_of_outcome (h : c.outcome = .ok r) : c.read = .ok r := by
  unfold RegistrationCycle.outcome at h
  cases hread : c.read with
  | ok r' =>
    cases hstored : c.stored with
    | ok u =>
      rw [hread, hstored] at h
      exact h
    | error e =>
      rw [hread, hstored] at h
      cases h
  | error e =>
    rw [hread] at h
    cases h

/-- A line that is written again says something else, or comes an hour later. -/
theorem registration_temperate (hrun : Run (RegistrationStep rs) {} cs l) :
    l.lines.IsChain fun a b => b.2.severity ≠ .ok ∨ a.2.key ≠ b.2.key ∨ 3600 ≤ b.1 - a.1 := by
  have hchain := temperate tells_registration hrun
  have hall : registrationLog.kept l = l.lines := List.filter_eq_self.mpr fun _ _ => rfl
  rw [hall] at hchain
  refine hchain.imp fun a b h => h.imp_left fun halarm => ?_
  simpa [registrationLog] using halarm

end

/-- In every run of the daemon, after the last cycle that did not raise: the last readiness line has
the key of its reading, which is what the node answered in that cycle; it is the line of the reading
itself, unless that is OK and the line younger than an hour.  Behind it stand errors alone, be they
older than the reading, and the log has those of all cycles that raised.  And a line that is no
alarm tells something new, or comes an hour after the one before it. -/
theorem registration_log_told {rs : ReadinessSettings} {cs pre post : List RegistrationCycle}
    {c : RegistrationCycle} {r : RegistrationReadiness} {l : RegistrationLog}
    (hrun : Run (RegistrationStep rs) {} cs l) (hcs : cs = pre ++ c :: post)
    (hr : c.outcome = .ok r) (hpost : ∀ x ∈ post, ∃ e, x.outcome = .error e) :
    ReadinessShown rs c.trace r ∧
      (∃ y, l.EndsWith y ∧ y.2.key = r.key ∧
        (y = (c.time, r) ∨ r.severity = .ok ∧ c.time - y.1 < 3600)) ∧
      l.notes = cs.flatMap RegistrationCycle.errors ∧
      l.lines.IsChain fun a b => b.2.severity ≠ .ok ∨ a.2.key ≠ b.2.key ∨ 3600 ≤ b.1 - a.1 := by
  refine ⟨?_, ?_, notes_run tells_registration hrun, registration_temperate hrun⟩
  · have hmem : c ∈ cs := by
      rw [hcs]
      simp
    obtain ⟨_, _, l₁, l₂, -, -, hstep⟩ := hrun.split hmem
    have hread := RegistrationCycle.read_of_outcome hr
    obtain ⟨-, hshown⟩ := @wp_readReadiness rs [] _ _ (hstep.1 r hread)
    simpa using hshown r rfl
  · have hlast : (cs.filterMap RegistrationCycle.judged).getLast? = some (c.time, r) := by
      have hnone : post.filterMap RegistrationCycle.judged = [] := by
        refine List.filterMap_eq_nil_iff.mpr fun x hx => ?_
        obtain ⟨e, he⟩ := hpost x hx
        rw [RegistrationCycle.judged, he]
        rfl
      have hone : c.judged = some (c.time, r) := by
        rw [RegistrationCycle.judged, hr]
        rfl
      rw [hcs, List.filterMap_append, List.filterMap_cons, hnone, hone]
      simp
    obtain ⟨y, hy, hkey, htime⟩ :=
      current_of_remembers rfl tells_registration hrun _ hlast
    refine ⟨y, Log.endsWith_iff.mp hy, hkey, htime.imp_right fun h => ⟨?_, h.2⟩⟩
    simpa [registrationLog] using h.1

/-! ### A reading, and a cycle that raises -/

/-- The registered voter is read. -/
def healthyReading : DaemonTrace × Except Exc RegistrationReadiness :=
  exec healthyNode (readReadiness pagerSettings.toReadinessSettings)

def healthyCycle : RegistrationCycle where
  trace := healthyReading.1
  read := healthyReading.2
  time := 5000

/-- The voter is read, and the disk is full. -/
def unstoredCycle : RegistrationCycle where
  trace := healthyReading.1
  read := healthyReading.2
  stored := .error (.other "OSError" "[Errno 28] No space left on device")
  time := 5600

theorem healthyReading_runs {r : RegistrationReadiness} (hr : healthyReading.2 = .ok r) :
    Runs (readReadiness pagerSettings.toReadinessSettings) healthyReading.1 (.ok r) := by
  rw [← hr]
  exact @exec_runs daemonSig _ _ healthyNode _

/-- Then the log tells the reading, and the error behind it. -/
theorem registration_log_told_healthy : ∃ r l, healthyCycle.outcome = .ok r ∧
    Run (RegistrationStep pagerSettings.toReadinessSettings) {} [healthyCycle, unstoredCycle] l ∧
      ReadinessShown pagerSettings.toReadinessSettings healthyCycle.trace r ∧
      (∃ y, l.EndsWith y ∧ y.2.key = r.key) ∧
      l.notes = ["[Errno 28] No space left on device"] := by
  obtain ⟨r, hr⟩ : ∃ r, healthyReading.2 = .ok r := by
    have hok : healthyReading.2.toBool = true := by decide +kernel
    cases hread : healthyReading.2 with
    | ok r => exact ⟨r, rfl⟩
    | error e =>
      rw [hread] at hok
      cases hok
  have houtcome : healthyCycle.outcome = .ok r := by
    show (healthyReading.2 >>= fun r => _) = _
    rw [hr]
    rfl
  have hraised : unstoredCycle.outcome =
      .error (.other "OSError" "[Errno 28] No space left on device") := by
    show (healthyReading.2 >>= fun r => _) = _
    rw [hr]
    rfl
  have hfirst : RegistrationStep pagerSettings.toReadinessSettings {} healthyCycle
      (registrationLog.cycle {} healthyCycle.judged healthyCycle.errors) :=
    ⟨fun _ h => healthyReading_runs h, rfl⟩
  have hsecond : ∀ l, RegistrationStep pagerSettings.toReadinessSettings l unstoredCycle
      (registrationLog.cycle l unstoredCycle.judged unstoredCycle.errors) :=
    fun _ => ⟨fun _ h => healthyReading_runs h, rfl⟩
  have hrun := Run.cons hfirst (.single (hsecond _))
  obtain ⟨hshown, ⟨y, hends, hkey, -⟩, hnotes, -⟩ :=
    @registration_log_told _ _ [] [unstoredCycle] _ _ _ hrun rfl houtcome
      fun x hx => ⟨_, List.mem_singleton.mp hx ▸ hraised⟩
  refine ⟨r, _, houtcome, hrun, hshown, ⟨y, hends, hkey⟩, ?_⟩
  rw [hnotes]
  simp [RegistrationCycle.errors, houtcome, hraised, Exc.str]

/-! ## The funding daemon -/

/-- What a line says of an account or of the funder. -/
inductive FundDetail where
  | nearing (name : String) (balance lower : Int)
  | funderLow (funder : Option Int)
  | below (name : String) (balance lower : Int)
  | exhausted (funder : Option Int)
deriving DecidableEq

/-- A line of `render_health`: the values that its text shows. -/
inductive FundLine where
  | inBand (accounts : Nat) (network : Network) (funder : Option Int)
  | nearing (details : List FundDetail)
  | unknown (active : Bool) (why : String)
  | alert (active : Bool) (details : List FundDetail)
deriving DecidableEq

/-- `{a.name} {a.balance:.0f} nearing {a.band.lower:.0f}`. -/
def FundDetail.nearingFloor (a : AccountStatus) : FundDetail :=
  .nearing a.name (Py.roundInt a.balance) (Py.roundInt a.band.lower)

/-- `{a.name} {a.balance:.0f} {sym} BELOW {a.band.lower:.0f} FLOOR`. -/
def FundDetail.belowFloor (a : AccountStatus) : FundDetail :=
  .below a.name (Py.roundInt a.balance) (Py.roundInt a.band.lower)

def FundingHealth.funderText (h : FundingHealth) : Option Int := h.funderBalance.map Py.roundInt

/-- `render_health`. -/
def renderHealth (h : FundingHealth) (active : Bool) : FundLine :=
  match h.severity with
  | .ok => .inBand h.accounts.length h.network h.funderText
  | .warn =>
    .nearing (h.nearing.map (.nearingFloor ·) ++
      if h.funderWarn then [.funderLow h.funderText] else [])
  | .crit =>
    if h.unread then
      .unknown active ((h.error.filter fun e => e ≠ "").getD "balance read failed")
    else
      .alert active (h.below.map (.belowFloor ·) ++
        if h.funderCrit then [.exhausted h.funderText] else [])

/-- Whether the line is the one of a healthy state. -/
def FundLine.healthy : FundLine → Bool
  | .inBand .. => true
  | _ => false

/-- A line tells whether all is well. -/
theorem renderHealth_healthy {h : FundingHealth} {active : Bool} :
    (renderHealth h active).healthy = true ↔ h.severity = .ok := by
  unfold renderHealth
  cases hsev : h.severity with
  | ok => simp [FundLine.healthy]
  | warn => simp [FundLine.healthy]
  | crit =>
    dsimp only
    split
    · simp [FundLine.healthy]
    · simp [FundLine.healthy]

/-- The lines of `_fund_pass` as `fund_run` calls it; `heartbeat` is `_FUND_OK_HEARTBEAT_SEC`. -/
def fundLog : Policy FundingHealth FundLine where
  key h := renderHealth h false
  alarm h := decide (h.severity ≠ .ok)
  told h h' hsame := by
    have hiff : h.severity = .ok ↔ h'.severity = .ok := by
      rw [← @renderHealth_healthy h false, hsame, renderHealth_healthy]
    simp [hiff]
  heartbeat := 6 * 3600
  remembersAlarms := false

structure FundSettings where
  network : Network
  fundingCallerToken : Option String := none
  fundingWalletName : Option String := none

def FundSettings.args (s : FundSettings) (now : Nat → Int) : PassArgs :=
  { caller := s.fundingCallerToken
    network := s.network
    wallet := s.fundingWalletName.getD ""
    chainId := (networks s.network).chainId
    now := now }

/-- What is logged behind the line of the health. -/
inductive FundNote where
  /-- `FUNDING_CALLER_TOKEN / FUNDING_WALLET_NAME not set`. -/
  | notSet
  | funded (t : TopUp)
  | failed (t : TopUp)
  | passError (text : String)
  | cycleError (text : String)
deriving DecidableEq

/-- The lines of a pass: what was funded, what failed, and why nothing was tried. -/
def FundingResult.notes (res : FundingResult) : List FundNote :=
  (res.topups.filter (·.status = .funded)).map .funded ++
    (res.topups.filter (·.status = .failed)).map .failed ++
      if Py.truthy res.error then [.passError (res.error.getD "")] else []

/-- `_fund_pass` from the line of the health on. -/
def topupPass (s : FundSettings) (now : Nat → Int) (h : FundingHealth) : Py (List FundNote) :=
  if h.below = [] ∧ h.funderCrit = false ∧ h.error = none then return []
  else if !Py.truthy s.fundingCallerToken || !Py.truthy s.fundingWalletName then return [.notSet]
  else do
    let res ← runFunding (s.args now)
    return res.notes

/-- A cycle of `fund run`. -/
structure FundCycle where
  trace : DaemonTrace
  health : Except Exc FundingHealth
  /-- `time.monotonic()`, when the line is judged. -/
  time : ℚ
  passTrace : Trace := []
  pass : Except Exc (List FundNote) := .ok []
  /-- `int(time.time())` in the pass. -/
  now : Nat → Int := fun _ => 0

namespace FundCycle

variable (c : FundCycle)

/-- The health that the cycle judges. -/
def judged : Option (ℚ × FundingHealth) := c.health.toOption.map fun h => (c.time, h)

def outcome : Except Exc (List FundNote) := do
  let _ ← c.health
  c.pass

/-- What the cycle logs behind the line, or in its place. -/
def notes : List FundNote :=
  match c.outcome with
  | .ok notes => notes
  | .error e => [.cycleError e.str]

end FundCycle

abbrev FundLog := Log FundingHealth FundLine FundNote

/-- A cycle, and what it adds to the log. -/
def FundStep (s : FundSettings) (l : FundLog) (c : FundCycle) (l' : FundLog) : Prop :=
  (∀ h, c.health = .ok h → Runs (readHealth s.network) c.trace (.ok h) ∧
    ∀ notes, c.pass = .ok notes → Runs (topupPass s c.now h) c.passTrace (.ok notes)) ∧
    l' = fundLog.cycle l c.judged c.notes

/-- After an alarm the state is again what the last healthy line said, less than six hours ago. -/
structure FundSilent (l : FundLog) (now : ℚ) (h : FundingHealth) : Prop where
  well : h.severity = .ok
  said : l.last = some (renderHealth h false)
  young : now - l.time < 6 * 3600
  alarmed : ∃ y, l.EndsWith y ∧ y.2.severity ≠ .ok

/-- The last health line is that of the health that was read last, or the same one, less than six
hours old, where all is well.  Notes may stand behind it. -/
def FundLogTold (l : FundLog) (cs : List FundCycle) : Prop :=
  ∀ x ∈ (cs.filterMap FundCycle.judged).getLast?, ∃ y, l.EndsWith y ∧
    renderHealth y.2 false = renderHealth x.2 false ∧
      (y = x ∨ x.2.severity = .ok ∧ x.1 - y.1 < 6 * 3600)

section

variable {s : FundSettings} {cs : List FundCycle} {c : FundCycle} {l : FundLog}
  {x : ℚ × FundingHealth}

theorem tells_fund : Tells fundLog FundCycle.judged FundCycle.notes (FundStep s) :=
  fun _ _ _ h => h.2

theorem fundLogTold_iff : fundLog.Current l (cs.filterMap FundCycle.judged) ↔ FundLogTold l cs := by
  simp [Policy.Current, FundLogTold, fundLog, Log.endsWith_iff]

theorem fundSilent_iff : fundLog.Silent l x ↔ FundSilent l x.1 x.2 := by
  unfold Policy.Silent
  rw [speaks_eq_false]
  simp only [fundLog, decide_eq_false_iff_not, not_not, decide_eq_true_eq, Option.mem_def,
    Log.endsWith_iff]
  constructor
  · rintro ⟨⟨hwell, hsaid, hyoung⟩, halarmed⟩
    exact ⟨hwell, hsaid, hyoung, halarmed⟩
  · intro h
    exact ⟨⟨h.well, h.said, h.young⟩, h.alarmed⟩

instance {now : ℚ} {h : FundingHealth} : Decidable (FundSilent l now h) :=
  decidable_of_iff (fundLog.Silent l (now, h)) fundSilent_iff

end

def fundSettings : FundSettings where
  network := .flare
  fundingCallerToken := some "funder"
  fundingWalletName := some "ap-funder"

/-- A node that does not answer. -/
def silentNode : (o : DaemonOp) → o.Ans
  | .read _ => .transport "timed out"
  | o => healthyNode o

/-- A cycle against a node, where the pass reaches nobody. -/
def fundCycle (time : ℚ) (node : (o : DaemonOp) → o.Ans) : FundCycle :=
  let health := exec node (readHealth .flare)
  let pass := exec deafWorld (fromExcept health.2 >>= topupPass fundSettings fun _ => 0)
  { trace := health.1
    health := health.2
    time := time
    passTrace := pass.1
    pass := pass.2 }

theorem fundCycle_step {time : ℚ} {node : (o : DaemonOp) → o.Ans} {l : FundLog} :
    FundStep fundSettings l (fundCycle time node)
      (fundLog.cycle l (fundCycle time node).judged (fundCycle time node).notes) := by
  refine ⟨fun h hh => ⟨?_, fun notes hnotes => ?_⟩, rfl⟩
  · rw [← hh]
    exact @exec_runs daemonSig _ _ node _
  · have hpass := exec_runs deafWorld (topupPass fundSettings (fun _ => 0) h)
    have hsame : (fromExcept (exec node (readHealth .flare)).2 >>=
        topupPass fundSettings fun _ => 0) = topupPass fundSettings (fun _ => 0) h := by
      rw [show (exec node (readHealth .flare)).2 = .ok h from hh]
      rfl
    rw [← hsame] at hpass
    rw [← hnotes]
    exact hsame ▸ hpass

def blip : List FundCycle :=
  [fundCycle 9000 healthyNode, fundCycle 9600 silentNode, fundCycle 10200 healthyNode]

end Clif
