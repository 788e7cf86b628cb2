import Clif.Funding

/-!
# Alert — the severities of registration and funding, and `alert_level`

The severities are computed in two modules from their own flags; the pager takes the worst of the
two and derives its reasons anew, from other fields.  `explained_iff` says for which states it gets
as far as a level, with a reason for each component that is not well.
-/

namespace Clif

/-! ## Severities -/

inductive Severity where
  | ok
  | warn
  | crit
deriving DecidableEq

/-- `_ORDER`. -/
def Severity.order : Severity → Nat
  | .ok => 0
  | .warn => 1
  | .crit => 2

/-- `max(a, b, key=_ORDER)`: the first one, unless the second is worse. -/
def Severity.worst (a b : Severity) : Severity := if a.order < b.order then b else a

/-! ## Funding -/

structure AccountStatus where
  name : String
  address : String
  balance : ℚ
  band : Band
deriving DecidableEq

def AccountStatus.below (a : AccountStatus) : Bool := decide (a.balance < a.band.lower)

/-- Within 10% above the floor. -/
def AccountStatus.nearing (a : AccountStatus) : Bool :=
  !a.below && decide (a.balance < a.band.lower * (11 / 10))

/-- `funderBalance = none`: the read failed. -/
structure FundingHealth where
  network : Network
  accounts : List AccountStatus
  funderBalance : Option ℚ
  error : Option String := none
deriving DecidableEq

/-- `_FUNDER_WARN`. -/
def funderWarnLimit : ℚ := 800

/-- `_FUNDER_CRIT`. -/
def funderCritLimit : ℚ := 400

namespace FundingHealth

def below (h : FundingHealth) : List AccountStatus := h.accounts.filter AccountStatus.below

def nearing (h : FundingHealth) : List AccountStatus := h.accounts.filter AccountStatus.nearing

def funderCrit (h : FundingHealth) : Bool :=
  match h.funderBalance with
  | some b => decide (b < funderCritLimit)
  | none => false

def funderWarn (h : FundingHealth) : Bool :=
  match h.funderBalance with
  | some b => decide (b < funderWarnLimit)
  | none => false

/-- `error is not None or funder_balance is None`. -/
def unread (h : FundingHealth) : Bool := h.error.isSome || h.funderBalance.isNone

def severity (h : FundingHealth) : Severity :=
  if h.unread then .crit
  else if !h.below.isEmpty || h.funderCrit then .crit
  else if !h.nearing.isEmpty || h.funderWarn then .warn
  else .ok

end FundingHealth

/-! ## Registration -/

/-- `_DEFAULT_GAS_FLOOR`. -/
def defaultGasFloor : ℚ := 10

structure RegistrationReadiness where
  network : Network
  /-- `False`: no voter registry is pinned. -/
  supported : Bool := true
  currentEpoch : Option Int := none
  nextEpoch : Option Int := none
  currentRegistered : Bool := false
  nextWindowEnabled : Bool := false
  votePowerBlock : Int := 0
  nextRegistered : Bool := false
  nextWeight : Int := 0
  senderAccount : String := "Submit"
  senderBalance : Option ℚ := none
  gasFloor : ℚ := defaultGasFloor
  entityOk : Bool := false
  timeToBoundarySec : Option ℚ := none
  error : Option String := none
deriving DecidableEq

/-- The dict that `to_dict` makes. -/
structure ReadinessDict where
  network : Network
  supported : Bool
  severity : Severity
  currentEpoch : Option Int
  currentRegistered : Bool
  nextEpoch : Option Int
  nextWindowEnabled : Bool
  nextRegistered : Bool
  votePowerBlock : Int
  nextWeight : Int
  votepowerOk : Bool
  entityOk : Bool
  senderAccount : String
  senderBalance : Option ℚ
  gasFloor : ℚ
  gasOk : Bool
  timeToBoundarySec : Option Int
  error : Option String
deriving DecidableEq

namespace RegistrationReadiness

def gasOk (r : RegistrationReadiness) : Bool :=
  match r.senderBalance with
  | some b => decide (r.gasFloor ≤ b)
  | none => false

def gasNearing (r : RegistrationReadiness) : Bool :=
  match r.senderBalance with
  | some b => r.gasOk && decide (b < r.gasFloor * 2)
  | none => false

/-- Only a failure once the window is open with zero weight. -/
def votepowerOk (r : RegistrationReadiness) : Bool :=
  !r.nextWindowEnabled || decide (0 < r.nextWeight)

def severity (r : RegistrationReadiness) : Severity :=
  if !r.supported then .ok
  else if r.error.isSome then .crit
  else if !r.currentRegistered then .crit
  else if !r.gasOk then .crit
  else if !r.entityOk then .crit
  else if r.nextWindowEnabled && !r.nextRegistered then
    if !r.votepowerOk then .crit else .warn
  else if r.gasNearing then .warn
  else .ok

def toDict (r : RegistrationReadiness) : ReadinessDict :=
  { network := r.network
    supported := r.supported
    severity := r.severity
    currentEpoch := r.currentEpoch
    currentRegistered := r.currentRegistered
    nextEpoch := r.nextEpoch
    nextWindowEnabled := r.nextWindowEnabled
    nextRegistered := r.nextRegistered
    votePowerBlock := r.votePowerBlock
    nextWeight := r.nextWeight
    votepowerOk := r.votepowerOk
    entityOk := r.entityOk
    senderAccount := r.senderAccount
    senderBalance := r.senderBalance.map fun x => Py.round x 4
    gasFloor := r.gasFloor
    gasOk := r.gasOk
    timeToBoundarySec := r.timeToBoundarySec.map fun x => x.num.tdiv x.den
    error := r.error }

end RegistrationReadiness

/-! ## The level -/

inductive Component where
  | registration
  | funding
deriving DecidableEq

/-- A reason, with the values that its text shows. -/
inductive AlertReason where
  | registrationUnread (error : String)
  | notRegistered
  | gasBelowFloor (sender : String) (balance : Option ℚ) (floor : ℚ)
  | entityGap
  | zeroVotePower
  | fundingUnread (error : Option String)
  | belowBand (name : String) (balance lower : ℚ)
  | funderCritical (balance : Option ℚ)
  | funderLow (balance : Option ℚ)
  | nearingFloor (name : String) (balance : ℚ)
deriving DecidableEq

def AlertReason.component : AlertReason → Component
  | .registrationUnread _ => .registration
  | .notRegistered => .registration
  | .gasBelowFloor .. => .registration
  | .entityGap => .registration
  | .zeroVotePower => .registration
  | _ => .funding

/-- `a.lower`: an `AccountStatus` has a `band`, but no `lower` of its own. -/
def AccountStatus.lower (_ : AccountStatus) : Except Exc ℚ :=
  .error (.other "AttributeError" "'AccountStatus' object has no attribute 'lower'")

def belowReason (a : AccountStatus) : Except Exc AlertReason := do
  let lower ← a.lower
  return .belowBand a.name a.balance lower

def registrationReasons (d : ReadinessDict) : List AlertReason :=
  (match d.error with
    | some e => if e ≠ "" then [.registrationUnread e] else unregistered
    | none => unregistered) ++
  (if d.gasOk then [] else [.gasBelowFloor d.senderAccount d.senderBalance d.gasFloor]) ++
  (if d.entityOk then [] else [.entityGap]) ++
  (if d.votepowerOk then [] else [.zeroVotePower])
where
  unregistered : List AlertReason := if d.currentRegistered then [] else [.notRegistered]

def fundingReasons (h : FundingHealth) : Except Exc (List AlertReason) := do
  let below ← h.below.mapM belowReason
  return (if h.unread then [.fundingUnread h.error] else []) ++ below ++
    (if h.funderCrit then [.funderCritical h.funderBalance]
      else if h.funderWarn then [.funderLow h.funderBalance] else []) ++
    h.nearing.map fun a => .nearingFloor a.name a.balance

/-- `alert_level`. -/
def alertLevel (d : ReadinessDict) (h : FundingHealth) :
    Except Exc (Severity × List AlertReason) := do
  let funding ← fundingReasons h
  return (d.severity.worst h.severity, registrationReasons d ++ funding)

/-! ## What the level should tell -/

def severityOf (r : RegistrationReadiness) (h : FundingHealth) : Component → Severity
  | .registration => r.severity
  | .funding => h.severity

/-- There is a level, the worst of the two severities, with a reason for each component that is not
`OK`. -/
def Explained (r : RegistrationReadiness) (h : FundingHealth) : Prop :=
  ∃ level reasons, alertLevel r.toDict h = .ok (level, reasons) ∧
    (∃ c, level = severityOf r h c) ∧ (∀ c, (severityOf r h c).order ≤ level.order) ∧
    ∀ c, severityOf r h c ≠ .ok → ∃ reason ∈ reasons, reason.component = c

section

variable {r : RegistrationReadiness} {h : FundingHealth} {d : ReadinessDict}

theorem worst_order (a b : Severity) :
    a.order ≤ (a.worst b).order ∧ b.order ≤ (a.worst b).order := by
  unfold Severity.worst
  split <;> omega

theorem worst_eq (a b : Severity) : a.worst b = a ∨ a.worst b = b := by
  unfold Severity.worst
  split
  · exact Or.inr rfl
  · exact Or.inl rfl

/-- The pager raises exactly if an account is below its floor. -/
theorem fundingReasons_ok : (∃ reasons, fundingReasons h = .ok reasons) ↔ h.below = [] := by
  unfold fundingReasons
  cases h.below with
  | nil => exact iff_of_true ⟨_, rfl⟩ rfl
  | cons a rest =>
    refine iff_of_false ?_ (List.cons_ne_nil _ _)
    rintro ⟨reasons, hr⟩
    cases hr

/-- The funding reasons cover the funding severity. -/
theorem fundingReasons_cover {reasons : List AlertReason} (hr : fundingReasons h = .ok reasons)
    (hs : h.severity ≠ .ok) : ∃ reason ∈ reasons, reason.component = .funding := by
  have hbelow : h.below = [] := fundingReasons_ok.mp ⟨_, hr⟩
  unfold fundingReasons at hr
  rw [hbelow] at hr
  cases hr
  unfold FundingHealth.severity at hs
  by_cases hunread : h.unread = true
  · exact ⟨.fundingUnread h.error, by simp [hunread], rfl⟩
  by_cases hcrit : h.funderCrit = true
  · exact ⟨.funderCritical h.funderBalance, by simp [hcrit], rfl⟩
  by_cases hwarn : h.funderWarn = true
  · exact ⟨.funderLow h.funderBalance, by simp [hcrit, hwarn], rfl⟩
  -- what is left is an account near its floor
  cases hnear : h.nearing with
  | nil => simp [hunread, hbelow, hcrit, hwarn, hnear] at hs
  | cons a rest => exact ⟨.nearingFloor a.name a.balance, by simp, rfl⟩

theorem fundingReasons_component {reasons : List AlertReason} {reason : AlertReason}
    (hr : fundingReasons h = .ok reasons) (hmem : reason ∈ reasons) :
    reason.component ≠ .registration := by
  have hbelow : h.below = [] := fundingReasons_ok.mp ⟨_, hr⟩
  unfold fundingReasons at hr
  rw [hbelow] at hr
  cases hr
  simp only [List.mem_append, List.mem_map] at hmem
  rcases hmem with ((hmem | hmem) | hmem) | ⟨a, -, rfl⟩
  · split at hmem
    · rw [List.mem_singleton.mp hmem]
      simp [AlertReason.component]
    · cases hmem
  · cases hmem
  · split at hmem
    · rw [List.mem_singleton.mp hmem]
      simp [AlertReason.component]
    · split at hmem
      · rw [List.mem_singleton.mp hmem]
        simp [AlertReason.component]
      · cases hmem
  · simp [AlertReason.component]

theorem registrationReasons_component {reason : AlertReason}
    (hmem : reason ∈ registrationReasons d) : reason.component = .registration := by
  have hunreg : ∀ {x : AlertReason}, x ∈ registrationReasons.unregistered d →
      x.component = .registration := by
    intro x hx
    unfold registrationReasons.unregistered at hx
    split at hx
    · cases hx
    · rw [List.mem_singleton.mp hx]
      rfl
  unfold registrationReasons at hmem
  simp only [List.mem_append] at hmem
  rcases hmem with ((hmem | hmem) | hmem) | hmem
  · split at hmem
    · split at hmem
      · rw [List.mem_singleton.mp hmem]
        rfl
      · exact hunreg hmem
    · exact hunreg hmem
  all_goals
    split at hmem
    · cases hmem
    · rw [List.mem_singleton.mp hmem]
      rfl

/-- The registration reasons are empty for these readings only. -/
theorem registrationReasons_eq_nil : registrationReasons d = [] ↔
    (d.error = none ∨ d.error = some "") ∧ d.currentRegistered = true ∧ d.gasOk = true ∧
      d.entityOk = true ∧ d.votepowerOk = true := by
  unfold registrationReasons registrationReasons.unregistered
  cases herr : d.error with
  | none => cases d.currentRegistered <;> cases d.gasOk <;> cases d.entityOk <;> simp
  | some e =>
    by_cases he : e = ""
    · subst he
      cases d.currentRegistered <;> cases d.gasOk <;> cases d.entityOk <;> simp
    · simp [he]

/-- Without a reason the registration is well, or at `WARN` with its vote power in order, or
unreadable for an error that has no text. -/
theorem registration_covered (hs : r.supported = true) :
    (r.severity ≠ .ok → registrationReasons r.toDict ≠ []) ↔
      (r.severity = .warn → r.votepowerOk = false) ∧
        ¬ (r.error = some "" ∧ r.currentRegistered = true ∧ r.gasOk = true ∧ r.entityOk = true ∧
          r.votepowerOk = true) := by
  rw [Ne, Ne, registrationReasons_eq_nil]
  simp only [RegistrationReadiness.toDict]
  unfold RegistrationReadiness.severity
  rw [hs]
  cases herr : r.error with
  | some e => simp
  | none =>
    cases hreg : r.currentRegistered with
    | false => simp
    | true =>
      cases hgas : r.gasOk with
      | false => simp
      | true =>
        cases hentity : r.entityOk with
        | false => simp
        | true =>
          cases hpower : r.votepowerOk with
          | false =>
            -- the window is open
            have hopen : r.nextWindowEnabled = true := by
              by_contra hclosed
              simp [RegistrationReadiness.votepowerOk, hclosed] at hpower
            cases hnext : r.nextRegistered <;> simp [hopen]
          | true =>
            cases hopen : (r.nextWindowEnabled && !r.nextRegistered) <;>
              cases hnear : r.gasNearing <;> simp

end

/-- The pager tells a level with its reasons exactly if no account is below its floor, registration
is not at `WARN` (unless the vote power is missing, too), and no read failed with an empty text
while all else was well. -/
theorem explained_iff (r : RegistrationReadiness) (h : FundingHealth) (hs : r.supported = true) :
    Explained r h ↔ h.below = [] ∧ (r.severity = .warn → r.votepowerOk = false) ∧
      ¬ (r.error = some "" ∧ r.currentRegistered = true ∧ r.gasOk = true ∧ r.entityOk = true ∧
        r.votepowerOk = true) := by
  have hdict : r.toDict.severity = r.severity := rfl
  rw [← registration_covered hs]
  constructor
  · rintro ⟨level, reasons, hlevel, -, -, hcover⟩
    cases hf : fundingReasons h with
    | error e =>
      rw [alertLevel, hf] at hlevel
      cases hlevel
    | ok funding =>
      refine ⟨fundingReasons_ok.mp ⟨_, hf⟩, fun hbad hnil => ?_⟩
      rw [alertLevel, hf] at hlevel
      cases hlevel
      obtain ⟨reason, hmem, hcomp⟩ := hcover .registration hbad
      rw [hnil, List.nil_append] at hmem
      -- a funding reason is no registration reason
      exact absurd hcomp (fundingReasons_component hf hmem)
  · rintro ⟨hbelow, hreg⟩
    obtain ⟨funding, hf⟩ := fundingReasons_ok.mpr hbelow
    refine ⟨r.severity.worst h.severity, registrationReasons r.toDict ++ funding, ?_, ?_, ?_, ?_⟩
    · rw [alertLevel, hf, hdict]
      rfl
    · rcases worst_eq r.severity h.severity with hw | hw
      · exact ⟨.registration, hw⟩
      · exact ⟨.funding, hw⟩
    · intro c
      cases c with
      | registration => exact (worst_order _ _).1
      | funding => exact (worst_order _ _).2
    · intro c hbad
      cases c with
      | registration =>
        obtain ⟨reason, hmem⟩ := List.exists_mem_of_ne_nil _ (hreg hbad)
        exact ⟨reason, List.mem_append_left _ hmem, registrationReasons_component hmem⟩
      | funding =>
        obtain ⟨reason, hmem, hcomp⟩ := fundingReasons_cover hf hbad
        exact ⟨reason, List.mem_append_right _ hmem, hcomp⟩

/-! ### `Submit` at 5 -/

/-- All is well with the registration. -/
def wellRegistered : RegistrationReadiness :=
  { network := .flare, currentEpoch := some 424, nextEpoch := some 425, currentRegistered := true,
    senderBalance := some 300, entityOk := true }

def fundingOf (submit : ℚ) : FundingHealth :=
  { network := .flare, funderBalance := some 2000,
    accounts := [⟨"Submit", "0x366BCb8c23490327A1C63880875a35de41705876", submit, gasBand⟩] }

/-- The pager raises on the account that it should page for. -/
theorem emptySubmit_unexplained :
    alertLevel wellRegistered.toDict (fundingOf 5) =
      .error (.other "AttributeError" "'AccountStatus' object has no attribute 'lower'") ∧
    (fundingOf 5).severity = .crit ∧ ¬ Explained wellRegistered (fundingOf 5) := by
  have hraises : alertLevel wellRegistered.toDict (fundingOf 5) =
      .error (.other "AttributeError" "'AccountStatus' object has no attribute 'lower'") := by
    decide +kernel
  refine ⟨hraises, by decide +kernel, ?_⟩
  rintro ⟨level, reasons, hlevel, -⟩
  rw [hraises] at hlevel
  cases hlevel

/-- 260 is near the floor of 250, and that is said. -/
theorem explained_nearing : Explained wellRegistered (fundingOf 260) :=
  (explained_iff wellRegistered (fundingOf 260) rfl).mpr
    ⟨by decide +kernel, by decide +kernel, by decide +kernel⟩

end Clif
