import Clif.Debounce
import Clif.FundingPass
import Clif.Effect.Wp

/-!
# Readings — `read_readiness` and `read_health`, the reads behind the health daemons

Neither of them raises an `RpcError`: what could not be read shows as `CRIT`.  So a reading that is
not `CRIT` is complete, and each of its fields is what the node answered (`wp_readReadiness`,
`wp_readHealth`).
-/

namespace Clif

open Effect

/-! ## What the daemons ask -/

inductive HealthOp where
  | currentRewardEpochId (fsm : String)
  | firstRewardEpochStartTs (fsm : String)
  | rewardEpochDurationSeconds (fsm : String)
  | isVoterRegistered (vr voter : String) (epoch : Int)
  | voterRegistrationData (fsm : String) (epoch : Int)
  | voterRegistrationWeight (vr voter : String) (epoch : Int)
  | getBalance (address : String)
  | getVoterAddresses (em voter : String)
deriving DecidableEq

@[reducible] def HealthOp.Res : HealthOp → Type
  | .currentRewardEpochId _ => Int
  | .firstRewardEpochStartTs _ => Int
  | .rewardEpochDurationSeconds _ => Int
  | .isVoterRegistered .. => Bool
  | .voterRegistrationData _ _ => Int × Bool
  | .voterRegistrationWeight .. => Int
  | .getBalance _ => Int
  | .getVoterAddresses _ _ => String × String × String

/-- The JSON-RPC method behind the call. -/
def HealthOp.method : HealthOp → String
  | .getBalance _ => "eth_getBalance"
  | _ => "eth_call"

/-- The values that the text of `format_alert` shows. -/
structure AlertMessage where
  network : Network
  epoch : Option Int
  level : Severity
  reasons : List AlertReason
  kind : AlertKind
deriving DecidableEq

/-- What `alert run` keeps in its status file. -/
structure AlertStatus where
  state : AlertState
  network : Network
  epoch : Option Int
  reasons : List AlertReason
deriving DecidableEq

/-- What leaves a health daemon.  An answer may be an exception, by class and text. -/
inductive DaemonOp where
  | read (o : HealthOp)
  /-- `time.time()`. -/
  | clock
  /-- `write_status_atomic`. -/
  | store (status : AlertStatus)
  /-- `post_webhook`. -/
  | post (url : String) (msg : AlertMessage)
  /-- The request of `heartbeat`. -/
  | get (url : String)
  | sleep (seconds : Int)
deriving DecidableEq

@[reducible] def DaemonOp.Ans : DaemonOp → Type
  | .read o => Reply o.Res
  | .clock => ℚ
  | .store _ => Except (String × String) Unit
  | .post _ _ => Except (String × String) Bool
  | .get _ => Except (String × String) Bool
  | .sleep _ => Unit

@[reducible] def daemonSig : Sig := ⟨DaemonOp, DaemonOp.Ans⟩

abbrev DaemonTrace := List (Event daemonSig)

/-! ## Reads -/

/-- `_is_benign_registration_revert`. -/
def isBenignRegistrationRevert (text : String) : Bool :=
  Py.isIn "not supported" (Py.lower text) || Py.isIn "voter not registered" (Py.lower text)

def health (o : HealthOp) : Act daemonSig Exc o.Res := do
  let r ← ask (S := daemonSig) (.read o)
  fromExcept (rpcResult o.method r)

/-- A read for which a benign revert stands for `default`. -/
def healthOr (o : HealthOp) (default : o.Res) : Act daemonSig Exc o.Res := do
  match ← attempt (health o) with
  | .ok x => return x
  | .error (.rpcError m) =>
    if isBenignRegistrationRevert m then return default else throw (.rpcError m)
  | .error e => throw e

/-- `is_voter_registered`. -/
def isVoterRegistered (vr voter : String) (epoch : Int) : Act daemonSig Exc Bool :=
  healthOr (.isVoterRegistered vr voter epoch) false

/-- `voter_registration_weight`. -/
def voterRegistrationWeight (vr voter : String) (epoch : Int) : Act daemonSig Exc Int :=
  healthOr (.voterRegistrationWeight vr voter epoch) 0

/-- `voter_registration_data`. -/
def voterRegistrationData (fsm : String) (epoch : Int) :
    Act daemonSig Exc (Int × Bool) :=
  healthOr (.voterRegistrationData fsm epoch) (0, false)

/-- Reads into an object, the text of an `RpcError` as well. -/
def readInto {σ : Type} (setError : String → σ → σ) (p : StAct daemonSig Exc σ Unit) (s : σ) :
    Act daemonSig Exc σ := do
  let read ← runLocal (attemptOn p) s
  match read.1 with
  | .ok _ => return read.2
  | .error (.rpcError m) => return setError m read.2
  | .error e => throw e

/-! ## `read_readiness` -/

/-- `_addr_of`. -/
def addrOf (network : Network) (name : String) : Option String :=
  ((accounts network).find? fun a => a.name = name).map Account.address

/-- `_is_zero`. -/
def isZero (addr : String) : Bool :=
  match Py.intHex? addr with
  | some n => n = 0
  | none => true

/-- The settings of `read_readiness`. -/
structure ReadinessSettings where
  network : Network
  registrationGasFloor : ℚ := defaultGasFloor
  registrationSenderAccount : String := "Submit"

def ReadinessSettings.net (s : ReadinessSettings) : NetworkConfig := networks s.network

def ReadinessSettings.blank (s : ReadinessSettings) : RegistrationReadiness :=
  { network := s.network
    senderAccount := s.registrationSenderAccount
    gasFloor := s.registrationGasFloor }

/-- `w / 1e18`. -/
def ether (w : Int) : ℚ := Py.divFloat w wei

/-- The body of the `try`; what it has read by then is in the object. -/
def readFields (s : ReadinessSettings) (identity : String) (now : ℚ) :
    StAct daemonSig Exc RegistrationReadiness Unit := do
  let current ← health (.currentRewardEpochId s.net.flareSystemsManager)
  let firstTs ← health (.firstRewardEpochStartTs s.net.flareSystemsManager)
  let dur ← health (.rewardEpochDurationSeconds s.net.flareSystemsManager)
  modify fun r =>
    { r with
      currentEpoch := some current
      nextEpoch := some (current + 1)
      timeToBoundarySec := some (firstTs + (current + 1) * dur - now) }
  let registered ← isVoterRegistered s.net.voterRegistry identity current
  modify fun r => { r with currentRegistered := registered }
  let data ← voterRegistrationData s.net.flareSystemsManager (current + 1)
  modify fun r => { r with votePowerBlock := data.1, nextWindowEnabled := data.2 }
  let next ← isVoterRegistered s.net.voterRegistry identity (current + 1)
  modify fun r => { r with nextRegistered := next }
  let weight ← voterRegistrationWeight s.net.voterRegistry identity (current + 1)
  modify fun r => { r with nextWeight := weight }
  readSender (addrOf s.network s.registrationSenderAccount)
  let addrs ← health (.getVoterAddresses s.net.entityManager identity)
  modify fun r =>
    { r with entityOk := !isZero addrs.1 && !isZero addrs.2.1 && !isZero addrs.2.2 }
where
  readSender : Option String → StAct daemonSig Exc RegistrationReadiness Unit
    | some sender => do
      let w ← health (.getBalance sender)
      modify fun r => { r with senderBalance := some (ether w) }
    | none => pure ()

/-- The voter registry of the network is pinned, and so is our identity. -/
def ReadinessSettings.tracked (s : ReadinessSettings) : Option String :=
  if s.net.voterRegistry = "" ∨ s.net.entityManager = "" then none else addrOf s.network "Identity"

/-- `read_readiness`. -/
def readReadiness (s : ReadinessSettings) : Act daemonSig Exc RegistrationReadiness := do
  let now ← ask (S := daemonSig) .clock
  match s.tracked with
  | none => return { s.blank with supported := false }
  | some identity =>
    readInto (fun m r => { r with error := some m }) (readFields s identity now) s.blank

/-! ## `read_health` -/

/-- `_AP_FUNDER_ADDRESS`. -/
def apFunderAddress : String := "0xEa1355cC14f91092E135Eb2B43092DAe61Ebba27"

def readAccounts : List Account → StAct daemonSig Exc FundingHealth Unit
  | [] => pure ()
  | a :: rest => do
    let w ← health (.getBalance a.address)
    modify fun h => { h with accounts := h.accounts ++ [⟨a.name, a.address, native w, a.band⟩] }
    readAccounts rest

/-- The body of the `try`. -/
def readBalances (network : Network) : StAct daemonSig Exc FundingHealth Unit := do
  let accts ← fromExceptOn (registry network)
  readAccounts accts
  let w ← health (.getBalance apFunderAddress)
  modify fun h => { h with funderBalance := some (native w) }

/-- `read_health`. -/
def readHealth (network : Network) : Act daemonSig Exc FundingHealth :=
  readInto (fun m fh => { fh with error := some m }) (readBalances network)
    { network := network, accounts := [], funderBalance := none }

/-! ## What a reading shows -/

/-- The node answered so. -/
def ReadAs (h : DaemonTrace) (o : HealthOp) (x : o.Res) : Prop :=
  (⟨.read o, .result x⟩ : Event daemonSig) ∈ h

/-- The answer is a benign revert. -/
def Excused (o : HealthOp) (a : Reply o.Res) : Prop :=
  ∃ m, rpcResult o.method a = .error (.rpcError m) ∧ isBenignRegistrationRevert m = true

/-- The read has the value `x`; `default` stands for a benign revert. -/
def Shown (h : DaemonTrace) (o : HealthOp) (default x : o.Res) : Prop :=
  ReadAs h o x ∨ x = default ∧ ∃ a, (⟨.read o, a⟩ : Event daemonSig) ∈ h ∧ Excused o a

/-- The reads that go through `healthOr`. -/
def HealthOp.tolerant : HealthOp → Bool
  | .isVoterRegistered .. => true
  | .voterRegistrationData _ _ => true
  | .voterRegistrationWeight .. => true
  | _ => false

/-- A read that failed. -/
def Unread (e : Event daemonSig) : Prop :=
  ∃ o a, e = ⟨.read o, a⟩ ∧ (∀ x, a ≠ .result x) ∧ ¬ (o.tolerant = true ∧ Excused o a)

def AllRead (h : DaemonTrace) : Prop := ∀ e ∈ h, ¬ Unread e

/-- Every field is what the node answered. -/
structure ReadinessRead (s : ReadinessSettings) (identity : String) (epoch : Int)
    (h : DaemonTrace) (r : RegistrationReadiness) : Prop where
  supported : r.supported = true
  error : r.error = none
  floor : r.gasFloor = s.registrationGasFloor
  epochs : r.currentEpoch = some epoch ∧ r.nextEpoch = some (epoch + 1)
  current : ReadAs h (.currentRewardEpochId s.net.flareSystemsManager) epoch
  registered : Shown h (.isVoterRegistered s.net.voterRegistry identity epoch) false
    r.currentRegistered
  window : Shown h (.voterRegistrationData s.net.flareSystemsManager (epoch + 1)) (0, false)
    (r.votePowerBlock, r.nextWindowEnabled)
  next : Shown h (.isVoterRegistered s.net.voterRegistry identity (epoch + 1)) false
    r.nextRegistered
  weight : Shown h (.voterRegistrationWeight s.net.voterRegistry identity (epoch + 1)) 0
    r.nextWeight
  balance : ∀ b, r.senderBalance = some b → ∃ sender w,
    addrOf s.network s.registrationSenderAccount = some sender ∧
      ReadAs h (.getBalance sender) w ∧ b = ether w
  entity : ∃ addrs, ReadAs h (.getVoterAddresses s.net.entityManager identity) addrs ∧
    r.entityOk = (!isZero addrs.1 && !isZero addrs.2.1 && !isZero addrs.2.2)

/-- The balance of the account is what the node answered. -/
def StatusRead (h : DaemonTrace) (a : Account) (st : AccountStatus) : Prop :=
  ∃ w, ReadAs h (.getBalance a.address) w ∧ st = ⟨a.name, a.address, native w, a.band⟩

/-- Every account of the registry was read, and the funder. -/
structure FundingRead (network : Network) (h : DaemonTrace) (fh : FundingHealth) : Prop where
  listed : registry network = .ok (accounts network)
  error : fh.error = none
  accounts : List.Forall₂ (StatusRead h) (accounts network) fh.accounts
  funder : ∃ w, ReadAs h (.getBalance apFunderAddress) w ∧ fh.funderBalance = some (native w)

section

variable {σ α : Type} {o : HealthOp} {h h' : DaemonTrace} {s s' : σ} {x default : o.Res}
  {K : σ → Prop} {P : DaemonTrace → σ → Prop}

theorem ReadAs.mono (ha : ReadAs h o x) : ReadAs (h ++ h') o x := List.mem_append_left _ ha

theorem Shown.mono (hs : Shown h o default x) : Shown (h ++ h') o default x := by
  rcases hs with hs | ⟨hx, a, ha, hexcused⟩
  · exact Or.inl hs.mono
  · exact Or.inr ⟨hx, a, List.mem_append_left _ ha, hexcused⟩

theorem StatusRead.mono {a : Account} {st : AccountStatus} (hs : StatusRead h a st) :
    StatusRead (h ++ h') a st := by
  obtain ⟨w, ha, hst⟩ := hs
  exact ⟨w, ha.mono, hst⟩

/-- What holds at the end of reads: `P` if they went through, and a failed one before an
`RpcError`; `K` is what the object is by then. -/
def Reads (K : σ → Prop) (P : DaemonTrace → σ → Prop) : Except Exc α → DaemonTrace → σ → Prop
  | .ok _, h, s => P h s
  | .error (.rpcError _), h, s => K s ∧ ∃ e ∈ h, Unread e
  | .error _, _, _ => True

theorem runs_health {r : Except Exc o.Res} : Runs (health o) h r ↔
    ∃ a, h = [⟨.read o, a⟩] ∧ r = rpcResult o.method a := by
  unfold health
  rw [runs_ask_bind]
  constructor
  · rintro ⟨a, t, rfl, rfl, rfl⟩
    exact ⟨a, rfl, rfl⟩
  · rintro ⟨a, rfl, rfl⟩
    exact ⟨a, [], rfl, rfl, rfl⟩

theorem rpcResult_cases {method : String} {β : Type} (a : Reply β) :
    (∃ x, a = .result x ∧ rpcResult method a = .ok x) ∨
      (∀ x, a ≠ .result x) ∧ ∃ e, rpcResult method a = .error e := by
  cases a with
  | result x => exact Or.inl ⟨x, rfl, rfl⟩
  | transport _ | error _ | undecodable _ | malformed _ _ => exact Or.inr ⟨nofun, _, rfl⟩

/-- A failed read that no reader excuses. -/
theorem reads_error {e : Exc} {a : Reply o.Res} (hk : K s)
    (hmem : (⟨.read o, a⟩ : Event daemonSig) ∈ h)
    (hnone : ∀ x, a ≠ .result x) (hnot : ¬ (o.tolerant = true ∧ Excused o a)) :
    Reads (α := α) K P (.error e) h s := by
  cases e with
  | rpcError m => exact ⟨hk, _, hmem, o, a, rfl, hnone, hnot⟩
  | fwdTerminal | fwdRetryable | fwdError | other => trivial

theorem wpOn_health_bind {β : Type} {f : o.Res → StAct daemonSig Exc σ β} (ho : o.tolerant = false)
    (hk : K s) (hf : ∀ x, WpOn (f x) (Reads K P) (h ++ [⟨.read o, .result x⟩]) s) :
    WpOn (lift (health o) >>= f) (Reads K P) h s := by
  refine Wp.lift_bind (R := fun r h' => ∃ a, h' = h ++ [⟨.read o, a⟩] ∧ r = rpcResult o.method a)
    ?_ ?_ ?_
  · intro t r hr
    obtain ⟨a, rfl, rfl⟩ := runs_health.mp hr
    exact ⟨a, rfl, rfl⟩
  · rintro x h' ⟨a, rfl, ha⟩
    rw [rpcResult_eq_ok ha.symm]
    exact hf x
  · rintro e h' ⟨a, rfl, ha⟩
    refine @reads_error _ _ o _ _ K _ e a hk (List.mem_append_right _ (List.mem_singleton_self _)) ?_ ?_
    · rintro x rfl
      cases ha
    · rw [ho]
      exact fun hnot => Bool.false_ne_true hnot.1

/-- The value of a tolerant read, and the answer it comes from. -/
theorem wpOn_healthOr_bind {β : Type} {f : o.Res → StAct daemonSig Exc σ β}
    (hk : K s) (hf : ∀ x h', Shown (h ++ h') o default x → WpOn (f x) (Reads K P) (h ++ h') s) :
    WpOn (lift (healthOr o default) >>= f) (Reads K P) h s := by
  refine Wp.lift_bind (R := fun r h' => ∃ a, h' = h ++ [⟨.read o, a⟩] ∧
    ((∃ x, r = .ok x ∧ (a = .result x ∨ x = default ∧ Excused o a)) ∨
      (∃ e, r = .error e) ∧ (∀ x, a ≠ .result x) ∧ ¬ Excused o a)) ?_ ?_ ?_
  · intro t r hr
    unfold healthOr at hr
    obtain ⟨x, t₁, t₂, rfl, hread, hrest⟩ := runs_attempt_bind.mp hr
    obtain ⟨a, rfl, rfl⟩ := runs_health.mp hread
    refine ⟨a, ?_⟩
    rcases @rpcResult_cases o.method _ a with ⟨x, rfl, hx⟩ | ⟨hnone, e, he⟩
    · rw [hx] at hrest
      obtain ⟨rfl, rfl⟩ := hrest
      exact ⟨rfl, Or.inl ⟨x, rfl, Or.inl rfl⟩⟩
    · rw [he] at hrest
      cases e with
      | rpcError m =>
        dsimp only at hrest
        split at hrest
        · rename_i hbenign
          obtain ⟨rfl, rfl⟩ := hrest
          exact ⟨rfl, Or.inl ⟨default, rfl, Or.inr ⟨rfl, m, he, hbenign⟩⟩⟩
        · rename_i hreal
          obtain ⟨rfl, rfl⟩ := hrest
          refine ⟨rfl, Or.inr ⟨⟨_, rfl⟩, hnone, ?_⟩⟩
          rintro ⟨m', hm', hbenign⟩
          rw [he] at hm'
          cases hm'
          exact hreal hbenign
      | fwdTerminal | fwdRetryable | fwdError | other =>
        obtain ⟨rfl, rfl⟩ := hrest
        refine ⟨rfl, Or.inr ⟨⟨_, rfl⟩, hnone, ?_⟩⟩
        rintro ⟨m', hm', -⟩
        rw [he] at hm'
        cases hm'
  · rintro x h' ⟨a, rfl, ⟨y, hy, hshown⟩ | ⟨⟨e, he⟩, -⟩⟩
    · cases hy
      refine hf x _ ?_
      have hmem : (⟨.read o, a⟩ : Event daemonSig) ∈ h ++ [⟨.read o, a⟩] := by simp
      rcases hshown with rfl | ⟨hx, hexcused⟩
      · exact Or.inl hmem
      · exact Or.inr ⟨hx, a, hmem, hexcused⟩
    · cases he
  · rintro e h' ⟨a, rfl, ⟨y, hy, -⟩ | ⟨-, hnone, hnot⟩⟩
    · cases hy
    · exact @reads_error _ _ o _ _ K _ e a hk (List.mem_append_right _ (List.mem_singleton_self _)) hnone
        fun hexcused => hnot hexcused.2

theorem Reads.mono {P' : DaemonTrace → σ → Prop} {r : Except Exc α} (hr : Reads K P r h s)
    (hP : P h s → P' h s) : Reads K P' r h s := by
  cases r with
  | ok a => exact hP hr
  | error e =>
    cases e with
    | rpcError m => exact hr
    | fwdTerminal | fwdRetryable | fwdError | other => trivial

/-- A program of reads after another. -/
theorem wpOn_reads_bind {β : Type} {p : StAct daemonSig Exc σ α} {f : α → StAct daemonSig Exc σ β}
    {P' : DaemonTrace → σ → Prop} (hp : WpOn p (Reads K P) h s)
    (hf : ∀ a h' s', P h' s' → WpOn (f a) (Reads K P') h' s') :
    WpOn (p >>= f) (Reads K P') h s := by
  refine hp.bind hf fun e h' s' he => ?_
  cases e with
  | rpcError m => exact he
  | fwdTerminal | fwdRetryable | fwdError | other => trivial

theorem wpOn_modify {g : σ → σ} (h₁ : P h (g s)) :
    WpOn (modify g : StAct daemonSig Exc σ PUnit) (Reads K P) h s := by
  intro t r s' hr
  obtain ⟨rfl, rfl, rfl⟩ := runsOn_modify.mp hr
  rw [List.append_nil]
  exact h₁

theorem wpOn_readSender {K : RegistrationReadiness → Prop} {sender : Option String}
    {h : DaemonTrace} {r : RegistrationReadiness} (hk : K r) :
    WpOn (readFields.readSender sender) (Reads K fun h' r' => ∃ more b, h' = h ++ more ∧
      r' = { r with senderBalance := b } ∧ ∀ v, b = some v → r.senderBalance = some v ∨
        ∃ a w, sender = some a ∧ ReadAs h' (.getBalance a) w ∧ v = ether w) h r := by
  cases sender with
  | none => exact wpOn_pure.mpr ⟨[], r.senderBalance, by simp, rfl, fun v hv => Or.inl hv⟩
  | some a =>
    refine wpOn_health_bind rfl hk fun w => wpOn_modify ⟨_, some (ether w), rfl, rfl, ?_⟩
    rintro v ⟨⟩
    exact Or.inr ⟨a, w, rfl, by simp [ReadAs], rfl⟩

/-- The fields of a reading that went through. -/
theorem wpOn_readFields {rs : ReadinessSettings} {identity : String} {now : ℚ} {h : DaemonTrace} :
    WpOn (readFields rs identity now) (Reads (fun r => r.supported = true)
      fun h' r => ∃ epoch, ReadinessRead rs identity epoch h' r) h rs.blank := by
  unfold readFields
  refine wpOn_health_bind rfl rfl fun current => wpOn_health_bind rfl rfl fun firstTs =>
    wpOn_health_bind rfl rfl fun dur => wpOn_modify_bind.mpr ?_
  refine wpOn_healthOr_bind rfl fun registered h₁ hregistered => wpOn_modify_bind.mpr ?_
  refine wpOn_healthOr_bind rfl fun data h₂ hdata => wpOn_modify_bind.mpr ?_
  refine wpOn_healthOr_bind rfl fun next h₃ hnext => wpOn_modify_bind.mpr ?_
  refine wpOn_healthOr_bind rfl fun weight h₄ hweight => wpOn_modify_bind.mpr ?_
  refine wpOn_reads_bind (wpOn_readSender rfl) ?_
  rintro - _ _ ⟨h₅, b, rfl, rfl, hb⟩
  refine wpOn_health_bind rfl rfl fun addrs => wpOn_modify ⟨current, ?_⟩
  dsimp only [ReadinessSettings.blank] at hb ⊢
  refine ⟨rfl, rfl, rfl, ⟨rfl, rfl⟩, ?_, ?_, ?_, ?_, ?_, ?_, ?_⟩
  · simp [ReadAs]
  · exact hregistered.mono.mono.mono.mono.mono
  · exact hdata.mono.mono.mono.mono
  · exact hnext.mono.mono.mono
  · exact hweight.mono.mono
  · intro v hv
    rcases hb v hv with hold | ⟨a, w, ha, hanswered, hw⟩
    · cases hold
    · exact ⟨a, w, ha, hanswered.mono, hw⟩
  · exact ⟨addrs, by simp [ReadAs], rfl⟩

theorem wpOn_readAccounts {K : FundingHealth → Prop} {as : List Account} {h : DaemonTrace}
    {fh : FundingHealth} (hk : ∀ l, K { fh with accounts := l }) :
    WpOn (readAccounts as) (Reads K fun h' fh' => ∃ more sts, h' = h ++ more ∧
      fh' = { fh with accounts := fh.accounts ++ sts } ∧ List.Forall₂ (StatusRead h') as sts)
      h fh := by
  induction as generalizing h fh with
  | nil => exact wpOn_pure.mpr ⟨[], [], by simp, by simp, .nil⟩
  | cons a as ih =>
    refine wpOn_health_bind rfl (hk fh.accounts) fun w => wpOn_modify_bind.mpr ?_
    have hrest := @ih (h ++ [⟨.read (.getBalance a.address), .result w⟩])
      { fh with accounts := fh.accounts ++ [⟨a.name, a.address, native w, a.band⟩] } fun l => hk l
    refine hrest.mono fun r h' fh' hread => hread.mono ?_
    rintro ⟨more, sts, rfl, rfl, hsts⟩
    refine ⟨_, _, List.append_assoc .., ?_, .cons ⟨w, by simp [ReadAs], rfl⟩ hsts⟩
    simp

theorem wpOn_readBalances {network : Network} {h : DaemonTrace} :
    WpOn (readBalances network) (Reads (fun _ => True) (FundingRead network)) h
      { network := network, accounts := [], funderBalance := none } := by
  have hread (hlisted : registry network = .ok (accounts network)) :
      WpOn (readAccounts (accounts network) >>= fun _ => do
        let w ← health (.getBalance apFunderAddress)
        modify fun fh => { fh with funderBalance := some (native w) })
      (Reads (fun _ => True) (FundingRead network)) h
      { network := network, accounts := [], funderBalance := none } := by
    refine wpOn_reads_bind (wpOn_readAccounts fun _ => trivial) ?_
    rintro - _ _ ⟨more, sts, rfl, rfl, hsts⟩
    refine wpOn_health_bind rfl trivial fun w => wpOn_modify ⟨hlisted, rfl, ?_, w, ?_, rfl⟩
    · exact hsts.imp fun _ _ hst => hst.mono
    · simp [ReadAs]
  cases network with
  | flare => exact hread rfl
  | songbird => exact hread rfl
  | coston2 =>
    intro t r s' hr
    obtain ⟨rfl, rfl, rfl⟩ := runsOn_throw.mp hr
    trivial

/-! ## The two readers -/

/-- The answer of `read_readiness`: complete, not tracked, or with the error of a failed read. -/
def ReadinessShown (rs : ReadinessSettings) (h : DaemonTrace) (r : RegistrationReadiness) : Prop :=
  (rs.tracked = none ∧ r.supported = false) ∨
    (∃ identity epoch, rs.tracked = some identity ∧ ReadinessRead rs identity epoch h r) ∨
      (r.supported = true ∧ r.error.isSome = true) ∧ ∃ e ∈ h, Unread e

/-- That of `read_health`. -/
def FundingShown (network : Network) (h : DaemonTrace) (fh : FundingHealth) : Prop :=
  FundingRead network h fh ∨ fh.error.isSome = true ∧ ∃ e ∈ h, Unread e

theorem ReadinessRead.mono {rs : ReadinessSettings} {identity : String} {epoch : Int}
    {r : RegistrationReadiness} (hr : ReadinessRead rs identity epoch h r) :
    ReadinessRead rs identity epoch (h ++ h') r := by
  refine ⟨hr.supported, hr.error, hr.floor, hr.epochs, hr.current.mono, hr.registered.mono,
    hr.window.mono, hr.next.mono, hr.weight.mono, fun b hb => ?_, ?_⟩
  · obtain ⟨sender, w, hsender, hanswered, hw⟩ := hr.balance b hb
    exact ⟨sender, w, hsender, hanswered.mono, hw⟩
  · obtain ⟨addrs, hanswered, hok⟩ := hr.entity
    exact ⟨addrs, hanswered.mono, hok⟩

theorem FundingRead.mono {network : Network} {fh : FundingHealth} (hf : FundingRead network h fh) :
    FundingRead network (h ++ h') fh := by
  obtain ⟨w, hanswered, hw⟩ := hf.funder
  exact ⟨hf.listed, hf.error, hf.accounts.imp fun _ _ hst => hst.mono, w, hanswered.mono, hw⟩

theorem unread_mono (hu : ∃ e ∈ h, Unread e) : ∃ e ∈ h ++ h', Unread e := by
  obtain ⟨e, he, hunread⟩ := hu
  exact ⟨e, List.mem_append_left _ he, hunread⟩

theorem ReadinessShown.mono {rs : ReadinessSettings} {r : RegistrationReadiness}
    (hr : ReadinessShown rs h r) : ReadinessShown rs (h ++ h') r := by
  rcases hr with huntracked | ⟨identity, epoch, hidentity, hread⟩ | ⟨herror, hunread⟩
  · exact Or.inl huntracked
  · exact Or.inr (Or.inl ⟨identity, epoch, hidentity, hread.mono⟩)
  · exact Or.inr (Or.inr ⟨herror, unread_mono hunread⟩)

theorem FundingShown.mono {network : Network} {fh : FundingHealth}
    (hf : FundingShown network h fh) : FundingShown network (h ++ h') fh := by
  rcases hf with hread | ⟨herror, hunread⟩
  · exact Or.inl hread.mono
  · exact Or.inr ⟨herror, unread_mono hunread⟩

/-- Not caught by `except RpcError`. -/
def Exc.escapes : Exc → Prop
  | .rpcError _ => False
  | _ => True

theorem wp_readInto {setError : String → σ → σ} {p : StAct daemonSig Exc σ Unit}
    (hp : WpOn p (Reads K P) h s) : Wp (readInto setError p s)
      (fun res h' => (∀ e, res = .error e → e.escapes) ∧ ∀ r, res = .ok r →
        P h' r ∨ (∃ m s', K s' ∧ r = setError m s') ∧ ∃ e ∈ h', Unread e) h := by
  intro t res hr
  unfold readInto at hr
  rcases runs_bind.mp hr with ⟨⟨x, s'⟩, t₁, t₂, rfl, hread, hrest⟩ | ⟨e, hread, -⟩
  · obtain ⟨y, s'', hy, hx⟩ := runs_runLocal.mp hread
    obtain ⟨z, hz, rfl⟩ := runsOn_attempt.mp hy
    cases hx
    have hreads := hp _ _ _ hz
    cases x with
    | ok u =>
      obtain ⟨rfl, rfl⟩ := hrest
      rw [List.append_nil]
      exact ⟨nofun, by rintro r ⟨⟩; exact Or.inl hreads⟩
    | error e =>
      cases e with
      | rpcError m =>
        obtain ⟨rfl, rfl⟩ := hrest
        rw [List.append_nil]
        exact ⟨nofun, by rintro r ⟨⟩; exact Or.inr ⟨⟨m, _, hreads.1, rfl⟩, hreads.2⟩⟩
      | fwdTerminal | fwdRetryable | fwdError | other =>
        obtain ⟨rfl, rfl⟩ := hrest
        exact ⟨by rintro e ⟨⟩; trivial, nofun⟩
  · obtain ⟨y, s'', hy, hx⟩ := runs_runLocal.mp hread
    obtain ⟨z, -, rfl⟩ := runsOn_attempt.mp hy
    cases hx

theorem wp_readReadiness {rs : ReadinessSettings} {h : DaemonTrace} : Wp (readReadiness rs)
    (fun res h' => (∀ e, res = .error e → e.escapes) ∧ ∀ r, res = .ok r → ReadinessShown rs h' r)
    h := by
  intro t res hr
  unfold readReadiness at hr
  obtain ⟨now, t, rfl, hrest⟩ := runs_ask_bind.mp hr
  cases htracked : rs.tracked with
  | none =>
    rw [htracked] at hrest
    obtain ⟨rfl, rfl⟩ := hrest
    exact ⟨nofun, by rintro r ⟨⟩; exact Or.inl ⟨htracked, rfl⟩⟩
  | some identity =>
    rw [htracked] at hrest
    obtain ⟨hraised, hread⟩ := wp_readInto
      (@wpOn_readFields rs identity now (h ++ [⟨.clock, now⟩])) _ _ hrest
    rw [List.append_assoc] at hread
    refine ⟨hraised, fun r hr => Or.inr ?_⟩
    rcases hread r hr with ⟨epoch, hread⟩ | ⟨⟨m, s', hs', rfl⟩, hunread⟩
    · exact Or.inl ⟨identity, epoch, htracked, hread⟩
    · exact Or.inr ⟨⟨hs', rfl⟩, hunread⟩

theorem wp_readHealth {network : Network} {h : DaemonTrace} : Wp (readHealth network)
    (fun res h' => (∀ e, res = .error e → e.escapes) ∧
      ∀ fh, res = .ok fh → FundingShown network h' fh) h := by
  intro t res hr
  obtain ⟨hraised, hread⟩ := wp_readInto (@wpOn_readBalances network h) _ _ hr
  refine ⟨hraised, fun fh hfh => ?_⟩
  rcases hread fh hfh with hread | ⟨⟨m, s', -, rfl⟩, hunread⟩
  · exact Or.inl hread
  · exact Or.inr ⟨rfl, hunread⟩

end

/-! ## Nothing but reads -/

/-- A read of the node, or of the clock. -/
def IsRead (e : Event daemonSig) : Prop := (∃ o, e.op = .read o) ∨ e.op = .clock

theorem emits_health {o : HealthOp} : Emits (health o) IsRead := by
  intro t r hr e he
  obtain ⟨a, rfl, -⟩ := runs_health.mp hr
  rw [List.mem_singleton.mp he]
  exact Or.inl ⟨o, rfl⟩

theorem emits_healthOr {o : HealthOp} {default : o.Res} : Emits (healthOr o default) IsRead := by
  refine emits_bind (emits_attempt emits_health) fun x => ?_
  cases x with
  | ok x => exact emits_pure x
  | error e =>
    cases e with
    | rpcError m =>
      dsimp only
      split
      · exact emits_pure default
      · exact emits_throw _
    | fwdTerminal | fwdRetryable | fwdError | other => exact emits_throw _

theorem emitsOn_readFields {rs : ReadinessSettings} {identity : String} {now : ℚ} :
    EmitsOn (readFields rs identity now) IsRead := by
  have hread : ∀ o, EmitsOn (lift (health o) : StAct daemonSig Exc RegistrationReadiness o.Res)
      IsRead := fun _ => emitsOn_lift emits_health
  have hreadOr : ∀ (o : HealthOp) (default : o.Res),
      EmitsOn (lift (healthOr o default) : StAct daemonSig Exc RegistrationReadiness o.Res) IsRead :=
    fun _ _ => emitsOn_lift emits_healthOr
  unfold readFields
  refine emitsOn_bind (hread _) fun _ => emitsOn_bind (hread _) fun _ =>
    emitsOn_bind (hread _) fun _ => emitsOn_bind (emitsOn_modify _) fun _ => ?_
  refine emitsOn_bind (hreadOr _ _) fun _ => emitsOn_bind (emitsOn_modify _) fun _ => ?_
  refine emitsOn_bind (hreadOr _ _) fun _ => emitsOn_bind (emitsOn_modify _) fun _ => ?_
  refine emitsOn_bind (hreadOr _ _) fun _ => emitsOn_bind (emitsOn_modify _) fun _ => ?_
  refine emitsOn_bind (hreadOr _ _) fun _ => emitsOn_bind (emitsOn_modify _) fun _ => ?_
  refine emitsOn_bind ?_ fun _ => emitsOn_bind (hread _) fun _ => emitsOn_modify _
  cases addrOf rs.network rs.registrationSenderAccount with
  | none => exact emitsOn_pure _
  | some a => exact emitsOn_bind (hread _) fun _ => emitsOn_modify _

theorem emitsOn_readBalances {network : Network} : EmitsOn (readBalances network) IsRead := by
  have hread : ∀ o, EmitsOn (lift (health o) : StAct daemonSig Exc FundingHealth o.Res) IsRead :=
    fun _ => emitsOn_lift emits_health
  have haccounts : ∀ as, EmitsOn (readAccounts as) IsRead := by
    intro as
    induction as with
    | nil => exact emitsOn_pure _
    | cons a as ih =>
      exact emitsOn_bind (hread _) fun _ => emitsOn_bind (emitsOn_modify _) fun _ => ih
  refine emitsOn_bind (emitsOn_fromExcept _) fun as => emitsOn_bind (haccounts as) fun _ => ?_
  exact emitsOn_bind (hread _) fun _ => emitsOn_modify _

theorem emits_readInto {σ : Type} {setError : String → σ → σ} {p : StAct daemonSig Exc σ Unit}
    {s : σ} (hp : EmitsOn p IsRead) : Emits (readInto setError p s) IsRead := by
  refine emits_bind ?_ fun read => ?_
  · intro t r hr
    obtain ⟨x, s', hx, -⟩ := runs_runLocal.mp hr
    exact emitsOn_attempt hp _ _ _ _ hx
  · obtain ⟨x, s'⟩ := read
    cases x with
    | ok u => exact emits_pure _
    | error e =>
      cases e with
      | rpcError m => exact emits_pure _
      | fwdTerminal | fwdRetryable | fwdError | other => exact emits_throw _

theorem emits_readReadiness {rs : ReadinessSettings} : Emits (readReadiness rs) IsRead := by
  refine emits_bind (emits_ask fun _ => Or.inr rfl) fun now => ?_
  cases rs.tracked with
  | none => exact emits_pure _
  | some identity => exact emits_readInto emitsOn_readFields

theorem emits_readHealth {network : Network} : Emits (readHealth network) IsRead :=
  emits_readInto emitsOn_readBalances

end Clif
