import Clif.AutoState
import Clif.Claimer
import Clif.Effect.Run
import Clif.Effect.Wp

/-!
# ClaimAuto — the legacy claim loop `clif auto`

One cycle passes over the streams in order and then writes the report.  `streamPass` is the body of
the loop over the streams.
-/

namespace Clif

open Effect

/-! ## The state of the loop -/

/-- `stream_key`. -/
def streamKey (network : Network) (claimType : Int) (beneficiary : String) : String :=
  s!"{network.str}:{claimType}:{Py.lower beneficiary}"

/-- `_enabled_claimers`: the streams of the loop, unless `--type` names one. -/
def enabledClaimers (s : Settings) : List (Int × String) :=
  (if Py.truthy s.identityAddress then [(1, s.identityAddress.getD "")] else []) ++
    if Py.truthy s.signingPolicyAddress then [(0, s.signingPolicyAddress.getD "")] else []

/-- What the loop logs about a stream. -/
inductive AutoLine where
  | discoveryFailure (key msg : String)
  /-- "confirmed claimed" -/
  | confirmed (key : String) (epochs : List Int)
  /-- "in terminal cooldown — NOT resubmitting" -/
  | cooling (key : String) (epoch : Int)
  | mined (key : String) (epochs : List Int) (amount : Int) (recipient : String)
      (txHash : Option String)
  | pending (key : String) (epochs : List Int) (txHash : Option String)
  | noop (key : String) (epochs : List Int) (txHash : Option String)
  | transient (key detail : String)
  | terminal (key : String) (epochs : List Int) (detail : String)
deriving DecidableEq

/-- The state of `auto`, with what it logged so far. -/
structure AutoLoop where
  auto : AutoState := {}
  log : List AutoLine := []

def epochsOf (claims : List RewardClaimWithProof) : List Int :=
  claims.map fun c => c.body.rewardEpochId

namespace AutoLoop

/-- The discovery ended with an `RpcError`. -/
def unread (key : String) (now : ℚ) (msg : String) (u : AutoLoop) : AutoLoop :=
  { auto := u.auto.recordAttempt key now "discovery-rpc-failure"
    log := u.log ++ [.discoveryFailure key msg] }

/-- What follows `collect_reward_claims`: the epochs that are gone count as claimed. -/
def observe (key : String) (epochs : List Int) (now : ℚ) (u : AutoLoop) : AutoLoop :=
  let claimed := (u.auto.s key).gone epochs now
  if claimed.isEmpty then { u with auto := u.auto.observe key epochs now }
  else
    { auto := (u.auto.observe key epochs now).recordSuccess key now
      log := u.log ++ [.confirmed key claimed] }

def attempt (key : String) (now : ℚ) (outcome : String) (u : AutoLoop) : AutoLoop :=
  { u with auto := u.auto.recordAttempt key now outcome }

def cool (key : String) (now : ℚ) (epoch : Int) (u : AutoLoop) : AutoLoop :=
  { auto := u.auto.recordAttempt key now "terminal-cooldown"
    log := u.log ++ [.cooling key epoch] }

/-- What follows the outcome of `submit_claims`. -/
def record (s : Settings) (key : String) (now : ℚ) (claims : List RewardClaimWithProof)
    (o : ClaimOutcome) (u : AutoLoop) : AutoLoop :=
  let auto := u.auto.recordAttempt key now o.status.value
  match o.status with
  | .submittedMined =>
    { auto := auto
      log := u.log ++ [.mined key o.epochs (claims.map fun c => c.body.amount).sum
        (orElse s.claimRecipientAddress "unknown") o.txHash] }
  | .submittedPending => { auto := auto, log := u.log ++ [.pending key o.epochs o.txHash] }
  | .minedNoop => { auto := auto, log := u.log ++ [.noop key o.epochs o.txHash] }
  | .failedRetryable => { auto := auto, log := u.log ++ [.transient key o.detail] }
  | .failedTerminal =>
    { auto := match o.lastEpoch with
        | some epoch => auto.recordTerminal key epoch now s.terminalCooldownSec
        | none => auto
      log := u.log ++ [.terminal key o.epochs o.detail] }
  | _ => { u with auto := auto }

end AutoLoop

section

variable [External]

/-! ## One cycle of the loop -/

/-- Why nothing is claimable, as it is recorded. -/
def nothingReason (s : Settings) (beneficiary : String) (claimType : Int) : Py String := do
  match ← attempt (classifyClaimFrontier s beneficiary claimType) with
  | .ok frontier =>
    return "nothing-claimable: " ++ "; ".intercalate (frontier.map fun er => s!"{er.1}:{er.2}")
  | .error (.rpcError _) => return "nothing-claimable"
  | .error e => throw e

/-- What a pass does with the claims it found. -/
def streamClaims (s : Settings) (now : ℚ) (claimType : Int) (beneficiary : String)
    (claims : List RewardClaimWithProof) : StAct sig Exc AutoLoop Unit := do
  let key := streamKey s.network claimType beneficiary
  match (epochsOf claims).getLast? with
  | none =>
    let reason ← lift (nothingReason s beneficiary claimType)
    modify (AutoLoop.attempt key now reason)
  | some last =>
    let u ← get
    if u.auto.inCooldown key last now then modify (AutoLoop.cool key now last)
    else
      let o ← lift (submitClaims s claimType beneficiary claims true 600 none true)
      modify (AutoLoop.record s key now claims o)

/-- The body of the loop over the streams. -/
def streamPass (s : Settings) (now : ℚ) (claimType : Int) (beneficiary : String) :
    StAct sig Exc AutoLoop Unit := do
  let key := streamKey s.network claimType beneficiary
  match ← attemptOn (lift (collectRewardClaims s beneficiary claimType none)) with
  | .error (.rpcError msg) => modify (AutoLoop.unread key now msg)
  | .error e => throw e
  | .ok claims =>
    modify (AutoLoop.observe key (epochsOf claims) now)
    streamClaims s now claimType beneficiary claims

def streamPasses (s : Settings) (now : ℚ) : List (Int × String) → StAct sig Exc AutoLoop Unit
  | [] => return ()
  | (claimType, beneficiary) :: pairs => do
    streamPass s now claimType beneficiary
    streamPasses s now pairs

omit [External] in
/-- Build the report; the evaluation prunes the cooldowns that expired. -/
def autoReport (s : Settings) (interval : Int) (reportNow : ℚ) :
    StAct sig Exc AutoLoop StateReport := do
  let u ← get
  modify fun u => { u with auto := u.auto.pruned reportNow }
  return buildReport u.auto s.network interval s.staleAfterSec reportNow

/-- One cycle of `auto`. -/
def autoCycle (s : Settings) (pairs : List (Int × String)) (interval : Int) (now reportNow : ℚ) :
    StAct sig Exc AutoLoop StateReport := do
  streamPasses s now pairs
  autoReport s interval reportNow

end

/-! ## What a pass does -/

/-- The state after what follows the discovery. -/
inductive Acted (s : Settings) (key : String) (now : ℚ) (claims : List RewardClaimWithProof)
    (u : AutoLoop) : AutoLoop → Prop
  | attempted (outcome : String) : Acted s key now claims u (u.attempt key now outcome)
  | cooled (last : Int) : Acted s key now claims u (u.cool key now last)
  | recorded {o : ClaimOutcome} (hlast : o.lastEpoch = o.epochs.getLast?) :
      Acted s key now claims u (u.record s key now claims o)
  | raised : Acted s key now claims u u

/-- The state after a pass, with the epochs its discovery found. -/
inductive Passed (s : Settings) (key : String) (now : ℚ) (u : AutoLoop) :
    Option (List Int) → AutoLoop → Prop
  | unread (msg : String) : Passed s key now u none (u.unread key now msg)
  | raised : Passed s key now u none u
  | found {claims : List RewardClaimWithProof} {u' : AutoLoop}
      (h : Acted s key now claims (u.observe key (epochsOf claims) now) u') :
      Passed s key now u (some (epochsOf claims)) u'

/-- The lines say that a claim up to the epoch ended terminally. -/
def TerminalAt (lines : List AutoLine) (epoch : Int) : Prop :=
  ∃ key epochs detail, .terminal key epochs detail ∈ lines ∧ epochs.getLast? = some epoch

def AutoLine.claimed : AutoLine → List Int
  | .confirmed _ epochs => epochs
  | _ => []

section

variable {s : Settings} {key : String} {now : ℚ} {claims : List RewardClaimWithProof}
  {u u' : AutoLoop}

theorem Acted.firstSeen (h : Acted s key now claims u u') (key' : String) :
    (u'.auto.s key').firstSeen = (u.auto.s key').firstSeen := by
  cases h with
  | attempted outcome => simp [AutoLoop.attempt]
  | cooled last => simp [AutoLoop.cool]
  | @recorded o hlast =>
    unfold AutoLoop.record
    split
    case h_5 =>
      dsimp only
      split <;> simp
    all_goals simp
  | raised => rfl

/-- What is logged after the discovery claims nothing; only a terminal outcome sets a cooldown. -/
theorem Acted.lines (h : Acted s key now claims u u') : ∃ ls, u'.log = u.log ++ ls ∧
    (∀ l ∈ ls, l.claimed = []) ∧
    ∀ key' e, ¬ (key = key' ∧ TerminalAt ls e) →
      (u'.auto.s key').cooldownUntil.get? e = (u.auto.s key').cooldownUntil.get? e := by
  cases h with
  | attempted outcome => exact ⟨[], by simp [AutoLoop.attempt], by simp, by simp [AutoLoop.attempt]⟩
  | cooled last => exact ⟨_, rfl, by simp [AutoLine.claimed], by simp [AutoLoop.cool]⟩
  | @recorded o hlast =>
    unfold AutoLoop.record
    split
    case h_5 =>
      refine ⟨_, rfl, by simp [AutoLine.claimed], fun key' e he => ?_⟩
      dsimp only
      split
      · rename_i epoch hepoch
        rw [AutoState.cooldown_recordTerminal, if_neg, AutoState.cooldownUntil_recordAttempt]
        rintro ⟨rfl, rfl⟩
        exact he ⟨rfl, key, o.epochs, o.detail, List.mem_singleton_self _, hlast ▸ hepoch⟩
      · simp
    case h_6 => exact ⟨[], (List.append_nil _).symm, by simp, by simp⟩
    all_goals exact ⟨_, rfl, by simp [AutoLine.claimed], by simp⟩
  | raised => exact ⟨[], (List.append_nil _).symm, by simp, fun _ _ _ => rfl⟩

theorem AutoLoop.auto_observe {es : List Int} (key' : String) :
    ((u.observe key es now).auto.s key').firstSeen =
        ((u.auto.observe key es now).s key').firstSeen ∧
      ((u.observe key es now).auto.s key').cooldownUntil =
        ((u.auto.observe key es now).s key').cooldownUntil := by
  unfold AutoLoop.observe
  dsimp only
  split
  · exact ⟨rfl, rfl⟩
  · simp

/-- The epochs that are gone are the ones logged as claimed. -/
theorem AutoLoop.log_observe {es : List Int} : ∃ ls, (u.observe key es now).log = u.log ++ ls ∧
    ls.flatMap AutoLine.claimed = (u.auto.s key).gone es now ∧ ∀ e, ¬ TerminalAt ls e := by
  unfold AutoLoop.observe
  dsimp only
  split
  · rename_i hnone
    refine ⟨[], (List.append_nil _).symm, (List.isEmpty_iff.mp hnone).symm, fun e => ?_⟩
    rintro ⟨_, _, _, hmem, _⟩
    cases hmem
  · refine ⟨_, rfl, by simp [AutoLine.claimed], fun e => ?_⟩
    rintro ⟨_, _, _, hmem, _⟩
    cases List.mem_singleton.mp hmem

end

/-! ### The outcome of a submission -/

section

variable [External]

/-- The last epoch of an outcome is the last of its epochs. -/
def EndsAtLast (r : Except Exc ClaimOutcome) : Prop :=
  ∀ o, r = .ok o → o.lastEpoch = o.epochs.getLast?

omit [External] in
theorem endsAtLast_ok {o : ClaimOutcome} (h : o.lastEpoch = o.epochs.getLast?) :
    EndsAtLast (.ok o) := by
  intro o' ho
  rw [← Except.ok.inj ho]
  exact h

omit [External] in
theorem endsAtLast_error {e : Exc} : EndsAtLast (.error e) := fun _ ho => by cases ho

omit [External] in
theorem wp_broadcastClaim_last {s : Settings} {wt : Nat} {resp : SignTransactionResponse}
    {out : String → OutcomeStatus → String → ClaimOutcome} {h : Trace}
    (hout : ∀ x st d, EndsAtLast (.ok (out x st d))) :
    Wp (broadcastClaim s wt resp out) (fun r _ => EndsAtLast r) h := by
  have herr : ∀ e (_ : Trace), EndsAtLast (.error e) := fun _ _ => endsAtLast_error
  unfold broadcastClaim broadcastSigned
  refine wp_attempt_any fun x h' => ?_
  split
  · refine wp_bind_any (fun _ h' => ?_) herr
    split
    · exact wp_pure.mpr (hout _ _ _)
    · exact wp_pure.mpr (hout _ _ _)
  · exact wp_throw.mpr endsAtLast_error
  · refine wp_bind_any (fun _ h' => ?_) herr
    refine wp_bind_any (fun receipt h' => ?_) herr
    split
    · exact wp_pure.mpr (hout _ _ _)
    · unfold confirmClaim
      refine wp_bind_any (fun _ h' => ?_) herr
      refine wp_bind_any (fun _ h' => ?_) herr
      refine wp_bind_any (fun _ h' => ?_) herr
      split
      · exact wp_pure.mpr (hout _ _ _)
      · refine wp_bind_any (fun effect h' => ?_) herr
        split
        · exact wp_pure.mpr (hout _ _ _)
        · exact wp_pure.mpr (hout _ _ _)

theorem wp_submitClaims_last {s : Settings} {ct : Int} {b : String}
    {claims : List RewardClaimWithProof} {wait : Bool} {wt : Nat} {retry : Option String}
    {hasRpc : Bool} {h : Trace} :
    Wp (submitClaims s ct b claims wait wt retry hasRpc) (fun r _ => EndsAtLast r) h := by
  have herr : ∀ e (_ : Trace), EndsAtLast (.error e) := fun _ _ => endsAtLast_error
  unfold submitClaims
  refine wp_bind_any (fun ct' h' => ?_) herr
  dsimp only
  split
  · exact wp_pure.mpr (endsAtLast_ok rfl)
  split
  · exact wp_pure.mpr (endsAtLast_ok rfl)
  split
  · exact wp_pure.mpr (endsAtLast_ok rfl)
  rename_i lastEpoch hlast
  refine wp_bind_any (fun data h' => ?_) herr
  refine wp_bind_any (fun fees h' => ?_) herr
  split
  · exact wp_pure.mpr (endsAtLast_ok hlast.symm)
  refine wp_attempt_any fun x h' => ?_
  split
  · exact wp_pure.mpr (endsAtLast_ok hlast.symm)
  · exact wp_pure.mpr (endsAtLast_ok hlast.symm)
  · exact wp_throw.mpr endsAtLast_error
  split
  · exact wp_pure.mpr (endsAtLast_ok hlast.symm)
  split
  · exact wp_pure.mpr (endsAtLast_ok hlast.symm)
  · exact wp_broadcastClaim_last fun _ _ _ => endsAtLast_ok hlast.symm

/-! ### The pass and the cycle -/

variable {s : Settings} {now : ℚ} {ct : Int} {b : String} {u u' : AutoLoop}

theorem streamClaims_acted {claims : List RewardClaimWithProof} {t : Trace} {r : Except Exc Unit}
    (h : RunsOn (streamClaims s now ct b claims) u t r u') :
    Acted s (streamKey s.network ct b) now claims u u' := by
  unfold streamClaims at h
  dsimp only at h
  split at h
  · rcases runsOn_lift_bind.mp h with ⟨reason, t₁, t₂, rfl, h₁, h₂⟩ | ⟨x, h₁, rfl, rfl⟩
    · obtain ⟨-, -, rfl⟩ := runsOn_modify.mp h₂
      exact .attempted reason
    · exact .raised
  · rename_i last hlast
    rw [runsOn_get_bind] at h
    split at h
    · obtain ⟨-, -, rfl⟩ := runsOn_modify.mp h
      exact .cooled last
    · rcases runsOn_lift_bind.mp h with ⟨o, t₁, t₂, rfl, h₁, h₂⟩ | ⟨x, h₁, rfl, rfl⟩
      · obtain ⟨-, -, rfl⟩ := runsOn_modify.mp h₂
        exact .recorded (wp_submitClaims_last (h := []) _ _ h₁ o rfl)
      · exact .raised

/-- The epochs the discovery found, if it ended without an exception. -/
def foundOf : Except Exc (List RewardClaimWithProof) → Option (List Int)
  | .ok claims => some (epochsOf claims)
  | .error _ => none

/-- A pass: the discovery first, with what it found. -/
theorem streamPass_cases {t : Trace} {r : Except Exc Unit}
    (h : RunsOn (streamPass s now ct b) u t r u') :
    ∃ x t₁ t₂, t = t₁ ++ t₂ ∧ Runs (collectRewardClaims s b ct none) t₁ x ∧
      Passed s (streamKey s.network ct b) now u (foundOf x) u' := by
  unfold streamPass at h
  dsimp only at h
  obtain ⟨x, t₁, t₂, u₁, rfl, hlift, hrest⟩ := runsOn_attempt_bind.mp h
  obtain ⟨hdisc, rfl⟩ := runsOn_lift.mp hlift
  refine ⟨x, t₁, t₂, rfl, hdisc, ?_⟩
  split at hrest
  · obtain ⟨-, -, rfl⟩ := runsOn_modify.mp hrest
    exact .unread _
  · obtain ⟨-, -, rfl⟩ := runsOn_throw.mp hrest
    exact .raised
  · rw [runsOn_modify_bind] at hrest
    exact .found (streamClaims_acted hrest)

end

end Clif
