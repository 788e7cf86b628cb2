import Clif.ClaimSettled
import Clif.Delivery
import Clif.Effect.Interleave
import Clif.Effect.Run
import Clif.Gates

/-!
# Stranded — the epochs that a claim of a later epoch passes

A mined claim moves the next claimable epoch of its beneficiary behind the last epoch it holds, for
every claim type.  The calls of `run_claim` and the cycles take turns with the chain;
`noneStranded_iff` says which mined claims pass an epoch that was never claimed.
-/

namespace Clif

open Effect

/-! ## What a call collects -/

/-- The reward files of a trace, each with the rewards hash read right after it. -/
def filesRead : Trace → List (RewardsData × String)
  | [] => []
  | e :: t =>
    match fileOf e, t.head?.bind hashOf with
    | some (some d), some root => (d, root) :: filesRead t
    | _, _ => filesRead t

theorem filesRead_append {t₁ t₂ : Trace} (h : ∀ e ∈ t₁, fileOf e = none) :
    filesRead (t₁ ++ t₂) = filesRead t₂ := by
  induction t₁ with
  | nil => rfl
  | cons e t₁ ih =>
    obtain ⟨he, h₁⟩ := List.forall_mem_cons.mp h
    rw [List.cons_append, filesRead, he]
    exact ih h₁

theorem filesRead_quiet {t : Trace} (h : ∀ e ∈ t, fileOf e = none) : filesRead t = [] := by
  have happ := @filesRead_append t [] h
  rwa [List.append_nil] at happ

theorem emits_epochsToCollect_noFile {s : Settings} {b : String} (only : Option Int) :
    Emits (epochsToCollect s b only) fun e => fileOf e = none := by
  cases only with
  | some epoch => exact emits_epochsToCollect_file
  | none => exact emits_claimableEpochIds_file

theorem emits_preflight_file {s : Settings} {b : String} (only : Option Int) :
    Emits (preflight s b only) fun e => fileOf e = none := by
  cases only with
  | none => exact emits_pure _
  | some epoch => exact emits_unclaimableReason_file

section

variable [External]

/-- The claim of the stream in a file, if its root is on the chain and the proof verifies. -/
def heldClaim (b : String) (ct : Int) (f : RewardsData × String) : Option RewardClaimWithProof :=
  if Py.lower f.1.merkleRoot != Py.lower f.2 then none
  else (f.1.entryFor b ct).bind fun c => (provenClaim f.1.merkleRoot c).toOption.join

/-- The claims of the stream in the files of a trace. -/
def heldClaims (b : String) (ct : Int) (t : Trace) : List RewardClaimWithProof :=
  (filesRead t).filterMap (heldClaim b ct)

/-- The epochs in which the files of a trace have a provable entry of the stream. -/
def entriesRead (b : String) (ct : Int) (t : Trace) : List Int :=
  (heldClaims b ct t).map fun c => c.body.rewardEpochId

variable {s : Settings} {b : String} {ct : Int}

theorem heldClaim_stream {f : RewardsData × String} {claim : RewardClaimWithProof}
    (h : heldClaim b ct f = some claim) :
    Py.lower claim.body.beneficiary = Py.lower b ∧ claim.body.claimType = ct := by
  unfold heldClaim at h
  split at h
  · cases h
  · obtain ⟨c, hc, hproof⟩ := Option.bind_eq_some_iff.mp h
    have hfor : c.isFor b ct = true := List.find?_some hc
    simp only [RawRewardClaim.isFor, Bool.and_eq_true, beq_iff_eq] at hfor
    have hproven : provenClaim f.1.merkleRoot c = .ok (some claim) := by
      cases hp : provenClaim f.1.merkleRoot c with
      | error e =>
        rw [hp] at hproof
        cases hproof
      | ok x =>
        rw [hp] at hproof
        exact congrArg _ hproof
    obtain ⟨hben, htype, -⟩ := provenClaim_some hproven
    exact ⟨by rw [hben, hfor.1], by rw [htype, hfor.2]⟩

/-- What `reward_claim_for` returns is what the file it read holds. -/
theorem rewardClaimFor_held {epoch : Int} {t : Trace} {x : Option RewardClaimWithProof}
    (h : Runs (rewardClaimFor s epoch b ct) t (.ok x)) (t' : Trace) :
    heldClaims b ct (t ++ t') = x.toList ++ heldClaims b ct t' := by
  obtain ⟨f, t₁, rfl, h₁⟩ := runs_ask_bind.mp h
  cases f with
  | none =>
    obtain ⟨rfl, hx⟩ := runs_pure.mp h₁
    cases hx
    rfl
  | some d =>
    obtain ⟨a, t₂, rfl, hr⟩ := runs_rpc_bind.mp h₁
    rcases hr with ⟨root, hroot, h₂⟩ | ⟨e, -, -, he⟩
    swap
    · cases he
    rw [rpcResult_eq_ok hroot]
    have hheld : t₂ = [] ∧ heldClaim b ct (d, root) = x := by
      unfold heldClaim
      split at h₂
      · rename_i hne
        obtain ⟨rfl, hx⟩ := runs_pure.mp h₂
        cases hx
        exact ⟨rfl, if_pos hne⟩
      · rename_i heq
        rw [if_neg heq]
        split at h₂
        · rename_i hnone
          obtain ⟨rfl, hx⟩ := runs_pure.mp h₂
          cases hx
          exact ⟨rfl, by rw [hnone]; rfl⟩
        · rename_i c hc
          obtain ⟨rfl, hx⟩ := runs_fromExcept.mp h₂
          refine ⟨rfl, ?_⟩
          rw [hc, Option.bind_some, ← hx]
          rfl
    obtain ⟨rfl, rfl⟩ := hheld
    show ((d, root) :: filesRead t').filterMap (heldClaim b ct) = _
    rw [List.filterMap_cons]
    cases heldClaim b ct (d, root) <;> rfl

theorem claimsOf_held : ∀ {epochs : List Int} {t : Trace} {claims : List RewardClaimWithProof},
    Runs (claimsOf s b ct epochs) t (.ok claims) → ∀ t',
      heldClaims b ct (t ++ t') = claims ++ heldClaims b ct t'
  | [], t, claims, h, t' => by
    obtain ⟨rfl, hx⟩ := runs_pure.mp h
    cases hx
    rfl
  | epoch :: epochs, t, claims, h, t' => by
    obtain ⟨x, t₁, t₂, rfl, h₁, h₂⟩ := runs_bind_eq_ok h
    obtain ⟨xs, t₃, t₄, rfl, h₃, h₄⟩ := runs_bind_eq_ok h₂
    obtain ⟨rfl, hx⟩ := runs_pure.mp h₄
    cases hx
    rw [List.append_nil, List.append_assoc, rewardClaimFor_held h₁, claimsOf_held h₃,
      List.append_assoc]

/-- `collect_reward_claims` returns what the files it read hold. -/
theorem collectRewardClaims_held {only : Option Int} {t : Trace}
    {claims : List RewardClaimWithProof}
    (h : Runs (collectRewardClaims s b ct only) t (.ok claims)) (t' : Trace) :
    heldClaims b ct (t ++ t') = claims ++ heldClaims b ct t' := by
  obtain ⟨epochs, t₁, t₂, rfl, h₁, h₂⟩ := runs_bind_eq_ok h
  have hquiet : ∀ e ∈ t₁, fileOf e = none := emits_epochsToCollect_noFile only t₁ _ h₁
  rw [List.append_assoc, heldClaims, filesRead_append hquiet]
  exact claimsOf_held h₂ t'

end

/-! ## What a call submits -/

/-- A call of `run_claim`: its stream, and the epoch it was asked for. -/
structure StreamCall where
  claimType : Int
  beneficiary : String
  only : Option Int

section

variable [External] (s : Settings) (call : StreamCall)

/-- The exchanges `leg` of a call up to a broadcast that the node accepted: the claims were
collected, and signed for with the last of their epochs. -/
inductive Submitted (claims : List RewardClaimWithProof) : Trace → Prop where
  | sent {t₁ t₂ t₃ : Trace} {last : RewardClaimWithProof} {data key h : String} {body : TxBody}
      {resp : SignTransactionResponse} (hpre : ∀ e ∈ t₁, fileOf e = none)
      (hcollect : Runs (collectRewardClaims s call.beneficiary call.claimType call.only) t₂
        (.ok claims))
      (hpost : ∀ e ∈ t₃, fileOf e = none) (hlast : claims.getLast? = some last)
      (hdata : buildClaimCalldata call.beneficiary (s.claimRecipientAddress.getD "")
        last.body.rewardEpochId s.wrapRewards claims = .ok data)
      (hbody : body.data = data)
      (hsign : (⟨.fwd s.fwdCallerToken (.signTransaction body key), .ok resp⟩ : Event sig) ∈ t₃)
      (hsend : (⟨.rpc (.sendRawTransaction resp.signedRawTx), .result h⟩ : Event sig) ∈ t₃) :
      Submitted claims (t₁ ++ (t₂ ++ t₃))

variable {s call}

/-- The submitted claims are those of the files the call read. -/
theorem Submitted.held {claims : List RewardClaimWithProof} {leg : Trace}
    (h : Submitted s call claims leg) :
    heldClaims call.beneficiary call.claimType leg = claims := by
  cases h with
  | sent hpre hcollect hpost =>
    rw [heldClaims, filesRead_append hpre]
    refine (collectRewardClaims_held hcollect _).trans ?_
    rw [heldClaims, filesRead_quiet hpost, List.filterMap_nil, List.append_nil]

end

/-! ### The broadcasts of a call -/

section

variable [External] {s : Settings}

omit [External] in
theorem allOf_fileOf {k : OpKind} (hk : k ≠ .view) : AllOf k fun e => fileOf e = none := by
  intro e he
  obtain ⟨op, ans⟩ := e
  cases op with
  | readRewardCalculationData network epoch => exact absurd he.symm hk
  | _ => rfl

omit [External] in
/-- What is broadcast is the blob that `fwd` signed. -/
theorem answeredClaim_sends {wait : Bool} {wt : Nat} {hasRpc : Bool}
    {out : OutcomeStatus → String → ClaimOutcome} {x : Except Exc SignTransactionResponse}
    {t : Trace} {r : Except Exc ClaimOutcome} (hout : ∀ st d, (out st d).status = st)
    (h : Runs (answeredClaim s wait wt hasRpc out x) t r) {raw : String} {reply : Reply String}
    (he : (⟨.rpc (.sendRawTransaction raw), reply⟩ : Event sig) ∈ t) :
    ∃ resp, x = .ok resp ∧ resp.signedRawTx = raw := by
  rcases answeredClaim_cases h with rfl | ⟨resp, hx, hb⟩
  · cases he
  · have hsome : ∀ st d, ClaimOutcome.sent (signedOut out resp resp.hash st d) = some st :=
      fun st d => congrArg some (hout st d)
    rw [broadcastClaim_eq] at hb
    refine ⟨resp, hx, (broadcastSigned_delivery hsome hb).sends ?_ he⟩
    exact emits_followClaim (AllOf.ne (by decide)) (AllOf.ne (by decide)) wt resp _

/-- A broadcast of `submit_claims` comes after a signed request for the claims it was given. -/
theorem submitClaims_sends {ct : Int} {b : String} {claims : List RewardClaimWithProof}
    {wait : Bool} {wt : Nat} {retry : Option String} {hasRpc : Bool} {t t' : Trace}
    {r : Except Exc ClaimOutcome}
    (h : Runs (submitClaims s ct b claims wait wt retry hasRpc) (t ++ t') r) {raw : String}
    {reply : Reply String} (he : (⟨.rpc (.sendRawTransaction raw), reply⟩ : Event sig) ∈ t) :
    ∃ last data body key resp, claims.getLast? = some last ∧
      buildClaimCalldata b (s.claimRecipientAddress.getD "") last.body.rewardEpochId
        s.wrapRewards claims = .ok data ∧
      body.data = data ∧
      (⟨.fwd s.fwdCallerToken (.signTransaction body key), .ok resp⟩ : Event sig) ∈ t ∧
      resp.signedRawTx = raw := by
  have hlate : ∀ {u : Trace}, (∀ e ∈ u, Early e) →
      (⟨.rpc (.sendRawTransaction raw), reply⟩ : Event sig) ∉ u := fun hu hmem =>
    (hu _ hmem).send rfl
  generalize hall : t ++ t' = u at h
  cases submitClaims_request h with
  | early hearly =>
    rw [← hall] at hearly
    exact absurd (List.mem_append_left _ he) (hlate hearly)
  | @asked pre u lastEpoch data fees out x _ hpre hlast hdata hout hans =>
    obtain ⟨last, hl, rfl⟩ := Option.map_eq_some_iff.mp (List.getLast?_map ▸ hlast)
    rcases List.append_eq_append_iff.mp hall with ⟨v, rfl, -⟩ | ⟨v, rfl, hv⟩
    · exact absurd (List.mem_append_left _ he) (hlate hpre)
    cases v with
    | nil =>
      rw [List.append_nil] at he
      exact absurd he (hlate hpre)
    | cons e' v =>
      obtain ⟨rfl, rfl⟩ := List.cons.inj hv
      have hrest : (⟨.rpc (.sendRawTransaction raw), reply⟩ : Event sig) ∈ v := by
        rcases List.mem_append.mp he with he | he
        · exact absurd he (hlate hpre)
        · rcases List.mem_cons.mp he with he | he
          · cases he
          · exact he
      obtain ⟨resp, rfl, hraw⟩ := answeredClaim_sends hout hans (List.mem_append_left _ hrest)
      exact ⟨last, data, _, _, resp, hl, hdata, rfl,
        List.mem_append_right _ (List.mem_cons_self ..), hraw⟩

/-- The exchanges of a call up to an accepted broadcast submit claims. -/
theorem begun_submitted {call : StreamCall} {wait : Bool} {wt : Nat} {retry : Option String}
    {leg : Trace} {raw txHash : String}
    (h : Begun (runClaim s call.claimType call.beneficiary call.only wait wt retry) leg)
    (he : (⟨.rpc (.sendRawTransaction raw), .result txHash⟩ : Event sig) ∈ leg) :
    ∃ claims, Submitted s call claims leg := by
  obtain ⟨t', r, hr⟩ := h
  have hquiet : AllOf .view fun e : Event sig => e.op.kind ≠ .send := AllOf.ne (by decide)
  generalize hall : leg ++ t' = u at hr
  have hu : (⟨.rpc (.sendRawTransaction raw), .result txHash⟩ : Event sig) ∈ u :=
    hall ▸ List.mem_append_left _ he
  obtain ⟨t₀, rfl, h₁⟩ := runs_enter_bind.mp hr
  rcases runs_fromExcept_bind.mp h₁ with ⟨ct, -, h₂⟩ | ⟨e, -, rfl, -⟩
  swap
  · simp at hu
  dsimp only at h₂
  obtain ⟨x, t₁, t₂, rfl, hpre, h₃⟩ := runs_attempt_bind.mp h₂
  have hunsent₁ : ∀ e ∈ t₁, e.op.kind ≠ .send := emits_preflight hquiet s _ _ t₁ x hpre
  have hfile₁ : ∀ e ∈ t₁, fileOf e = none := emits_preflight_file _ t₁ x hpre
  have hu₂ : (⟨.rpc (.sendRawTransaction raw), .result txHash⟩ : Event sig) ∈ t₂ := by
    rcases List.mem_cons.mp hu with hu | hu
    · cases hu
    · rcases List.mem_append.mp hu with hu | hu
      · exact absurd rfl (hunsent₁ _ hu)
      · exact hu
  have hended : t₂ ≠ [] := List.ne_nil_of_mem hu₂
  split at h₃
  · exact absurd (runs_pure.mp h₃).1 hended
  · exact absurd (runs_throw.mp h₃).1 hended
  · exact absurd (runs_pure.mp h₃).1 hended
  obtain ⟨y, t₃, t₄, rfl, hcollect, h₄⟩ := runs_attempt_bind.mp h₃
  have hunsent₃ : ∀ e ∈ t₃, e.op.kind ≠ .send :=
    emits_collectRewardClaims hquiet s _ _ _ t₃ y hcollect
  have hu₄ : (⟨.rpc (.sendRawTransaction raw), .result txHash⟩ : Event sig) ∈ t₄ := by
    rcases List.mem_append.mp hu₂ with hu | hu
    · exact absurd rfl (hunsent₃ _ hu)
    · exact hu
  have hended : t₄ ≠ [] := List.ne_nil_of_mem hu₄
  split at h₄
  · exact absurd (runs_pure.mp h₄).1 hended
  · exact absurd (runs_throw.mp h₄).1 hended
  · -- nothing was collected: at most the frontier is read
    split at h₄
    · exact absurd (runs_pure.mp h₄).1 hended
    obtain ⟨z, t₅, t₆, rfl, h₅, h₆⟩ := runs_attempt_bind.mp h₄
    have hunsent₅ : ∀ e ∈ t₅, e.op.kind ≠ .send :=
      emits_classifyClaimFrontier hquiet s _ _ t₅ z h₅
    have hnil : t₆ = [] := by
      split at h₆
      · exact (runs_pure.mp h₆).1
      · exact (runs_throw.mp h₆).1
      · exact (runs_pure.mp h₆).1
    rw [hnil, List.append_nil] at hu₄
    exact absurd rfl (hunsent₅ _ hu₄)
  · rename_i claims _
    refine ⟨claims, ?_⟩
    have hall' : leg ++ t' = (⟨.called (.runClaim call.claimType call.beneficiary call.only), ()⟩ ::
        t₁) ++ t₃ ++ t₄ := by
      rw [hall, List.cons_append, List.cons_append, List.append_assoc]
    have hlate : (⟨.rpc (.sendRawTransaction raw), .result txHash⟩ : Event sig) ∉
        (⟨.called (.runClaim call.claimType call.beneficiary call.only), ()⟩ :: t₁) ++ t₃ := by
      intro hmem
      rcases List.mem_append.mp hmem with hmem | hmem
      · rcases List.mem_cons.mp hmem with hmem | hmem
        · cases hmem
        · exact absurd rfl (hunsent₁ _ hmem)
      · exact absurd rfl (hunsent₃ _ hmem)
    rcases List.append_eq_append_iff.mp hall' with ⟨v, hv, -⟩ | ⟨v, rfl, rfl⟩
    · rw [hv] at hlate
      exact absurd (List.mem_append_left _ he) hlate
    have hev : (⟨.rpc (.sendRawTransaction raw), .result txHash⟩ : Event sig) ∈ v :=
      (List.mem_append.mp he).resolve_left hlate
    obtain ⟨last, data, body, key, resp, hlast, hdata, hbody, hsign, rfl⟩ :=
      submitClaims_sends h₄ hev
    have hfile : ∀ e ∈ v, fileOf e = none := fun e hv => emits_submitClaims
      (allOf_fileOf (by decide)) (allOf_fileOf (by decide)) (allOf_fileOf (by decide))
      (allOf_fileOf (by decide)) _ _ _ _ _ _ _ _ _ _ h₄ e (List.mem_append_left _ hv)
    rw [List.append_assoc]
    exact .sent (List.forall_mem_cons.mpr ⟨rfl, hfile₁⟩) hcollect hfile hlast hdata hbody hsign hev

end

/-! ## The chain and the callers -/

/-- Who calls `run_claim`: an operator, or a cycle of the epoch daemon. -/
inductive Caller where
  | claim (call : StreamCall) (wait : Bool) (waitTimeout : Nat) (retry : Option String)
  | cycle (a : DriveArgs) (lastDone : Option Int) (terminalCooldown : Int) (m : Mem)
      (st : AutoState)

/-- One move of a next claimable epoch. -/
structure Passage where
  /-- Moved by a claim of clif. -/
  own : Bool
  address : String
  lo : Int
  hi : Int

/-- The move passes the epoch. -/
def Passage.Passes (p : Passage) (address : String) (e : Int) : Prop :=
  p.address = address ∧ p.lo ≤ e ∧ e < p.hi

structure ClaimChain where
  /-- The next claimable epochs, by address in lower case. -/
  next : String → Int
  /-- What each caller has exchanged. -/
  parts : Nat → Trace := fun _ => []
  /-- The claims in the mined transactions of clif. -/
  mined : List RewardClaimWithProof := []
  passed : List Passage := []

/-- The next claimable epoch moves to `n`, or stays where it is if that is later. -/
def ClaimChain.advance (k : ClaimChain) (own : Bool) (address : String) (n : Int) : ClaimChain :=
  { k with
    next := Function.update k.next address (max (k.next address) n)
    passed := k.passed ++ [⟨own, address, k.next address, max (k.next address) n⟩] }

inductive ClaimMove where
  | exchange (i : Nat) (e : Event sig)
  /-- A claim of clif is mined; `leg` is what its call exchanged up to the broadcast. -/
  | mined (call : StreamCall) (leg : Trace) (claims : List RewardClaimWithProof)
  /-- A transaction that is none of clif's. -/
  | moved (address : String) (n : Int)

/-- The next claimable epoch that the node answered. -/
def nextReadOf : Event sig → Option (String × Int)
  | ⟨.rpc (.nextClaimableRewardEpochId _ b), .result n⟩ => some (b, n)
  | _ => none

section

variable [External]

/-- `t` is a run of the caller from its call to its end. -/
def Caller.Finishes (s : Settings) (t : Trace) : Caller → Prop
  | .claim call wait wt retry =>
    ∃ r, Runs (runClaim s call.claimType call.beneficiary call.only wait wt retry) t r
  | .cycle a lastDone cd m st =>
    a.settings = s ∧ a.Keyless ∧ ∃ r u, RunsOn (runCycle a lastDone cd) (m, st) t r u

/-- A run of the caller begins with `t`. -/
def Caller.Begins (s : Settings) (t : Trace) (c : Caller) : Prop := ∃ t', c.Finishes s (t ++ t')

/-! ### The calls of a caller -/

/-- Every mark of `run_claim` begins a call of it. -/
def Calls (s : Settings) (t : Trace) : Prop :=
  ∀ pre post ct b only, t = pre ++ ⟨.called (.runClaim ct b only), ()⟩ :: post →
    ∃ leg rest wait wt retry r, ⟨.called (.runClaim ct b only), ()⟩ :: post = leg ++ rest ∧
      Runs (runClaim s ct b only wait wt retry) leg r

variable {s : Settings} {t t₁ t₂ : Trace}

theorem Calls.append (h₁ : Calls s t₁) (h₂ : Calls s t₂) : Calls s (t₁ ++ t₂) := by
  intro pre post ct b only ht
  rcases List.append_eq_append_iff.mp ht with ⟨u, rfl, hu⟩ | ⟨u, rfl, hu⟩
  · exact h₂ u post ct b only hu
  · cases u with
    | nil => exact h₂ [] post ct b only hu.symm
    | cons e u =>
      obtain ⟨rfl, rfl⟩ := List.cons.inj hu
      obtain ⟨leg, rest, wait, wt, retry, r, hleg, hrun⟩ := h₁ pre u ct b only rfl
      refine ⟨leg, rest ++ t₂, wait, wt, retry, r, ?_, hrun⟩
      rw [← List.append_assoc, ← hleg]
      rfl

theorem calls_of_unmarked (h : ∀ e ∈ t, e.op.claimMark = none) : Calls s t := by
  intro pre post ct b only ht
  have hmark := h ⟨.called (.runClaim ct b only), ()⟩ (by simp [ht])
  cases hmark

theorem calls_runClaim {ct : Int} {b : String} {only : Option Int} {wait : Bool} {wt : Nat}
    {retry : Option String} {r : Except Exc ClaimOutcome}
    (h : Runs (runClaim s ct b only wait wt retry) t r) : Calls s t := by
  intro pre post ct' b' only' ht
  obtain ⟨t', heq, hnone⟩ := runClaim_marked (allOf_claimMark (by decide))
    (allOf_claimMark (by decide)) (allOf_claimMark (by decide)) (allOf_claimMark (by decide))
    (allOf_claimMark (by decide)) h
  rw [heq] at ht
  cases pre with
  | nil =>
    obtain ⟨hmark, rfl⟩ := List.cons.inj ht
    cases hmark
    exact ⟨t, [], wait, wt, retry, r, by rw [heq, List.append_nil], h⟩
  | cons e pre =>
    obtain ⟨-, rfl⟩ := List.cons.inj ht
    have hmark := hnone ⟨.called (.runClaim ct' b' only'), ()⟩ (by simp)
    cases hmark

theorem calls_claimStreams {epoch : Int} {claimers : List (Int × String)} {t : Trace}
    {r : Except Exc (List ClaimOutcome)} (h : Runs (claimStreams s epoch claimers) t r) :
    Calls s t := by
  induction claimers generalizing t r with
  | nil =>
    rw [(runs_pure.mp h).1]
    exact calls_of_unmarked (by simp)
  | cons cb rest ih =>
    unfold claimStreams at h
    rcases runs_bind.mp h with ⟨co, t₁, t₂, rfl, h₁, h₂⟩ | ⟨e, h₁, -⟩
    swap
    · exact calls_runClaim h₁
    refine (calls_runClaim h₁).append ?_
    rcases runs_bind.mp h₂ with ⟨cos, t₃, t₄, rfl, h₃, h₄⟩ | ⟨e, h₃, -⟩
    · rw [(runs_pure.mp h₄).1, List.append_nil]
      exact ih h₃
    · exact ih h₃

theorem calls_driveEpoch {a : DriveArgs} (ha : a.Keyless) {epoch : Int} {m m' : Mem}
    {r : Except Exc EpochObs} (h : RunsOn (driveEpoch a epoch) m t r m') :
    Calls a.settings t := by
  have hr : ∀ {k : OpKind}, k ≠ .entry → AllOf k fun e => e.op.claimMark = none := allOf_claimMark
  obtain ⟨t', rfl, h₁⟩ := runsOn_enter_bind.mp h
  refine @Calls.append _ _ [_] _ (calls_of_unmarked (by simp [Op.claimMark])) ?_
  rcases runsOn_lift_bind.mp h₁ with ⟨actions, t₁, t₂, rfl, hup, h₂⟩ | ⟨e, hup, -⟩
  swap
  · exact calls_of_unmarked (emits_uptimePhase (hr (by decide)) (hr (by decide)) (hr (by decide))
      (hr (by decide)) a epoch rfl _ _ hup)
  refine (calls_of_unmarked (emits_uptimePhase (hr (by decide)) (hr (by decide))
    (hr (by decide)) (hr (by decide)) a epoch rfl _ _ hup)).append ?_
  have hreward : EmitsOn (rewardPhase a epoch actions) fun e => e.op.claimMark = none := by
    refine emitsOn_rewardPhase (hr (by decide)) (hr (by decide)) (hr (by decide)) (hr (by decide))
      (hr (by decide)) a epoch actions rfl fun f hf => (ha f hf epoch).mono fun e he => ?_
    rcases he with hread | hop
    · exact hr (by decide) e hread
    · rw [hop]
      rfl
  rcases runsOn_bind.mp h₂ with ⟨x, t₃, t₄, m₁, rfl, hrew, h₃⟩ | ⟨e, hrew, -⟩
  swap
  · exact calls_of_unmarked (hreward _ _ _ _ hrew)
  refine (calls_of_unmarked (hreward _ _ _ _ hrew)).append ?_
  split at h₃
  · rw [(runsOn_pure.mp h₃).1]
    exact calls_of_unmarked (by simp)
  rcases runsOn_lift_bind.mp h₃ with ⟨cos, t₅, t₆, rfl, hcl, h₄⟩ | ⟨e, hcl, -⟩
  · rw [(runsOn_pure.mp h₄).1, List.append_nil]
    exact calls_claimStreams hcl
  · exact calls_claimStreams hcl

theorem calls_drives {a : DriveArgs} (ha : a.Keyless) {m m' : Mem}
    {ds : List (Int × Except Exc EpochObs)} (h : Drives (driveEpoch a) m ds t m') :
    Calls a.settings t := by
  induction h with
  | nil => exact calls_of_unmarked (by simp)
  | cons h _ ih => exact (calls_driveEpoch ha h).append ih

theorem Caller.Finishes.calls {c : Caller} (h : c.Finishes s t) : Calls s t := by
  cases c with
  | claim call wait wt retry =>
    obtain ⟨r, hr⟩ := h
    exact calls_runClaim hr
  | cycle a lastDone cd m st =>
    obtain ⟨rfl, ha, r, u, hr⟩ := h
    obtain ⟨ans, t', rfl, hcase⟩ := runCycleWith_cases hr
    refine @Calls.append _ _ [_] _ (calls_of_unmarked (by simp [Op.claimMark])) ?_
    rcases hcase with ⟨x, -, rfl, -⟩ | ⟨current, r₀, u₁, -, hloop, -⟩
    · exact calls_of_unmarked (by simp)
    · obtain ⟨-, ds, hds, -⟩ := cycleLoop_drives (nodup_pyRange _ _) hloop
      exact calls_drives ha hds

/-- A caller claims by calls of `run_claim` only: each of its broadcasts after a mark, up to the
next exchange that is none of the call, is submitted as `begun_submitted` says. -/
theorem Caller.Begins.call {c : Caller} {pre post : Trace} {ct : Int} {b : String}
    {only : Option Int}
    (h : c.Begins s (pre ++ ⟨.called (.runClaim ct b only), ()⟩ :: post)) :
    ∃ leg rest wait wt retry, ⟨.called (.runClaim ct b only), ()⟩ :: post = leg ++ rest ∧
      Begun (runClaim s ct b only wait wt retry) leg := by
  obtain ⟨t', hfin⟩ := h
  obtain ⟨leg, rest, wait, wt, retry, r, hleg, hrun⟩ := hfin.calls pre (post ++ t') ct b only
    (by simp)
  rw [← List.cons_append] at hleg
  rcases List.append_eq_append_iff.mp hleg with ⟨u, rfl, -⟩ | ⟨u, hu, -⟩
  · exact ⟨_, [], wait, wt, retry, (List.append_nil _).symm, u, r, hrun⟩
  · exact ⟨leg, u, wait, wt, retry, hu, [], r, by rwa [List.append_nil]⟩

/-! ### Steps -/

/-- What can happen: the node answers where the next claimable epoch is, and a mined claim moves it
behind the last epoch in its calldata. -/
inductive ClaimChain.Step (s : Settings) (callers : Nat → Caller) (k : ClaimChain) :
    ClaimMove → ClaimChain → Prop where
  | exchange {i : Nat} {e : Event sig} (hbegins : (callers i).Begins s (k.parts i ++ [e]))
      (hnext : ∀ b n, nextReadOf e = some (b, n) → n = k.next (Py.lower b)) :
      Step s callers k (.exchange i e)
        { k with parts := Function.update k.parts i (k.parts i ++ [e]) }
  | mined {i : Nat} {pre post leg : Trace} {call : StreamCall}
      {claims : List RewardClaimWithProof} {last : RewardClaimWithProof}
      (hpart : k.parts i = pre ++ (leg ++ post)) (hsub : Submitted s call claims leg)
      (hlast : claims.getLast? = some last) :
      Step s callers k (.mined call leg claims)
        { k.advance true (Py.lower call.beneficiary) (last.body.rewardEpochId + 1) with
          mined := k.mined ++ claims }
  | moved {address : String} {n : Int} :
      Step s callers k (.moved address n) (k.advance false address n)

end

/-! ## Stranded epochs -/

section

variable (verified : Int → Option RewardsData) (claimers : List (Int × String))

/-- The verified data of the epoch has an entry of the stream. -/
def HasEntry (e : Int) (b : String) (ct : Int) : Prop :=
  ∃ d c, verified e = some d ∧ d.entryFor b ct = some c

/-- The stream's claim of the epoch is among `mined`. -/
def Included (mined : List RewardClaimWithProof) (e : Int) (b : String) (ct : Int) : Prop :=
  ∃ claim ∈ mined, claim.body.rewardEpochId = e ∧
    Py.lower claim.body.beneficiary = Py.lower b ∧ claim.body.claimType = ct

/-- Where a claim of clif moved a next claimable epoch past `e`, every configured stream of the
beneficiary with an entry in `e` was claimed. -/
def NoneStranded (k : ClaimChain) : Prop :=
  ∀ p ∈ k.passed, p.own = true → ∀ e, p.lo ≤ e → e < p.hi → ∀ ct b, (ct, b) ∈ claimers →
    Py.lower b = p.address → HasEntry verified e b ct → Included k.mined e b ct

/-- A mined claim covers the epochs it passes: up to the last entry its call read, each configured
stream of the beneficiary with an entry was claimed before, or is the stream of the call, which read
the entry. -/
def Covers [External] (k : ClaimChain) : ClaimMove → Prop
  | .mined call leg _ =>
    ∀ last, (entriesRead call.beneficiary call.claimType leg).getLast? = some last →
      ∀ e, k.next (Py.lower call.beneficiary) ≤ e → e ≤ last → ∀ ct b, (ct, b) ∈ claimers →
        Py.lower b = Py.lower call.beneficiary → HasEntry verified e b ct →
          Included k.mined e b ct ∨
            (ct = call.claimType ∧ e ∈ entriesRead call.beneficiary call.claimType leg)
  | _ => True

end

section

variable [External] {s : Settings} {callers : Nat → Caller} {k k' : ClaimChain}

/-- The labels determine the states. -/
theorem ClaimChain.Step.deterministic (k : ClaimChain) (mv : ClaimMove) (k₁ k₂ : ClaimChain)
    (h₁ : ClaimChain.Step s callers k mv k₁) (h₂ : ClaimChain.Step s callers k mv k₂) :
    k₁ = k₂ := by
  cases h₁ with
  | exchange =>
    cases h₂
    rfl
  | mined _ _ hlast =>
    cases h₂ with
    | mined _ _ hlast' =>
      rw [hlast] at hlast'
      cases hlast'
      rfl
  | moved =>
    cases h₂
    rfl

/-- A claim of the calldata is in the stream of its call, in an epoch whose entry was read. -/
theorem Submitted.mem_entriesRead {call : StreamCall} {claims : List RewardClaimWithProof}
    {leg : Trace} (h : Submitted s call claims leg) {claim : RewardClaimWithProof}
    (hclaim : claim ∈ claims) :
    claim.body.rewardEpochId ∈ entriesRead call.beneficiary call.claimType leg ∧
      Py.lower claim.body.beneficiary = Py.lower call.beneficiary ∧
      claim.body.claimType = call.claimType := by
  rw [← h.held] at hclaim
  obtain ⟨f, -, hf⟩ := List.mem_filterMap.mp hclaim
  exact ⟨List.mem_map_of_mem hclaim, heldClaim_stream hf⟩

theorem Submitted.last_entryRead {call : StreamCall} {claims : List RewardClaimWithProof}
    {leg : Trace} {last : RewardClaimWithProof} (h : Submitted s call claims leg)
    (hlast : claims.getLast? = some last) :
    (entriesRead call.beneficiary call.claimType leg).getLast? =
      some last.body.rewardEpochId := by
  rw [entriesRead, h.held, List.getLast?_map, hlast]
  rfl

/-- An epoch whose entry the call read is in a claim of its calldata. -/
theorem Submitted.included {call : StreamCall} {claims mined : List RewardClaimWithProof}
    {leg : Trace} {e : Int} {b : String} (h : Submitted s call claims leg)
    (he : e ∈ entriesRead call.beneficiary call.claimType leg)
    (hb : Py.lower b = Py.lower call.beneficiary) :
    Included (mined ++ claims) e b call.claimType := by
  rw [entriesRead, h.held] at he
  obtain ⟨claim, hclaim, hepoch⟩ := List.mem_map.mp he
  obtain ⟨-, hben, htype⟩ := h.mem_entriesRead hclaim
  exact ⟨claim, List.mem_append_right _ hclaim, hepoch, hben.trans hb.symm, htype⟩

/-- A mined claim strands nothing exactly if it covers the epochs it passes. -/
theorem noneStranded_mined {verified : Int → Option RewardsData} {claimers : List (Int × String)}
    {call : StreamCall} {claims : List RewardClaimWithProof} {leg : Trace}
    {last : RewardClaimWithProof} (hsub : Submitted s call claims leg)
    (hlast : claims.getLast? = some last) (hk : NoneStranded verified claimers k) :
    NoneStranded verified claimers
        { k.advance true (Py.lower call.beneficiary) (last.body.rewardEpochId + 1) with
          mined := k.mined ++ claims } ↔
      Covers verified claimers k (.mined call leg claims) := by
  constructor
  · intro hnone last' hlast' e hlo hhi ct b hcb hb hentry
    rw [hsub.last_entryRead hlast] at hlast'
    cases hlast'
    have hlt : e < max (k.next (Py.lower call.beneficiary)) (last.body.rewardEpochId + 1) :=
      lt_max_of_lt_right (Int.lt_add_one_of_le hhi)
    obtain ⟨claim, hclaim, hepoch, hben, htype⟩ := hnone _ (List.mem_append_right _
      (List.mem_singleton_self _)) rfl e hlo hlt ct b hcb hb hentry
    rcases List.mem_append.mp hclaim with hclaim | hclaim
    · exact .inl ⟨claim, hclaim, hepoch, hben, htype⟩
    · obtain ⟨hread, -, htype'⟩ := hsub.mem_entriesRead hclaim
      exact .inr ⟨htype.symm.trans htype', hepoch ▸ hread⟩
  · intro hcovers p hp hown e hlo hhi ct b hcb hb hentry
    rcases List.mem_append.mp hp with hp | hp
    · obtain ⟨claim, hclaim, hstream⟩ := hk p hp hown e hlo hhi ct b hcb hb hentry
      exact ⟨claim, List.mem_append_left _ hclaim, hstream⟩
    · obtain rfl := List.mem_singleton.mp hp
      have hle : e ≤ last.body.rewardEpochId := by
        rcases lt_max_iff.mp hhi with hlt | hlt
        · exact absurd hlo (not_le.mpr hlt)
        · exact Int.lt_add_one_iff.mp hlt
      rcases hcovers _ (hsub.last_entryRead hlast) e hlo hle ct b hcb hb hentry with
        ⟨claim, hclaim, hstream⟩ | ⟨rfl, hread⟩
      · exact ⟨claim, List.mem_append_left _ hclaim, hstream⟩
      · exact hsub.included hread hb

/-- A step strands nothing exactly if it covers the epochs it passes. -/
theorem noneStranded_step {verified : Int → Option RewardsData} {claimers : List (Int × String)}
    {mv : ClaimMove} (h : ClaimChain.Step s callers k mv k')
    (hk : NoneStranded verified claimers k) :
    NoneStranded verified claimers k' ↔ Covers verified claimers k mv := by
  cases h with
  | exchange => exact iff_of_true hk trivial
  | mined hpart hsub hlast => exact noneStranded_mined hsub hlast hk
  | moved =>
    refine iff_of_true (fun p hp hown => ?_) trivial
    rcases List.mem_append.mp hp with hp | hp
    · exact hk p hp hown
    · obtain rfl := List.mem_singleton.mp hp
      cases hown

theorem ClaimChain.Step.passed_mono {mv : ClaimMove} (h : ClaimChain.Step s callers k mv k')
    {p : Passage} (hp : p ∈ k.passed) : p ∈ k'.passed := by
  cases h with
  | exchange => exact hp
  | mined => exact List.mem_append_left _ hp
  | moved => exact List.mem_append_left _ hp

omit [External] in
theorem ClaimChain.advance_passes {own : Bool} {a address : String} {n e : Int}
    (hlo : k.next address ≤ e) (hhi : e < (k.advance own a n).next address) :
    ∃ p ∈ (k.advance own a n).passed, p.Passes address e := by
  by_cases ha : address = a
  · subst ha
    have hlt : e < max (k.next address) n := by
      simpa [ClaimChain.advance] using hhi
    exact ⟨_, List.mem_append_right _ (List.mem_singleton_self _), rfl, hlo, hlt⟩
  · have hlt : e < k.next address := by
      simpa [ClaimChain.advance, Function.update_of_ne ha] using hhi
    omega

/-- A step records the epochs that it puts behind a next claimable epoch. -/
theorem ClaimChain.Step.passes {mv : ClaimMove} (h : ClaimChain.Step s callers k mv k')
    {address : String} {e : Int} (hlo : k.next address ≤ e) (hhi : e < k'.next address) :
    ∃ p ∈ k'.passed, p.Passes address e := by
  cases h with
  | exchange => exact absurd hlo (not_le.mpr hhi)
  | mined => exact ClaimChain.advance_passes hlo hhi
  | moved => exact ClaimChain.advance_passes hlo hhi

/-- What is claimed by now, and was not at the start, was passed on the way. -/
theorem passed_run {k₀ : ClaimChain} {es : List ClaimMove}
    (h : Run (ClaimChain.Step s callers) k₀ es k) (address : String) (e : Int)
    (hlo : k₀.next address ≤ e) (hhi : e < k.next address) :
    ∃ p ∈ k.passed, p.Passes address e := by
  refine Run.invariant
    (fun _ k => e < k.next address → ∃ p ∈ k.passed, p.Passes address e) ?_ ?_ h hhi
  · exact fun hlt => absurd hlo (not_le.mpr hlt)
  · intro es k₁ mv k₂ _ ih hstep hlt
    by_cases hnew : k₁.next address ≤ e
    · exact hstep.passes hnew hlt
    · obtain ⟨p, hp, hpasses⟩ := ih (not_le.mp hnew)
      exact ⟨p, hstep.passed_mono hp, hpasses⟩

/-- All along a run no epoch is stranded exactly if every mined claim covers the epochs it passes;
and what reads as claimed was passed by a claim of clif or by another transaction. -/
theorem noneStranded_iff {k₀ : ClaimChain} {es : List ClaimMove} (hstart : k₀.passed = [])
    (h : Run (ClaimChain.Step s callers) k₀ es k) (verified : Int → Option RewardsData)
    (claimers : List (Int × String)) :
    (Throughout (ClaimChain.Step s callers) k₀ (fun _ k => NoneStranded verified claimers k) es ↔
      EachStep (ClaimChain.Step s callers) k₀ (Covers verified claimers) es) ∧
    ∀ b e, k₀.next (Py.lower b) ≤ e → e < k.next (Py.lower b) →
      ∃ p ∈ k.passed, p.Passes (Py.lower b) e := by
  have h0 : NoneStranded verified claimers k₀ := by
    intro p hp
    rw [hstart] at hp
    cases hp
  refine ⟨?_, fun b e => passed_run h (Py.lower b) e⟩
  refine Run.throughout_iff (P := fun _ k => NoneStranded verified claimers k)
    ClaimChain.Step.deterministic h0 ?_ h
  exact fun es k₁ mv k₂ _ hstep hk => noneStranded_step hstep hk

end

/-! ### A claim of epoch 6 over an epoch 5 whose file was missing -/

/-- A reward file with one fee claim, whose leaf is the root. -/
def loneClaimFile (e : Int) (amount root : String) : RewardsData :=
  ⟨e, [⟨[], e, firstClaim.beneficiary, amount, 1⟩], root⟩

def fifthRoot : String := "0x8c9f8f4eb4b00dc237b8e7a98584ed5ac3f2c4b19a715134ec43cda654e7b844"

def sixthRoot : String := "0xd1b8d89b62f070b61b83f5cd987e35bca81d56a0da68bceac6f3b3ce3f5f713f"

/-- The data of the epochs 5 and 6. -/
def twoEpochData (e : Int) : Option RewardsData :=
  if e = 5 then some (loneClaimFile 5 "7" fifthRoot)
  else if e = 6 then some (loneClaimFile 6 "5" sixthRoot)
  else none

/-- Both epochs are claimable, and the file of epoch 5 cannot be fetched. -/
def missingFileWorld : (op : Op) → op.Ans
  | .rpc (.nextClaimableRewardEpochId _ _) => .result 5
  | .rpc (.rewardEpochIdRange _) => .result (0, 6)
  | .rpc (.rewardsHash _ e) => .result (if e = 5 then fifthRoot else sixthRoot)
  | .rpc (.sendRawTransaction _) => .result "0xaa"
  | .rpc (.getTransactionReceipt _) => .result none
  | .readRewardCalculationData _ e => if e = 5 then none else twoEpochData e
  | op => signingWorld op

/-- The calls that a cycle makes for the two epochs. -/
def feeCall (e : Int) : StreamCall := ⟨1, firstClaim.beneficiary, some e⟩

def feeCallers (i : Nat) : Caller := .claim (feeCall (5 + i)) true 600 none

def feeRun (i : Nat) : Trace × Except Exc ClaimOutcome :=
  exec missingFileWorld (@runClaim External.standard sampleSettings 1 firstClaim.beneficiary
    (some (5 + i)) true 600 none)

theorem feeRun_begins (i : Nat) :
    @Caller.Begins External.standard sampleSettings (feeRun i).1 (feeCallers i) :=
  ⟨[], (feeRun i).2, by rw [List.append_nil]; exact exec_runs _ _⟩

theorem feeRun_answered {i : Nat} {e : Event sig} (he : e ∈ (feeRun i).1) {b : String} {n : Int}
    (hread : nextReadOf e = some (b, n)) : n = 5 := by
  unfold feeRun at he
  have hans : e.ans = missingFileWorld e.op := Prog.exec_answers _ _ e he
  unfold nextReadOf at hread
  split at hread
  · cases hread
    cases hans
    rfl
  · cases hread

/-- A caller goes on for a while. -/
theorem exchanged_run [External] {s : Settings} {callers : Nat → Caller} {i : Nat} {t : Trace}
    {k : ClaimChain} (hbegins : (callers i).Begins s (k.parts i ++ t))
    (hnext : ∀ e ∈ t, ∀ b n, nextReadOf e = some (b, n) → n = k.next (Py.lower b)) :
    Run (ClaimChain.Step s callers) k (t.map (.exchange i))
      { k with parts := Function.update k.parts i (k.parts i ++ t) } := by
  induction t generalizing k with
  | nil =>
    rw [List.append_nil, Function.update_eq_self]
    exact .nil
  | cons e t ih =>
    obtain ⟨he, hrest⟩ := List.forall_mem_cons.mp hnext
    have hfirst : (callers i).Begins s (k.parts i ++ [e]) := by
      obtain ⟨t', hfin⟩ := hbegins
      exact ⟨t ++ t', by simpa using hfin⟩
    refine .cons (.exchange hfirst he) ?_
    have hparts : Function.update k.parts i (k.parts i ++ [e]) i ++ t = k.parts i ++ e :: t := by
      simp
    have hgo := @ih { k with parts := Function.update k.parts i (k.parts i ++ [e]) }
      (by rw [hparts]; exact hbegins) hrest
    simp only [hparts, Function.update_idem] at hgo
    exact hgo

def feeStart : ClaimChain where
  next _ := 5

def sixthClaim : RewardClaimWithProof := ⟨[], ⟨6, firstClaim.beneficiary, 5, 1⟩⟩

/-- Epoch 5 is tried, epoch 6 is claimed, and the claim is mined. -/
def feeMoves : List ClaimMove :=
  (feeRun 0).1.map (.exchange 0) ++ ((feeRun 1).1.map (.exchange 1) ++
    [.mined (feeCall 6) (feeRun 1).1 [sixthClaim]])

def bothTried : ClaimChain :=
  { feeStart with
    parts := Function.update (Function.update feeStart.parts 0 (feeRun 0).1) 1 (feeRun 1).1 }

/-- The chain after the moves. -/
def feeEnd : ClaimChain :=
  { bothTried.advance true (Py.lower firstClaim.beneficiary) 7 with mined := [sixthClaim] }

theorem sentOf_eq_some {e : Event sig} {h : String} (he : sentOf e = some h) :
    ∃ raw, e = ⟨.rpc (.sendRawTransaction raw), .result h⟩ := by
  unfold sentOf at he
  split at he
  · cases he
    exact ⟨_, rfl⟩
  · cases he

theorem sixth_submitted :
    @Submitted External.standard sampleSettings (feeCall 6) [sixthClaim] (feeRun 1).1 := by
  obtain ⟨hheld, hsent⟩ : @heldClaims External.standard firstClaim.beneficiary 1 (feeRun 1).1 =
      [sixthClaim] ∧ sentHash (feeRun 1).1 = some "0xaa" := by decide +kernel
  obtain ⟨e, he, hhash⟩ := List.exists_of_findSome?_eq_some hsent
  obtain ⟨raw, rfl⟩ := sentOf_eq_some hhash
  have hbegun : Begun (@runClaim External.standard sampleSettings 1 firstClaim.beneficiary
      (some 6) true 600 none) (feeRun 1).1 :=
    ⟨[], (feeRun 1).2, by rw [List.append_nil]; exact exec_runs _ _⟩
  obtain ⟨claims, hsub⟩ := @begun_submitted External.standard sampleSettings (feeCall 6) _ _ _ _ _ _
    hbegun he
  rw [← hheld]
  have hclaims := @Submitted.held External.standard _ _ _ _ hsub
  exact hclaims ▸ hsub

theorem feeMoves_run :
    Run (@ClaimChain.Step External.standard sampleSettings feeCallers) feeStart feeMoves
      feeEnd := by
  have hfirst := @exchanged_run External.standard sampleSettings feeCallers 0 (feeRun 0).1 feeStart
    (feeRun_begins 0) fun _ he _ _ hread => feeRun_answered he hread
  have hsecond := @exchanged_run External.standard sampleSettings feeCallers 1 (feeRun 1).1
    { feeStart with parts := Function.update feeStart.parts 0 (feeRun 0).1 }
    (feeRun_begins 1) fun _ he _ _ hread => feeRun_answered he hread
  have hmined : @ClaimChain.Step External.standard sampleSettings feeCallers bothTried
      (.mined (feeCall 6) (feeRun 1).1 [sixthClaim]) feeEnd :=
    @ClaimChain.Step.mined External.standard sampleSettings feeCallers bothTried 1 [] []
      (feeRun 1).1 (feeCall 6) [sixthClaim] sixthClaim (List.append_nil _).symm sixth_submitted rfl
  exact hfirst.append (hsecond.append (.single hmined))

/-- Epoch 5 reads as claimed once epoch 6 is, and its claim went out in no transaction. -/
theorem skippedEpoch_stranded :
    claimDone.contains .nothingClaimable = true ∧
    (feeRun 0).2.toOption.map (fun o => o.status) = some .nothingClaimable ∧
    Run (@ClaimChain.Step External.standard sampleSettings feeCallers) feeStart feeMoves feeEnd ∧
    5 < feeEnd.next (Py.lower firstClaim.beneficiary) ∧
    HasEntry twoEpochData 5 firstClaim.beneficiary 1 ∧
    ¬ Included feeEnd.mined 5 firstClaim.beneficiary 1 ∧
    ¬ NoneStranded twoEpochData [(1, firstClaim.beneficiary)] feeEnd := by
  have hstatus : (feeRun 0).2.toOption.map (fun o => o.status) = some .nothingClaimable := by
    decide +kernel
  have hentry : HasEntry twoEpochData 5 firstClaim.beneficiary 1 :=
    ⟨loneClaimFile 5 "7" fifthRoot, ⟨[], 5, firstClaim.beneficiary, "7", 1⟩, rfl, by decide +kernel⟩
  have hnot : ¬ Included feeEnd.mined 5 firstClaim.beneficiary 1 := by
    rintro ⟨claim, hclaim, hepoch, -⟩
    obtain rfl := List.mem_singleton.mp hclaim
    cases hepoch
  have hnext : feeEnd.next (Py.lower firstClaim.beneficiary) = 7 := by
    simp [feeEnd, bothTried, feeStart, ClaimChain.advance]
  refine ⟨by decide, hstatus, feeMoves_run, by rw [hnext]; decide, hentry, hnot, fun hnone => ?_⟩
  exact hnot (hnone _ (List.mem_append_right _ (List.mem_singleton_self _)) rfl 5 (le_refl _)
    (by decide) 1 firstClaim.beneficiary (by simp) rfl hentry)

theorem noneStranded_iff_skipped :
    (Throughout (@ClaimChain.Step External.standard sampleSettings feeCallers) feeStart
        (fun _ k => NoneStranded twoEpochData [(1, firstClaim.beneficiary)] k) feeMoves ↔
      EachStep (@ClaimChain.Step External.standard sampleSettings feeCallers) feeStart
        (@Covers twoEpochData [(1, firstClaim.beneficiary)] External.standard) feeMoves) ∧
    ∀ b e, feeStart.next (Py.lower b) ≤ e → e < feeEnd.next (Py.lower b) →
      ∃ p ∈ feeEnd.passed, p.Passes (Py.lower b) e :=
  @noneStranded_iff External.standard _ _ _ _ _ rfl feeMoves_run _ _

end Clif
