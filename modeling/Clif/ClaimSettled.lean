import Clif.Cycle

/-!
# ClaimSettled — what a done epoch leaves behind

`drive_epoch` reports an epoch done when every stream's `run_claim` ended in one of three outcomes.
The trace is cut into the calls of `run_claim`; `settled_iff_not_dropped` says in which of the runs
that end in done every stream was really settled: those without a stream that was dropped, for one
of the causes `Dropped` lists, before it was claimed.
-/

namespace Clif

open Effect

/-! ## The calls of `run_claim` in a trace -/

/-- The exchanges of one call of `run_claim`. -/
structure ClaimLeg where
  claimType : Int
  beneficiary : String
  trace : Trace

def ClaimLeg.stream (leg : ClaimLeg) : Int × String := (leg.claimType, leg.beneficiary)

def Op.claimMark : Op → Option (Int × String)
  | .called (.runClaim ct b _) => some (ct, b)
  | _ => none

/-- The trace up to the first mark, and the legs after it. -/
def cutLegs : Trace → Trace × List ClaimLeg
  | [] => ([], [])
  | e :: t =>
    match e.op.claimMark with
    | some cb => ([], ⟨cb.1, cb.2, (cutLegs t).1⟩ :: (cutLegs t).2)
    | none => (e :: (cutLegs t).1, (cutLegs t).2)

def claimLegs (t : Trace) : List ClaimLeg := (cutLegs t).2

theorem cutLegs_append {t₁ t₂ : Trace} (h : ∀ e ∈ t₁, e.op.claimMark = none) :
    cutLegs (t₁ ++ t₂) = (t₁ ++ (cutLegs t₂).1, (cutLegs t₂).2) := by
  induction t₁ with
  | nil => rfl
  | cons e t₁ ih =>
    obtain ⟨he, h₁⟩ := List.forall_mem_cons.mp h
    rw [List.cons_append, cutLegs, he, ih h₁]
    rfl

theorem allOf_claimMark {k : OpKind} (hk : k ≠ .entry) :
    AllOf k fun e => e.op.claimMark = none := by
  intro e he
  cases hop : e.op with
  | called c =>
    rw [hop] at he
    exact absurd he.symm hk
  | _ => rfl

/-! ## What a leg read -/

/-- The reward file an exchange read. -/
def fileOf : Event sig → Option (Option RewardsData)
  | ⟨.readRewardCalculationData _ _, f⟩ => some f
  | _ => none

/-- The rewards hash an exchange read. -/
def hashOf : Event sig → Option String
  | ⟨.rpc (.rewardsHash _ _), .result h⟩ => some h
  | _ => none

/-- The hash of a transaction the node accepted. -/
def sentOf : Event sig → Option String
  | ⟨.rpc (.sendRawTransaction _), .result h⟩ => some h
  | _ => none

/-- The first reward file read, with the rewards hash read right after it. -/
def fileRead : Trace → Option (Option RewardsData × Option String)
  | [] => none
  | e :: t =>
    match fileOf e with
    | some f => some (f, t.head?.bind hashOf)
    | none => fileRead t

/-- The first transaction the node accepted. -/
def sentHash (t : Trace) : Option String := t.findSome? sentOf

theorem fileRead_append {t₁ t₂ : Trace} (h : ∀ e ∈ t₁, fileOf e = none) :
    fileRead (t₁ ++ t₂) = fileRead t₂ := by
  induction t₁ with
  | nil => rfl
  | cons e t₁ ih =>
    obtain ⟨he, h₁⟩ := List.forall_mem_cons.mp h
    rw [List.cons_append, fileRead, he]
    exact ih h₁

theorem fileRead_eq_none {t : Trace} (h : ∀ e ∈ t, fileOf e = none) : fileRead t = none := by
  have := @fileRead_append t [] h
  rwa [List.append_nil] at this

theorem allOf_sentOf {k : OpKind} (hk : k ≠ .send) : AllOf k fun e => sentOf e = none := by
  rintro ⟨op, ans⟩ rfl
  cases op with
  | rpc o => cases o <;> first | rfl | exact absurd rfl hk
  | _ => rfl

theorem sentHash_append {t₁ t₂ : Trace} (h : ∀ e ∈ t₁, sentOf e = none) :
    sentHash (t₁ ++ t₂) = sentHash t₂ := by
  rw [sentHash, List.findSome?_append, List.findSome?_eq_none_iff.mpr h]
  rfl

section

variable (s : Settings) (epoch : Int)

/-- The node said that the beneficiary's next claimable epoch is a later one. -/
def ClaimedRead (beneficiary : String) (t : Trace) : Prop :=
  ∃ nxt, (⟨.rpc (.nextClaimableRewardEpochId s.net.rewardManager beneficiary), .result nxt⟩ :
    Event sig) ∈ t ∧ epoch < nxt

/-- The node said that the epoch is above the claimable range, or that it has no rewards hash. -/
def ShutRead (t : Trace) : Prop :=
  (∃ first last, (⟨.rpc (.rewardEpochIdRange s.net.rewardManager), .result (first, last)⟩ :
    Event sig) ∈ t ∧ last < epoch) ∨
  (⟨.rpc (.rewardsHash s.net.flareSystemsManager epoch), .result zeroBytes32⟩ : Event sig) ∈ t

/-- A file with the on-chain root was read. -/
def PublishedRead (d : RewardsData) (t : Trace) : Prop :=
  ∃ root, fileRead t = some (some d, some root) ∧ Py.lower d.merkleRoot = Py.lower root

/-- A receipt of the transaction with a log of the reward manager was read. -/
def LoggedRead (h : String) (t : Trace) : Prop :=
  ∃ receipt, (⟨.rpc (.getTransactionReceipt h), .result (some receipt)⟩ : Event sig) ∈ t ∧
    receipt.hasLogOf s.net.rewardManager = true

/-- A receipt of the transaction with status 1 was read. -/
def MinedRead (h : String) (t : Trace) : Prop :=
  ∃ receipt, (⟨.rpc (.getTransactionReceipt h), .result (some receipt)⟩ : Event sig) ∈ t ∧
    receiptInt receipt.status = .ok 1

end

section

variable [External] (s : Settings) (epoch : Int)

/-- The claim was put to `fwd` in a transaction that the node accepted under the hash `h`. -/
def SubmittedAs (beneficiary : String) (claim : RewardClaimWithProof) (h : String) (t : Trace) :
    Prop :=
  ∃ data body key resp, buildClaimCalldata beneficiary (s.claimRecipientAddress.getD "")
      claim.body.rewardEpochId s.wrapRewards [claim] = .ok data ∧
    body.data = data ∧
    (⟨.fwd s.fwdCallerToken (.signTransaction body key), .ok resp⟩ : Event sig) ∈ t ∧
    (⟨.rpc (.sendRawTransaction resp.signedRawTx), .result h⟩ : Event sig) ∈ t

/-- A claim of the stream for the epoch was mined and left a log of the reward manager. -/
def ClaimMined (leg : ClaimLeg) : Prop :=
  ∃ d c claim h, PublishedRead d leg.trace ∧
    d.entryFor leg.beneficiary leg.claimType = some c ∧ c.epochId = epoch ∧
    provenClaim d.merkleRoot c = .ok (some claim) ∧
    SubmittedAs s leg.beneficiary claim h leg.trace ∧ sentHash leg.trace = some h ∧
    MinedRead h leg.trace ∧ LoggedRead s h leg.trace

/-- The stream is settled: claimed on the chain, where `next` is the next claimable epoch of a
beneficiary; or without an entry in published reward data; or claimed by a mined transaction. -/
def Settled (next : String → Int) (leg : ClaimLeg) : Prop :=
  epoch < next leg.beneficiary ∨ ClaimedRead s epoch leg.beneficiary leg.trace ∨
    (∃ d, PublishedRead d leg.trace ∧ d.entryFor leg.beneficiary leg.claimType = none) ∨
    ClaimMined s epoch leg

/-- Why a leg can end in a done outcome without settling its stream. -/
inductive Dropped (leg : ClaimLeg) : Prop where
  /-- Out of the claimable range, or without a rewards hash: the data was never looked at. -/
  | shut (hf : fileRead leg.trace = none) (hs : ShutRead s epoch leg.trace)
  | unavailable {root : Option String} (hf : fileRead leg.trace = some (none, root))
  | rootMismatch {d : RewardsData} {root : String}
      (hf : fileRead leg.trace = some (some d, some root))
      (hne : Py.lower d.merkleRoot ≠ Py.lower root)
  | unproven {d : RewardsData} {c : RawRewardClaim} (hp : PublishedRead d leg.trace)
      (he : d.entryFor leg.beneficiary leg.claimType = some c)
      (hv : provenClaim d.merkleRoot c = .ok none)
  | otherEpoch {d : RewardsData} {c : RawRewardClaim} (hp : PublishedRead d leg.trace)
      (he : d.entryFor leg.beneficiary leg.claimType = some c) (hne : c.epochId ≠ epoch)
  /-- Mined, but no receipt that was read has the log. -/
  | unlogged {d : RewardsData} {c : RawRewardClaim} {h : String} (hp : PublishedRead d leg.trace)
      (he : d.entryFor leg.beneficiary leg.claimType = some c) (hs : sentHash leg.trace = some h)
      (hl : ¬ LoggedRead s h leg.trace)

variable {s epoch}

omit [External] in
theorem PublishedRead.unique {d d' : RewardsData} {t : Trace} (h : PublishedRead d t)
    (h' : PublishedRead d' t) : d = d' := by
  obtain ⟨root, hf, -⟩ := h
  obtain ⟨root', hf', -⟩ := h'
  rw [hf] at hf'
  cases hf'
  rfl

/-- A published file was not passed over. -/
theorem Dropped.of_published {leg : ClaimLeg} (h : Dropped s epoch leg) {d : RewardsData}
    (hp : PublishedRead d leg.trace) :
    ∃ c, d.entryFor leg.beneficiary leg.claimType = some c ∧
      (provenClaim d.merkleRoot c = .ok none ∨ c.epochId ≠ epoch ∨
        ∃ h, sentHash leg.trace = some h ∧ ¬ LoggedRead s h leg.trace) := by
  obtain ⟨root, hf, heq⟩ := hp
  cases h with
  | shut hf' hs =>
    rw [hf] at hf'
    cases hf'
  | unavailable hf' =>
    rw [hf] at hf'
    cases hf'
  | rootMismatch hf' hne =>
    rw [hf] at hf'
    cases hf'
    exact absurd heq hne
  | unproven hp' he hv =>
    rw [PublishedRead.unique ⟨root, hf, heq⟩ hp']
    exact ⟨_, he, Or.inl hv⟩
  | otherEpoch hp' he hne =>
    rw [PublishedRead.unique ⟨root, hf, heq⟩ hp']
    exact ⟨_, he, Or.inr (Or.inl hne)⟩
  | unlogged hp' he hs hl =>
    rw [PublishedRead.unique ⟨root, hf, heq⟩ hp']
    exact ⟨_, he, Or.inr (Or.inr ⟨_, hs, hl⟩)⟩

/-- A dropped stream is settled only by the chain. -/
theorem Settled.claimed_of_dropped {next : String → Int} {leg : ClaimLeg}
    (h : Settled s epoch next leg) (hd : Dropped s epoch leg) :
    epoch < next leg.beneficiary ∨ ClaimedRead s epoch leg.beneficiary leg.trace := by
  rcases h with h | h | ⟨d, hp, hnone⟩ | ⟨d, c, claim, h, hp, he, hepoch, hv, -, hsent, -, hlog⟩
  · exact Or.inl h
  · exact Or.inr h
  · obtain ⟨c, hc, -⟩ := hd.of_published hp
    rw [hnone] at hc
    cases hc
  · obtain ⟨c', hc', hcause⟩ := hd.of_published hp
    rw [he] at hc'
    cases hc'
    rcases hcause with hnone | hne | ⟨h', hsent', hl⟩
    · rw [hv] at hnone
      cases hnone
    · exact absurd hepoch hne
    · rw [hsent] at hsent'
      cases hsent'
      exact absurd hlog hl

end

/-! ## Discovery -/

theorem emits_unclaimableReason_file {s : Settings} {b : String} {epoch : Int} :
    Emits (unclaimableReason s b epoch) fun e => fileOf e = none := by
  unfold unclaimableReason signedInRange
  refine emits_bind (emits_rpc fun _ => rfl) fun nxt => ?_
  refine emits_bind (emits_rpc fun _ => rfl) fun range => ?_
  refine emits_bind ?_ fun signed => emits_pure _
  split
  · exact emits_bind (emits_rpc fun _ => rfl) fun h => emits_pure _
  · exact emits_pure _

/-- The pre-flight has a reason only for an epoch that is claimed, out of range or without a
hash. -/
theorem unclaimableReason_some {s : Settings} {b : String} {epoch : Int} {t : Trace}
    {reason : String} (h : Runs (unclaimableReason s b epoch) t (.ok (some reason))) :
    ClaimedRead s epoch b t ∨ ShutRead s epoch t := by
  obtain ⟨a, t₁, rfl, hr⟩ := runs_rpc_bind.mp h
  rcases hr with ⟨nxt, hn, h₁⟩ | ⟨e, -, -, he⟩
  swap
  · cases he
  obtain ⟨a₂, t₂, rfl, hr⟩ := runs_rpc_bind.mp h₁
  rcases hr with ⟨range, hrange, h₂⟩ | ⟨e, -, -, he⟩
  swap
  · cases he
  rw [rpcResult_eq_ok hn, rpcResult_eq_ok hrange]
  by_cases hclaimed : epoch < nxt
  · exact Or.inl ⟨nxt, List.mem_cons_self .., hclaimed⟩
  refine Or.inr ?_
  by_cases hlast : range.2 < epoch
  · exact Or.inl ⟨range.1, range.2, List.mem_cons_of_mem _ (List.mem_cons_self ..), hlast⟩
  refine Or.inr (List.mem_cons_of_mem _ (List.mem_cons_of_mem _ ?_))
  obtain ⟨signed, t₃, t₄, rfl, h₃, h₄⟩ := runs_bind_eq_ok h₂
  obtain ⟨rfl, hreason⟩ := runs_pure.mp h₄
  unfold signedInRange at h₃
  rw [if_pos (not_lt.mp hlast)] at h₃
  obtain ⟨a₃, t₅, rfl, hr⟩ := runs_rpc_bind.mp h₃
  rcases hr with ⟨hash, hhash, h₅⟩ | ⟨e, -, -, he⟩
  swap
  · cases he
  obtain ⟨rfl, hsigned⟩ := runs_pure.mp h₅
  cases hsigned
  -- in range and not claimed: only the zero hash gives a reason
  have hzero : hash = zeroBytes32 := by
    by_contra hne
    simp [reasonFromState, hclaimed, hlast, hne] at hreason
  rw [rpcResult_eq_ok hhash, hzero]
  simp

theorem emits_signedEpochs_file {s : Settings} {n : Nat} {epoch : Int} :
    Emits (signedEpochs s epoch n) fun e => fileOf e = none := by
  induction n generalizing epoch with
  | zero => exact emits_pure _
  | succ n ih =>
    exact emits_bind (emits_rpc fun _ => rfl) fun _ => emits_bind ih fun _ => emits_pure _

theorem emits_claimableEpochIds_file {s : Settings} {b : String} :
    Emits (claimableEpochIds s b) fun e => fileOf e = none := by
  unfold claimableEpochIds
  refine emits_bind (emits_rpc fun _ => rfl) fun start => ?_
  refine emits_bind (emits_rpc fun _ => rfl) fun range => ?_
  split
  · exact emits_pure _
  · exact emits_signedEpochs_file

theorem emits_epochsToCollect_file {s : Settings} {b : String} {epoch : Int} :
    Emits (epochsToCollect s b (some epoch)) fun e => fileOf e = none := by
  unfold epochsToCollect
  refine emits_bind (emits_rpc fun _ => rfl) fun start => ?_
  refine emits_bind (emits_rpc fun _ => rfl) fun range => ?_
  split
  · exact emits_pure _
  · refine emits_bind (emits_rpc fun _ => rfl) fun h => ?_
    split <;> exact emits_pure _

/-- Discovery leaves the epoch out only if it is claimed, out of range or without a hash. -/
theorem epochsToCollect_cases {s : Settings} {b : String} {epoch : Int} {t : Trace}
    {epochs : List Int} (h : Runs (epochsToCollect s b (some epoch)) t (.ok epochs)) :
    epochs = [epoch] ∨ (epochs = [] ∧ (ClaimedRead s epoch b t ∨ ShutRead s epoch t)) := by
  obtain ⟨a, t₁, rfl, hr⟩ := runs_rpc_bind.mp h
  rcases hr with ⟨start, hn, h₁⟩ | ⟨e, -, -, he⟩
  swap
  · cases he
  obtain ⟨a₂, t₂, rfl, hr⟩ := runs_rpc_bind.mp h₁
  rcases hr with ⟨range, hrange, h₂⟩ | ⟨e, -, -, he⟩
  swap
  · cases he
  rw [rpcResult_eq_ok hn, rpcResult_eq_ok hrange]
  split at h₂
  · rename_i hout
    obtain ⟨rfl, hx⟩ := runs_pure.mp h₂
    cases hx
    refine Or.inr ⟨rfl, ?_⟩
    by_cases hclaimed : epoch < start
    · exact Or.inl ⟨start, List.mem_cons_self .., hclaimed⟩
    · exact Or.inr (Or.inl ⟨range.1, range.2, List.mem_cons_of_mem _ (List.mem_cons_self ..),
        not_le.mp fun hle => hout ⟨not_lt.mp hclaimed, hle⟩⟩)
  · obtain ⟨a₃, t₃, rfl, hr⟩ := runs_rpc_bind.mp h₂
    rcases hr with ⟨hash, hhash, h₃⟩ | ⟨e, -, -, he⟩
    swap
    · cases he
    split at h₃
    · rename_i hzero
      obtain ⟨rfl, hx⟩ := runs_pure.mp h₃
      cases hx
      rw [rpcResult_eq_ok hhash, beq_iff_eq.mp hzero]
      exact Or.inr ⟨rfl, Or.inr (Or.inr (by simp))⟩
    · obtain ⟨rfl, hx⟩ := runs_pure.mp h₃
      cases hx
      exact Or.inl rfl

section

variable [External] {s : Settings} {epoch : Int}

/-- The read of the file: unavailable, or with its root compared. -/
theorem rewardClaimFor_cases {b : String} {ct : Int} {t : Trace}
    {x : Option RewardClaimWithProof} (h : Runs (rewardClaimFor s epoch b ct) t (.ok x)) :
    (fileRead t = some (none, none) ∧ x = none) ∨
      ∃ d root, (∀ t', fileRead (t ++ t') = some (some d, some root)) ∧
        ((Py.lower d.merkleRoot ≠ Py.lower root ∧ x = none) ∨
          (Py.lower d.merkleRoot = Py.lower root ∧
            ((d.entryFor b ct = none ∧ x = none) ∨
              ∃ c, d.entryFor b ct = some c ∧ provenClaim d.merkleRoot c = .ok x))) := by
  obtain ⟨f, t₁, rfl, h₁⟩ := runs_ask_bind.mp h
  cases f with
  | none =>
    obtain ⟨rfl, hx⟩ := runs_pure.mp h₁
    cases hx
    exact Or.inl ⟨rfl, rfl⟩
  | some d =>
    obtain ⟨a, t₂, rfl, hr⟩ := runs_rpc_bind.mp h₁
    rcases hr with ⟨root, hroot, h₂⟩ | ⟨e, -, -, he⟩
    swap
    · cases he
    rw [rpcResult_eq_ok hroot]
    refine Or.inr ⟨d, root, fun t' => rfl, ?_⟩
    split at h₂
    · rename_i hne
      obtain ⟨rfl, hx⟩ := runs_pure.mp h₂
      cases hx
      exact Or.inl ⟨by simpa using hne, rfl⟩
    · rename_i heq
      refine Or.inr ⟨by simpa using heq, ?_⟩
      split at h₂
      · rename_i hnone
        obtain ⟨rfl, hx⟩ := runs_pure.mp h₂
        cases hx
        exact Or.inl ⟨hnone, rfl⟩
      · rename_i c hc
        exact Or.inr ⟨c, hc, (runs_fromExcept.mp h₂).2.symm⟩

end

/-! ## Submission -/

theorem pollLoop_some {h : String} {receipt : Receipt} : ∀ {n : Nat} {t : Trace},
    Runs (pollLoop h n) t (.ok (some receipt)) →
      (⟨.rpc (.getTransactionReceipt h), .result (some receipt)⟩ : Event sig) ∈ t
  | 0, t, hr => by
    obtain ⟨a, rfl, ha⟩ := runs_rpc.mp hr
    rw [rpcResult_eq_ok ha.symm]
    exact List.mem_singleton_self _
  | n + 1, t, hr => by
    obtain ⟨a, t₁, rfl, hcase⟩ := runs_rpc_bind.mp hr
    rcases hcase with ⟨x, hx, h₁⟩ | ⟨e, -, -, he⟩
    swap
    · cases he
    cases x with
    | some receipt' =>
      obtain ⟨rfl, hres⟩ := runs_pure.mp h₁
      cases hres
      rw [rpcResult_eq_ok hx]
      exact List.mem_singleton_self _
    | none =>
      obtain ⟨passed, t₂, rfl, h₂⟩ := runs_ask_bind.mp h₁
      split at h₂
      · cases (runs_pure.mp h₂).2
      · exact List.mem_cons_of_mem _ (List.mem_cons_of_mem _ (pollLoop_some h₂))

section

variable [External] {s : Settings} {epoch : Int}

omit [External] in
/-- A signed claim that ends in a done outcome was sent and mined. -/
theorem broadcastClaim_done {wt : Nat} {resp : SignTransactionResponse}
    {out : String → OutcomeStatus → String → ClaimOutcome} {t : Trace} {co : ClaimOutcome}
    (hout : ∀ h st d, (out h st d).status = st)
    (hr : Runs (broadcastClaim s wt resp out) t (.ok co))
    (hdone : claimDone.contains co.status = true) :
    ∃ h t', t = ⟨.rpc (.sendRawTransaction resp.signedRawTx), .result h⟩ :: t' ∧
      MinedRead h t := by
  unfold broadcastClaim broadcastSigned at hr
  obtain ⟨a, t₁, rfl, h₁⟩ := runs_attempt_rpc_bind.mp hr
  split at h₁
  · -- the broadcast failed: neither way out is done
    obtain ⟨_, t₂, t₃, -, -, h₂⟩ := runs_bind_eq_ok h₁
    split at h₂
    all_goals
      obtain ⟨-, hco⟩ := runs_pure.mp h₂
      cases hco
      rw [hout] at hdone
      cases hdone
  · cases (runs_throw.mp h₁).2
  · rename_i h hsent
    obtain ⟨_, t₂, t₃, rfl, -, h₂⟩ := runs_bind_eq_ok h₁
    obtain ⟨x, t₄, t₅, rfl, hpoll, h₃⟩ := runs_bind_eq_ok h₂
    rw [rpcResult_eq_ok hsent]
    refine ⟨h, _, rfl, ?_⟩
    split at h₃
    · obtain ⟨-, hco⟩ := runs_pure.mp h₃
      cases hco
      rw [hout] at hdone
      cases hdone
    · rename_i receipt
      have hread := pollLoop_some hpoll
      refine ⟨receipt, List.mem_cons_of_mem _ (List.mem_append_right _
        (List.mem_append_left _ hread)), ?_⟩
      unfold confirmClaim at h₃
      rcases runs_fromExcept_bind.mp h₃ with ⟨block, -, h₄⟩ | ⟨e, -, -, he⟩
      swap
      · cases he
      rcases runs_fromExcept_bind.mp h₄ with ⟨status, hstatus, h₅⟩ | ⟨e, -, -, he⟩
      swap
      · cases he
      obtain ⟨_, t₆, t₇, -, -, h₆⟩ := runs_bind_eq_ok h₅
      split at h₆
      · obtain ⟨-, hco⟩ := runs_pure.mp h₆
        cases hco
        rw [hout] at hdone
        cases hdone
      · rename_i hone
        rw [hstatus]
        simpa using hone

/-- A submission of claims that ends in a done outcome: the last of them went out in the calldata,
and the transaction was mined. -/
theorem submitClaims_done {ct : Int} {b : String} {claim : RewardClaimWithProof} {wt : Nat}
    {retry : Option String} {t : Trace} {co : ClaimOutcome}
    (h : Runs (submitClaims s ct b [claim] true wt retry true) t (.ok co))
    (hdone : claimDone.contains co.status = true) :
    ∃ txHash, SubmittedAs s b claim txHash t ∧ sentHash t = some txHash ∧ MinedRead txHash t := by
  unfold submitClaims at h
  rcases runs_fromExcept_bind.mp h with ⟨ct', -, h₁⟩ | ⟨e, -, -, he⟩
  swap
  · cases he
  dsimp only at h₁
  split at h₁
  · cases (runs_pure.mp h₁).2
    cases hdone
  split at h₁
  · cases (runs_pure.mp h₁).2
    cases hdone
  simp only [List.map_cons, List.map_nil, List.getLast?_singleton] at h₁
  rcases runs_fromExcept_bind.mp h₁ with ⟨data, hdata, h₂⟩ | ⟨e, -, -, he⟩
  swap
  · cases he
  obtain ⟨fees, t₁, t₂, rfl, hfees, h₃⟩ := runs_bind_eq_ok h₂
  have hquiet : ∀ e ∈ t₁, sentOf e = none := emits_feesOr (allOf_sentOf (by decide)) true t₁ _ hfees
  split at h₃
  · cases (runs_pure.mp h₃).2
    cases hdone
  obtain ⟨x, t₃, rfl, h₄⟩ := runs_attempt_fwd_bind.mp h₃
  split at h₄
  · cases (runs_pure.mp h₄).2
    cases hdone
  · cases (runs_pure.mp h₄).2
    cases hdone
  · cases (runs_throw.mp h₄).2
  rename_i resp
  simp only [Bool.not_true, Bool.false_eq_true, if_false] at h₄
  obtain ⟨txHash, t₄, rfl, hmined⟩ := broadcastClaim_done (fun _ _ _ => rfl) h₄ hdone
  refine ⟨txHash, ⟨data, _, _, resp, hdata, rfl, ?_, ?_⟩, ?_, ?_⟩
  · exact List.mem_append_right _ (List.mem_cons_self ..)
  · exact List.mem_append_right _ (List.mem_cons_of_mem _ (List.mem_cons_self ..))
  · rw [sentHash_append hquiet]
    rfl
  · obtain ⟨receipt, hin, hst⟩ := hmined
    exact ⟨receipt, List.mem_append_right _ (List.mem_cons_of_mem _ hin), hst⟩

/-! ## One call of `run_claim` -/

omit [External] in
theorem ClaimedRead.append {b : String} {t₁ t₂ : Trace} (h : ClaimedRead s epoch b t₁) :
    ClaimedRead s epoch b (t₁ ++ t₂) := by
  obtain ⟨nxt, hin, hlt⟩ := h
  exact ⟨nxt, List.mem_append_left _ hin, hlt⟩

omit [External] in
theorem ShutRead.append {t₁ t₂ : Trace} (h : ShutRead s epoch t₁) :
    ShutRead s epoch (t₁ ++ t₂) := by
  rcases h with ⟨first, last, hin, hlt⟩ | hin
  · exact Or.inl ⟨first, last, List.mem_append_left _ hin, hlt⟩
  · exact Or.inr (List.mem_append_left _ hin)

omit [External] in
theorem ShutRead.append_left {t₁ t₂ : Trace} (h : ShutRead s epoch t₂) :
    ShutRead s epoch (t₁ ++ t₂) := by
  rcases h with ⟨first, last, hin, hlt⟩ | hin
  · exact Or.inl ⟨first, last, List.mem_append_right _ hin, hlt⟩
  · exact Or.inr (List.mem_append_right _ hin)

omit [External] in
theorem ClaimedRead.append_left {b : String} {t₁ t₂ : Trace} (h : ClaimedRead s epoch b t₂) :
    ClaimedRead s epoch b (t₁ ++ t₂) := by
  obtain ⟨nxt, hin, hlt⟩ := h
  exact ⟨nxt, List.mem_append_right _ hin, hlt⟩

theorem SubmittedAs.append_left {b txHash : String} {claim : RewardClaimWithProof} {t₁ t₂ : Trace}
    (h : SubmittedAs s b claim txHash t₂) : SubmittedAs s b claim txHash (t₁ ++ t₂) := by
  obtain ⟨data, body, key, resp, hdata, hbody, hsign, hsend⟩ := h
  exact ⟨data, body, key, resp, hdata, hbody, List.mem_append_right _ hsign,
    List.mem_append_right _ hsend⟩

omit [External] in
theorem MinedRead.append_left {txHash : String} {t₁ t₂ : Trace} (h : MinedRead txHash t₂) :
    MinedRead txHash (t₁ ++ t₂) := by
  obtain ⟨receipt, hin, hst⟩ := h
  exact ⟨receipt, List.mem_append_right _ hin, hst⟩

/-- A done outcome settles the stream or drops it. -/
theorem runClaim_done {ct : Int} {b : String} {wt : Nat} {retry : Option String} {t : Trace}
    {co : ClaimOutcome}
    (h : Runs (runClaim s ct b (some epoch) true wt retry)
      (⟨.called (.runClaim ct b (some epoch)), ()⟩ :: t) (.ok co))
    (hdone : claimDone.contains co.status = true) (next : String → Int) :
    Settled s epoch next ⟨ct, b, t⟩ ∨ Dropped s epoch ⟨ct, b, t⟩ := by
  obtain ⟨t', ht, h₁⟩ := runs_enter_bind.mp h
  obtain ⟨-, rfl⟩ := List.cons.inj ht
  rcases runs_fromExcept_bind.mp h₁ with ⟨ct', -, h₂⟩ | ⟨e, -, -, he⟩
  swap
  · cases he
  dsimp only at h₂
  obtain ⟨x, t₁, t₂, rfl, hpre, h₃⟩ := runs_attempt_bind.mp h₂
  have hfile₁ : ∀ e ∈ t₁, fileOf e = none := emits_unclaimableReason_file t₁ x hpre
  have hquiet₁ : ∀ e ∈ t₁, sentOf e = none :=
    emits_preflight (allOf_sentOf (by decide)) s b _ t₁ x hpre
  split at h₃
  · cases (runs_pure.mp h₃).2
    cases hdone
  · cases (runs_throw.mp h₃).2
  · -- the pre-flight found a reason
    obtain ⟨rfl, -⟩ := runs_pure.mp h₃
    rcases unclaimableReason_some hpre with hc | hs
    · exact Or.inl (Or.inr (Or.inl hc.append))
    · refine Or.inr (.shut (fileRead_eq_none ?_) hs.append)
      simpa using hfile₁
  obtain ⟨y, t₃, t₄, rfl, hcol, h₄⟩ := runs_attempt_bind.mp h₃
  have hquiet₂ : ∀ e ∈ t₃, sentOf e = none :=
    emits_collectRewardClaims (allOf_sentOf (by decide)) s b _ _ t₃ y hcol
  split at h₄
  · cases (runs_pure.mp h₄).2
    cases hdone
  · cases (runs_throw.mp h₄).2
  all_goals
    obtain ⟨epochs, u₁, u₂, rfl, hep, hclaims⟩ := runs_bind_eq_ok hcol
    have hfile₂ : ∀ e ∈ u₁, fileOf e = none := emits_epochsToCollect_file u₁ _ hep
  · -- discovery found nothing
    obtain ⟨rfl, -⟩ := runs_pure.mp h₄
    rcases epochsToCollect_cases hep with rfl | ⟨rfl, hshut⟩
    · obtain ⟨x, v₁, v₂, rfl, hrc, hrest⟩ := runs_bind_eq_ok hclaims
      obtain ⟨xs, v₃, v₄, rfl, hnil, hlast⟩ := runs_bind_eq_ok hrest
      obtain ⟨rfl, hxs⟩ := runs_pure.mp hnil
      obtain ⟨rfl, hx⟩ := runs_pure.mp hlast
      cases hxs
      obtain rfl : x = none := by
        cases x with
        | none => rfl
        | some claim => cases hx
      have hread : ∀ z, fileRead v₁ = z →
          fileRead (t₁ ++ (u₁ ++ (v₁ ++ ([] ++ [])) ++ [])) = z := by
        rintro z rfl
        simp only [List.append_nil]
        rw [fileRead_append hfile₁, fileRead_append hfile₂]
      rcases rewardClaimFor_cases hrc with ⟨hf, -⟩ | ⟨d, root, hf, hcase⟩
      · exact Or.inr (.unavailable (hread _ hf))
      have hf' := hread _ (by simpa using hf [])
      rcases hcase with ⟨hne, -⟩ | ⟨heq, ⟨hnone, -⟩ | ⟨c, hc, hproof⟩⟩
      · exact Or.inr (.rootMismatch hf' hne)
      · exact Or.inl (Or.inr (Or.inr (Or.inl ⟨d, ⟨root, hf', heq⟩, hnone⟩)))
      · exact Or.inr (.unproven ⟨root, hf', heq⟩ hc hproof)
    · obtain ⟨rfl, -⟩ := runs_pure.mp hclaims
      rcases hshut with hc | hs
      · exact Or.inl (Or.inr (Or.inl (hc.append.append.append_left)))
      · refine Or.inr (.shut (fileRead_eq_none ?_) hs.append.append.append_left)
        simpa [or_imp, forall_and] using ⟨hfile₁, hfile₂⟩
  · -- discovery found a claim, which was submitted
    rename_i claims hne
    rcases epochsToCollect_cases hep with rfl | ⟨rfl, -⟩
    swap
    · cases (runs_pure.mp hclaims).2
      exact absurd rfl hne
    obtain ⟨x, v₁, v₂, rfl, hrc, hrest⟩ := runs_bind_eq_ok hclaims
    obtain ⟨xs, v₃, v₄, rfl, hnil, hlast⟩ := runs_bind_eq_ok hrest
    obtain ⟨rfl, hxs⟩ := runs_pure.mp hnil
    obtain ⟨rfl, hx⟩ := runs_pure.mp hlast
    cases hxs
    cases x with
    | none =>
      cases hx
      exact absurd rfl hne
    | some claim =>
      cases hx
      rcases rewardClaimFor_cases hrc with ⟨-, hnone⟩ | ⟨d, root, hf, hcase⟩
      · cases hnone
      rcases hcase with ⟨-, hnone⟩ | ⟨heq, ⟨-, hnone⟩ | ⟨c, hc, hproof⟩⟩
      · cases hnone
      · cases hnone
      obtain ⟨txHash, hsub, hsent, hmined⟩ := submitClaims_done h₄ hdone
      have hf' : fileRead (t₁ ++ (u₁ ++ (v₁ ++ ([] ++ [])) ++ t₄)) = some (some d, some root) := by
        simp only [List.append_nil, List.append_assoc]
        rw [fileRead_append hfile₁, fileRead_append hfile₂]
        exact hf t₄
      have hsent' : sentHash (t₁ ++ (u₁ ++ (v₁ ++ ([] ++ [])) ++ t₄)) = some txHash := by
        rw [sentHash_append hquiet₁, sentHash_append hquiet₂, hsent]
      by_cases hepoch : c.epochId = epoch
      swap
      · exact Or.inr (.otherEpoch ⟨root, hf', heq⟩ hc hepoch)
      by_cases hlog : LoggedRead s txHash (t₁ ++ (u₁ ++ (v₁ ++ ([] ++ [])) ++ t₄))
      swap
      · exact Or.inr (.unlogged ⟨root, hf', heq⟩ hc hsent' hlog)
      exact Or.inl
        (Or.inr (Or.inr (Or.inr ⟨d, c, claim, txHash, ⟨root, hf', heq⟩, hc, hepoch, hproof,
        hsub.append_left.append_left, hsent', hmined.append_left.append_left, hlog⟩)))

/-! ## The claim phase -/

/-- The legs of a claim phase are its streams, and each is a run of `run_claim`. -/
theorem claimStreams_legs {claimers : List (Int × String)} {t : Trace} {cos : List ClaimOutcome}
    (h : Runs (claimStreams s epoch claimers) t (.ok cos)) :
    (cutLegs t).1 = [] ∧ (claimLegs t).map ClaimLeg.stream = claimers ∧
      ∀ leg ∈ claimLegs t, ∃ co ∈ cos,
        Runs (runClaim s leg.claimType leg.beneficiary (some epoch) true 600 none)
          (⟨.called (.runClaim leg.claimType leg.beneficiary (some epoch)), ()⟩ :: leg.trace)
          (.ok co) := by
  induction claimers generalizing t cos with
  | nil =>
    obtain ⟨rfl, -⟩ := runs_pure.mp h
    exact ⟨rfl, rfl, by simp [claimLegs, cutLegs]⟩
  | cons cb rest ih =>
    obtain ⟨co, t₁, t₂, rfl, h₁, h₂⟩ := runs_bind_eq_ok h
    obtain ⟨cos', t₃, t₄, rfl, h₃, h₄⟩ := runs_bind_eq_ok h₂
    obtain ⟨rfl, hcos⟩ := runs_pure.mp h₄
    cases hcos
    rw [List.append_nil]
    obtain ⟨hhead, hmap, hlegs⟩ := ih h₃
    obtain ⟨t₁, rfl, hnone⟩ := runClaim_marked (allOf_claimMark (by decide))
      (allOf_claimMark (by decide))
      (allOf_claimMark (by decide)) (allOf_claimMark (by decide)) (allOf_claimMark (by decide)) h₁
    have hcut : cutLegs (⟨.called (.runClaim cb.1 cb.2 (some epoch)), ()⟩ :: t₁ ++ t₃) =
        ([], ⟨cb.1, cb.2, t₁⟩ :: claimLegs t₃) := by
      rw [List.cons_append, cutLegs, cutLegs_append hnone, hhead, List.append_nil]
      rfl
    refine ⟨by rw [hcut], by rw [claimLegs, hcut, List.map_cons, hmap]; rfl, ?_⟩
    rw [claimLegs, hcut]
    refine List.forall_mem_cons.mpr ⟨⟨co, List.mem_cons_self .., h₁⟩, fun leg hleg => ?_⟩
    obtain ⟨co', hco', hrun⟩ := hlegs leg hleg
    exact ⟨co', List.mem_cons_of_mem _ hco', hrun⟩

/-- A done epoch went through the claim phase, and every call of `run_claim` ended done. -/
theorem driveEpoch_done {a : DriveArgs} (ha : a.Keyless) {m m' : Mem} {t : Trace} {obs : EpochObs}
    (h : RunsOn (driveEpoch a epoch) m t (.ok obs) m') (hdone : obs.done = true) :
    (claimLegs t).map ClaimLeg.stream = a.claimers ∧
      ∀ leg ∈ claimLegs t, ∃ co,
        Runs (runClaim a.settings leg.claimType leg.beneficiary (some epoch) true 600 none)
          (⟨.called (.runClaim leg.claimType leg.beneficiary (some epoch)), ()⟩ :: leg.trace)
          (.ok co) ∧ claimDone.contains co.status = true := by
  have hr : ∀ {k : OpKind}, k ≠ .entry → AllOf k fun e => e.op.claimMark = none := allOf_claimMark
  obtain ⟨t', rfl, h₁⟩ := runsOn_enter_bind.mp h
  rcases runsOn_lift_bind.mp h₁ with ⟨actions, t₁, t₂, rfl, hup, h₂⟩ | ⟨e, -, he, -⟩
  swap
  · cases he
  have hq₁ : ∀ e ∈ t₁, e.op.claimMark = none := emits_uptimePhase (hr (by decide))
    (hr (by decide)) (hr (by decide)) (hr (by decide)) a epoch rfl t₁ _ hup
  rcases runsOn_bind.mp h₂ with ⟨x, t₃, t₄, m₁, rfl, hrew, h₃⟩ | ⟨e, -, he⟩
  swap
  · cases he
  have hq₂ : ∀ e ∈ t₃, e.op.claimMark = none := by
    refine emitsOn_rewardPhase (hr (by decide)) (hr (by decide)) (hr (by decide)) (hr (by decide))
      (hr (by decide)) a epoch actions rfl (fun f hf => (ha f hf epoch).mono fun e he => ?_)
      m t₃ _ m₁ hrew
    rcases he with hread | hop
    · exact hr (by decide) e hread
    · rw [hop]
      rfl
  split at h₃
  · -- no observation of the reward phase is done
    obtain ⟨rfl, ho, rfl⟩ := runsOn_pure.mp h₃
    cases ho
    rw [(yields_rewardPhase a epoch actions _ _ _ _ hrew _ rfl).2] at hdone
    cases hdone
  rcases runsOn_lift_bind.mp h₃ with ⟨cos, t₅, t₆, rfl, hcl, h₄⟩ | ⟨e, -, he, -⟩
  swap
  · cases he
  obtain ⟨rfl, ho, rfl⟩ := runsOn_pure.mp h₄
  cases ho
  have hall : ∀ co ∈ cos, claimDone.contains co.status = true := by
    unfold claimObs at hdone
    dsimp only at hdone
    split at hdone
    · rename_i hall
      exact List.all_eq_true.mp hall
    · cases hdone
  obtain ⟨-, hmap, hlegs⟩ := claimStreams_legs hcl
  have hcut : claimLegs (⟨.called (.driveEpoch epoch), ()⟩ :: (t₁ ++ (t₃ ++ (t₅ ++ [])))) =
      claimLegs t₅ := by
    rw [List.append_nil, ← List.append_assoc, ← List.cons_append, claimLegs, cutLegs_append]
    · rfl
    · refine List.forall_mem_cons.mpr ⟨rfl, fun e he => ?_⟩
      rcases List.mem_append.mp he with he | he
      · exact hq₁ e he
      · exact hq₂ e he
  rw [hcut]
  refine ⟨hmap, fun leg hleg => ?_⟩
  obtain ⟨co, hco, hrun⟩ := hlegs leg hleg
  exact ⟨co, hrun, hall co hco⟩

/-- In the runs that report an epoch done, every stream is settled exactly when no stream was
dropped before it was claimed; `next` is the next claimable epoch on the chain. -/
theorem settled_iff_not_dropped {a : DriveArgs} (ha : a.Keyless) {m m' : Mem} {t : Trace}
    {obs : EpochObs} (h : RunsOn (driveEpoch a epoch) m t (.ok obs) m') (hdone : obs.done = true)
    (next : String → Int) :
    ((claimLegs t).map ClaimLeg.stream = a.claimers ∧
      ∀ leg ∈ claimLegs t, Settled a.settings epoch next leg) ↔
    ∀ leg ∈ claimLegs t, Dropped a.settings epoch leg →
      epoch < next leg.beneficiary ∨ ClaimedRead a.settings epoch leg.beneficiary leg.trace := by
  obtain ⟨hmap, hlegs⟩ := driveEpoch_done ha h hdone
  constructor
  · rintro ⟨-, hall⟩ leg hleg hd
    exact (hall leg hleg).claimed_of_dropped hd
  · refine fun hcond => ⟨hmap, fun leg hleg => ?_⟩
    obtain ⟨co, hrun, hco⟩ := hlegs leg hleg
    rcases runClaim_done hrun hco next with hs | hd
    · exact hs
    · rcases hcond leg hleg hd with hc | hc
      · exact Or.inl hc
      · exact Or.inr (Or.inl hc)

end

/-! ### A reward dropped with its data file -/

def feeBeneficiary : String := "0x0202020202020202020202020202020202020202"

/-- A daemon that claims one fee stream. -/
def feeArgs : DriveArgs := { bareArgs with claimers := [(1, feeBeneficiary)] }

theorem feeArgs_keyless : feeArgs.Keyless := fun f hf => by cases hf

def finalHash : String := "0x" ++ String.ofList (List.replicate 64 '1')

/-- Epoch 5 is final and claimable, and its reward file cannot be fetched. -/
def unpublishedWorld : (op : Op) → op.Ans
  | .rpc (.rewardsHash _ _) => .result finalHash
  | .rpc (.voterRewardsSignInfo ..) => .result (0, 0)
  | .rpc (.nextClaimableRewardEpochId _ _) => .result 5
  | .rpc (.rewardEpochIdRange _) => .result (0, 5)
  | op => deafWorld op

/-- What `run_claim` reads before it gives up on the file, twice: once for the pre-flight. -/
def gateReads : Trace :=
  [⟨.rpc (.nextClaimableRewardEpochId feeArgs.settings.net.rewardManager feeBeneficiary),
      .result 5⟩,
    ⟨.rpc (.rewardEpochIdRange feeArgs.settings.net.rewardManager), .result (0, 5)⟩,
    ⟨.rpc (.rewardsHash feeArgs.settings.net.flareSystemsManager 5), .result finalHash⟩]

def unpublishedLeg : ClaimLeg :=
  ⟨1, feeBeneficiary, gateReads ++ (gateReads ++ [⟨.readRewardCalculationData .flare 5, none⟩])⟩

/-- The drive of epoch 5 in that world. -/
def unpublishedDrive : Trace × Except Exc EpochObs × Mem :=
  @execOn sig Exc Mem EpochObs unpublishedWorld (@driveEpoch External.static feeArgs 5) {}

theorem unpublishedDrive_runs :
    RunsOn (@driveEpoch External.static feeArgs 5) {} unpublishedDrive.1 unpublishedDrive.2.1
      unpublishedDrive.2.2 := execOn_runs (S := sig) _ _ _

theorem unpublishedDrive_done :
    ∃ obs, unpublishedDrive.2.1 = .ok obs ∧ obs.done = true := ⟨_, rfl, rfl⟩

theorem claimLegs_unpublishedDrive : claimLegs unpublishedDrive.1 = [unpublishedLeg] := rfl

theorem unpublishedLeg_dropped : @Dropped External.static feeArgs.settings 5 unpublishedLeg :=
  @Dropped.unavailable External.static _ _ _ none rfl

theorem unpublishedLeg_unclaimed :
    ¬ ClaimedRead feeArgs.settings 5 feeBeneficiary unpublishedLeg.trace := by
  rintro ⟨nxt, hin, hlt⟩
  obtain rfl : nxt = 5 := by simpa [unpublishedLeg, gateReads] using hin
  exact absurd hlt (by decide)

/-- Epoch 5 is reported done although its reward is still claimable. -/
theorem unpublished_not_settled :
    ∃ t obs m', RunsOn (@driveEpoch External.static feeArgs 5) {} t (.ok obs) m' ∧
      obs.done = true ∧
      ¬ ∀ leg ∈ claimLegs t, @Settled External.static feeArgs.settings 5 (fun _ => 5) leg := by
  obtain ⟨obs, hobs, hdone⟩ := unpublishedDrive_done
  refine ⟨_, obs, _, hobs ▸ unpublishedDrive_runs, hdone, fun hall => ?_⟩
  rw [claimLegs_unpublishedDrive] at hall
  have hs := hall _ (List.mem_singleton_self _)
  rcases @Settled.claimed_of_dropped External.static _ _ _ _ hs unpublishedLeg_dropped with hn | hc
  · exact absurd hn (by decide)
  · exact unpublishedLeg_unclaimed hc

theorem settled_iff_not_dropped_unpublished :
    ((claimLegs unpublishedDrive.1).map ClaimLeg.stream = feeArgs.claimers ∧
      ∀ leg ∈ claimLegs unpublishedDrive.1,
        @Settled External.static feeArgs.settings 5 (fun _ => 5) leg) ↔
    ∀ leg ∈ claimLegs unpublishedDrive.1, @Dropped External.static feeArgs.settings 5 leg →
      (5 : Int) < 5 ∨ ClaimedRead feeArgs.settings 5 leg.beneficiary leg.trace :=
  @settled_iff_not_dropped External.static 5 feeArgs feeArgs_keyless _ _ _
    (claimObs 5 [] [_]) unpublishedDrive_runs rfl fun _ => 5

end Clif
