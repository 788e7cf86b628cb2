import Clif.EpochRun

/-!
# Asks — what each function asks of the outside

Every operation is a view of a contract or of a reward file, another read, a signing request to
`fwd`, the sending of a blob, a report to `fwd`, or the entry of an orchestrator.  For each function
there is one lemma that says which kinds its runs consist of:
`emits_f` derives `Emits f φ` from what `φ` says about those kinds.
-/

namespace Clif

open Effect

inductive OpKind where
  /-- The epochs, the rewards hash, what the voter signed, the claimable window, the reward
  files. -/
  | view
  | read
  | sign
  | send
  | report
  | entry
deriving DecidableEq

def RpcOp.kind : RpcOp → OpKind
  | .sendRawTransaction _ => .send
  | .currentRewardEpochId _ => .view
  | .firstRewardEpochStartTs _ => .view
  | .rewardEpochDurationSeconds _ => .view
  | .rewardsHash .. => .view
  | .voterRewardsSignInfo .. => .view
  | .nextClaimableRewardEpochId .. => .view
  | .rewardEpochIdRange _ => .view
  | _ => .read

def Op.kind : Op → OpKind
  | .rpc o => o.kind
  | .readRewardDistributionData .. => .view
  | .readRewardCalculationData .. => .view
  | .fwd _ (.signFspMessage _) => .sign
  | .fwd _ (.signTransaction _ _) => .sign
  | .fwd _ (.reportBroadcastResult ..) => .report
  | .fwd _ (.reportReceipt ..) => .report
  | .called _ => .entry
  | _ => .read

/-- `φ` holds of every exchange of the kind. -/
def AllOf (k : OpKind) (φ : Event sig → Prop) : Prop := ∀ e : Event sig, e.op.kind = k → φ e

theorem AllOf.ne {k k' : OpKind} (h : k ≠ k') : AllOf k fun e => e.op.kind ≠ k' := by
  intro e he
  show e.op.kind ≠ k'
  rw [he]
  exact h

variable {φ : Event sig → Prop}

/-! ## Reads -/

theorem emits_maxFeeCapWei (h : AllOf .read φ) : Emits maxFeeCapWei φ := by
  unfold maxFeeCapWei
  refine emits_bind (emits_ask fun _ => h _ rfl) fun raw => ?_
  split
  · dsimp only
    split
    · exact emits_throw _
    · split
      · exact emits_throw _
      · exact emits_pure _
  · exact emits_pure _

theorem emits_suggestFees (h : AllOf .read φ) : Emits suggestFees φ := by
  unfold suggestFees
  refine emits_bind (emits_rpc fun _ => h _ rfl) fun baseFees => ?_
  refine emits_bind (emits_maxFeeCapWei h) fun cap => ?_
  split
  · exact emits_throw _
  · exact emits_pure _

theorem emits_feesOr (h : AllOf .read φ) (hasRpc : Bool) : Emits (feesOr hasRpc) φ := by
  unfold feesOr
  split
  · refine emits_bind (emits_attempt (emits_suggestFees h)) fun fees => ?_
    split
    · exact emits_pure _
    · exact emits_pure _
    · exact emits_throw _
  · exact emits_pure _

theorem emits_pollLoop (h : AllOf .read φ) (txHash : String) :
    ∀ n, Emits (pollLoop txHash n) φ
  | 0 => emits_rpc fun _ => h _ rfl
  | n + 1 => by
    refine emits_bind (emits_rpc fun _ => h _ rfl) fun receipt => ?_
    split
    · exact emits_pure _
    · refine emits_bind (emits_ask fun _ => h _ rfl) fun passed => ?_
      split
      · exact emits_pure _
      · exact emits_pollLoop h txHash n

theorem emits_pollReceipt (h : AllOf .read φ) (txHash : String) (timeout : Nat) :
    Emits (pollReceipt txHash timeout) φ := emits_pollLoop h txHash _

theorem emits_blockTimestamp (h : AllOf .read φ) (block : Int) :
    Emits (blockTimestamp block) φ := by
  unfold blockTimestamp
  refine emits_bind (emits_rpc fun _ => h _ rfl) fun ts => ?_
  split
  · exact emits_pure _
  · exact emits_throw _

theorem emits_getRewardCalculationData (h : AllOf .view φ) (s : Settings) (epoch : Int) :
    Emits (getRewardCalculationData s epoch) φ := emits_ask fun _ => h _ rfl

theorem emits_getRewardDistributionData (h : AllOf .view φ) (s : Settings) (epoch : Int) :
    Emits (getRewardDistributionData s epoch) φ :=
  emits_bind (emits_ask fun _ => h _ rfl) fun _ => emits_pure _

theorem emits_signedEpochs (h : AllOf .view φ) (s : Settings) :
    ∀ epoch n, Emits (signedEpochs s epoch n) φ
  | _, 0 => emits_pure _
  | epoch, n + 1 =>
    emits_bind (emits_rpc fun _ => h _ rfl) fun _ =>
      emits_bind (emits_signedEpochs h s (epoch + 1) n) fun _ => emits_pure _

theorem emits_claimableEpochIds (h : AllOf .view φ) (s : Settings) (b : String) :
    Emits (claimableEpochIds s b) φ := by
  unfold claimableEpochIds
  refine emits_bind (emits_rpc fun _ => h _ rfl) fun start => ?_
  refine emits_bind (emits_rpc fun _ => h _ rfl) fun range => ?_
  split
  · exact emits_pure _
  · exact emits_signedEpochs h s _ _

theorem emits_epochsToCollect (h : AllOf .view φ) (s : Settings) (b : String) :
    ∀ o, Emits (epochsToCollect s b o) φ
  | none => emits_claimableEpochIds h s b
  | some epoch => by
    unfold epochsToCollect
    refine emits_bind (emits_rpc fun _ => h _ rfl) fun start => ?_
    refine emits_bind (emits_rpc fun _ => h _ rfl) fun range => ?_
    split
    · exact emits_pure _
    · refine emits_bind (emits_rpc fun _ => h _ rfl) fun hash => ?_
      split <;> exact emits_pure _

theorem emits_signedInRange (h : AllOf .view φ) (s : Settings) (epoch last : Int) :
    Emits (signedInRange s epoch last) φ := by
  unfold signedInRange
  split
  · exact emits_bind (emits_rpc fun _ => h _ rfl) fun _ => emits_pure _
  · exact emits_pure _

theorem emits_unclaimableReason (h : AllOf .view φ) (s : Settings) (b : String) (epoch : Int) :
    Emits (unclaimableReason s b epoch) φ := by
  unfold unclaimableReason
  refine emits_bind (emits_rpc fun _ => h _ rfl) fun nxt => ?_
  refine emits_bind (emits_rpc fun _ => h _ rfl) fun range => ?_
  exact emits_bind (emits_signedInRange h s _ _) fun _ => emits_pure _

theorem emits_preflight (h : AllOf .view φ) (s : Settings) (b : String) :
    ∀ o, Emits (preflight s b o) φ
  | none => emits_pure _
  | some epoch => emits_unclaimableReason h s b epoch

theorem emits_finalizedAlready (hasRpc : Bool) {read : Py String}
    (hr : Emits read φ) : Emits (finalizedAlready hasRpc read) φ := by
  unfold finalizedAlready
  split
  · refine emits_bind (emits_attempt hr) fun hash => ?_
    split
    · exact emits_pure _
    · exact emits_pure _
    · exact emits_throw _
  · exact emits_pure _

section

variable [External]

theorem emits_rewardClaimFor (h : AllOf .view φ) (s : Settings) (epoch : Int) (b : String)
    (ct : Int) : Emits (rewardClaimFor s epoch b ct) φ := by
  unfold rewardClaimFor
  refine emits_bind (emits_getRewardCalculationData h s epoch) fun data => ?_
  split
  · exact emits_pure _
  · refine emits_bind (emits_rpc fun _ => h _ rfl) fun hash => ?_
    split
    · exact emits_pure _
    · split
      · exact emits_pure _
      · exact emits_fromExcept _

theorem emits_claimsOf (h : AllOf .view φ) (s : Settings) (b : String) (ct : Int) :
    ∀ epochs, Emits (claimsOf s b ct epochs) φ
  | [] => emits_pure _
  | epoch :: epochs =>
    emits_bind (emits_rewardClaimFor h s epoch b ct) fun _ =>
      emits_bind (emits_claimsOf h s b ct epochs) fun _ => emits_pure _

theorem emits_collectRewardClaims (h : AllOf .view φ) (s : Settings) (b : String) (ct : Int)
    (o : Option Int) : Emits (collectRewardClaims s b ct o) φ :=
  emits_bind (emits_epochsToCollect h s b o) fun epochs => emits_claimsOf h s b ct epochs

theorem emits_frontierReason (h : AllOf .view φ) (s : Settings) (b : String)
    (ct nxt last epoch : Int) : Emits (frontierReason s b ct nxt last epoch) φ := by
  unfold frontierReason
  refine emits_bind (emits_signedInRange h s _ _) fun signed => ?_
  split
  · exact emits_pure _
  · refine emits_bind (emits_rewardClaimFor h s _ _ _) fun rc => ?_
    split <;> exact emits_pure _

theorem emits_frontierReasons (h : AllOf .view φ) (s : Settings) (b : String) (ct nxt last : Int) :
    ∀ epochs, Emits (frontierReasons s b ct nxt last epochs) φ
  | [] => emits_pure _
  | epoch :: epochs =>
    emits_bind (emits_frontierReason h s b ct nxt last epoch) fun _ =>
      emits_bind (emits_frontierReasons h s b ct nxt last epochs) fun _ => emits_pure _

theorem emits_classifyClaimFrontier (h : AllOf .view φ) (s : Settings) (b : String) (ct : Int) :
    Emits (classifyClaimFrontier s b ct) φ :=
  emits_bind (emits_rpc fun _ => h _ rfl) fun _ =>
    emits_bind (emits_rpc fun _ => h _ rfl) fun _ => emits_frontierReasons h s b ct _ _ _

theorem emits_getRevertReason (h : AllOf .read φ) (txHash : String) :
    Emits (getRevertReason txHash) φ := by
  unfold getRevertReason
  have hb : Emits (replayRevert txHash) φ := by
    unfold replayRevert
    refine emits_bind (emits_rpc fun _ => h _ rfl) fun tx => ?_
    split
    · exact emits_pure _
    · refine emits_bind (emits_rpc fun _ => h _ rfl) fun receipt => ?_
      split
      · exact emits_pure _
      · split
        · exact emits_pure _
        · refine emits_bind (emits_ask fun _ => h _ rfl) fun reply => ?_
          split
          · exact emits_fromExcept _
          · exact emits_pure _
  refine emits_bind (emits_attempt hb) fun x => ?_
  split <;> exact emits_pure _

theorem emits_signedLogs (h : AllOf .read φ) (fsm : String) (epoch lo hi : Int)
    (kind : SigningKind) : Emits (signedLogs fsm epoch lo hi kind) φ :=
  emits_bind (emits_rpc fun _ => h _ rfl) fun _ => emits_fromExcept _

theorem emits_fetchSlice (h : AllOf .read φ) (fsm : String) (epoch : Int) (kind : SigningKind)
    (slice : Nat → Int × Int) : ∀ n chunk, Emits (fetchSlice fsm epoch kind slice n chunk) φ
  | 0, _ => emits_bind (emits_signedLogs h _ _ _ _ _) fun _ => emits_pure _
  | n + 1, chunk => by
    refine emits_bind (emits_attempt (emits_signedLogs h _ _ _ _ _)) fun x => ?_
    split
    · exact emits_pure _
    · refine emits_bind (emits_fromExcept _) fun cap => ?_
      dsimp only
      split
      · exact emits_fetchSlice h fsm epoch kind slice n _
      · exact emits_throw _
    · exact emits_throw _

theorem emits_scanBack (h : AllOf .read φ) (fsm : String) (epoch : Int) (kind : SigningKind)
    (target : Int) :
    ∀ reqs chunk hi b f, Emits (scanBack fsm epoch kind target reqs chunk hi b f) φ
  | 0, _, _, _, _ => emits_pure _
  | reqs + 1, chunk, hi, b, f => by
    unfold scanBack
    split
    · exact emits_pure _
    · refine emits_bind (emits_fetchSlice h _ _ _ _ _ _) fun fetched => ?_
      dsimp only
      split
      · exact emits_pure _
      · refine emits_bind (emits_blockTimestamp h _) fun ts => ?_
        split
        · exact emits_pure _
        · exact emits_scanBack h fsm epoch kind target reqs _ _ _ _

theorem emits_scanBase (h : AllOf .read φ) (net : NetworkConfig) (epoch : Int) (kind : SigningKind)
    (latest ts : Int) : Emits (scanBase net epoch kind latest ts) φ :=
  emits_bind (emits_scanBack h _ _ _ _ _ _ _ _ _) fun _ =>
    emits_bind (emits_rpc fun _ => h _ rfl) fun _ =>
      emits_bind (emits_rpc fun _ => h _ rfl) fun _ => emits_pure _

theorem emitsOn_scanOn (h : AllOf .read φ) (fsm : String) (epoch : Int) (kind : SigningKind)
    (hi : Int) : ∀ reqs chunk cur, EmitsOn (scanOn fsm epoch kind hi reqs chunk cur) φ
  | 0, _, _ => emitsOn_pure _
  | reqs + 1, chunk, cur => by
    unfold scanOn
    split
    · exact emitsOn_pure _
    · refine emitsOn_bind (emitsOn_lift (emits_fetchSlice h _ _ _ _ _ _)) fun fetched => ?_
      exact emitsOn_bind (emitsOn_modify _) fun _ => emitsOn_scanOn h fsm epoch kind hi reqs _ _

omit [External] in
theorem emitsOn_lookupEach (h : AllOf .read φ) (vr : String) (epoch : Int) :
    ∀ spas, EmitsOn (lookupEach vr epoch spas) φ
  | [] => emitsOn_pure _
  | spa :: spas => by
    unfold lookupEach
    refine emitsOn_bind emitsOn_get fun w => ?_
    split
    · exact emitsOn_lookupEach h vr epoch spas
    · refine emitsOn_bind (emitsOn_lift (emits_rpc fun _ => h _ rfl)) fun vw => ?_
      exact emitsOn_bind (emitsOn_modify _) fun _ => emitsOn_lookupEach h vr epoch spas

omit [External] in
theorem emitsOn_fillWeights (h : AllOf .read φ) (vr : String) (epoch : Int) :
    EmitsOn (fillWeights vr epoch) φ :=
  emitsOn_bind emitsOn_get fun _ => emitsOn_focus (emitsOn_lookupEach h vr epoch _)

theorem emitsOn_advance (h : AllOf .read φ) (net : NetworkConfig) (epoch : Int)
    (kind : SigningKind) (latest : Int) : EmitsOn (advance net epoch kind latest) φ :=
  emitsOn_bind emitsOn_get fun _ =>
    emitsOn_bind (emitsOn_focus (emitsOn_scanOn h _ _ _ _ _ _ _)) fun _ => emitsOn_modify _

theorem emitsOn_refreshEntry (h : AllOf .read φ) (net : NetworkConfig) (epoch : Int)
    (kind : SigningKind) (latest ts : Int) :
    EmitsOn (refreshEntry net epoch kind latest ts) φ := by
  have hb : EmitsOn (do
      let st ← lift (scanBase net epoch kind latest ts)
      modify fun cache => ProgCache.store cache net.name epoch kind st
      return st : StAct sig Exc ProgCache CacheEntry) φ :=
    emitsOn_bind (emitsOn_lift (emits_scanBase h _ _ _ _ _)) fun _ =>
      emitsOn_bind (emitsOn_modify _) fun _ => emitsOn_pure _
  unfold refreshEntry
  refine emitsOn_bind emitsOn_get fun cache => ?_
  split
  · split
    · exact emitsOn_bind (emitsOn_focus (emitsOn_advance h _ _ _ _)) fun _ => emitsOn_pure _
    · exact hb
  · exact hb

theorem emitsOn_refreshSigningProgress (h : AllOf .read φ) (net : NetworkConfig) (epoch : Int)
    (spa : Option String) (ts : Int) (kind : SigningKind) :
    EmitsOn (refreshSigningProgress net epoch spa ts kind) φ := by
  unfold refreshSigningProgress
  split
  · exact emitsOn_throw _
  · refine emitsOn_bind (emitsOn_lift (emits_rpc fun _ => h _ rfl)) fun latest => ?_
    refine emitsOn_bind (emitsOn_refreshEntry h _ _ _ _ _) fun st => ?_
    refine emitsOn_bind (emitsOn_focus (emitsOn_fillWeights h _ _)) fun _ => ?_
    exact emitsOn_bind emitsOn_get fun _ => emitsOn_pure _

/-! ## Broadcasts -/

omit [External] in
theorem emits_reportQuietly {c : Option String} {o : FwdOp} (h : ∀ a, φ ⟨.fwd c o, a⟩) :
    Emits (reportQuietly c o) φ := by
  unfold reportQuietly
  refine emits_bind (emits_attempt (emits_fwd h)) fun x => ?_
  split
  · exact emits_pure _
  · split
    · exact emits_pure _
    · exact emits_throw _

omit [External] in
theorem emits_claimTookEffect (h : AllOf .read φ) (rm txHash : String) :
    Emits (claimTookEffect rm txHash) φ := by
  unfold claimTookEffect
  refine emits_bind (emits_attempt (emits_rpc fun _ => h _ rfl)) fun x => ?_
  split
  · exact emits_pure _
  · exact emits_pure _
  · exact emits_pure _
  · exact emits_throw _

omit [External] in
theorem emits_confirmClaim (h : AllOf .read φ) (hw : AllOf .report φ) (s : Settings)
    (resp : SignTransactionResponse) (bh : String) (out : OutcomeStatus → String → ClaimOutcome)
    (receipt : Receipt) : Emits (confirmClaim s resp bh out receipt) φ := by
  unfold confirmClaim
  refine emits_bind (emits_fromExcept _) fun blockNumber => ?_
  refine emits_bind (emits_fromExcept _) fun status => ?_
  refine emits_bind (emits_reportQuietly fun _ => hw _ rfl) fun _ => ?_
  split
  · exact emits_pure _
  · refine emits_bind (emits_claimTookEffect h _ _) fun took => ?_
    split <;> exact emits_pure _

omit [External] in
theorem emits_broadcastSigned {α : Type} (hb : AllOf .send φ) (hw : AllOf .report φ)
    (c : Option String) (resp : SignTransactionResponse)
    (out : OutcomeStatus → String → α) {go : String → Py α}
    (hgo : ∀ bh, Emits (go bh) φ) : Emits (broadcastSigned c resp out go) φ := by
  unfold broadcastSigned
  refine emits_bind (emits_attempt (emits_rpc fun _ => hb _ rfl)) fun x => ?_
  split
  · refine emits_bind (emits_reportQuietly fun _ => hw _ rfl) fun _ => ?_
    split <;> exact emits_pure _
  · exact emits_throw _
  · exact emits_bind (emits_reportQuietly fun _ => hw _ rfl) fun _ => hgo _

omit [External] in
theorem emits_broadcastClaim (h : AllOf .read φ) (hb : AllOf .send φ) (hw : AllOf .report φ)
    (s : Settings) (wt : Nat) (resp : SignTransactionResponse)
    (out : String → OutcomeStatus → String → ClaimOutcome) :
    Emits (broadcastClaim s wt resp out) φ := by
  refine emits_broadcastSigned hb hw _ _ _ fun bh => ?_
  refine emits_bind (emits_pollReceipt h _ _) fun receipt => ?_
  split
  · exact emits_pure _
  · exact emits_confirmClaim h hw _ _ _ _ _

theorem emits_confirmFsp (h : AllOf .read φ) (hw : AllOf .report φ) (c : Option String)
    (mt : MessageType) (epoch : Int) (resp : SignTransactionResponse) (bh : String)
    (out : OutcomeStatus → String → FspOutcome) (receipt : Receipt) :
    Emits (confirmFsp c mt epoch resp bh out receipt) φ := by
  unfold confirmFsp
  refine emits_bind (emits_fromExcept _) fun blockNumber => ?_
  refine emits_bind (emits_fromExcept _) fun status => ?_
  refine emits_bind (emits_reportQuietly fun _ => hw _ rfl) fun _ => ?_
  split
  · exact emits_bind (emits_getRevertReason h _) fun _ => emits_pure _
  · exact emits_pure _

theorem emits_broadcastAndConfirm (h : AllOf .read φ) (hb : AllOf .send φ) (hw : AllOf .report φ)
    (c : Option String) (hasRpc : Bool) (resp : SignTransactionResponse) (mt : MessageType)
    (epoch : Int) (sig : SignFspMessageResponse) (wt : Nat) :
    Emits (broadcastAndConfirm c hasRpc resp mt epoch sig wt) φ := by
  unfold broadcastAndConfirm
  dsimp only
  split
  · exact emits_pure _
  · refine emits_broadcastSigned hb hw _ _ _ fun bh => ?_
    refine emits_bind (emits_pollReceipt h _ _) fun receipt => ?_
    split
    · exact emits_pure _
    · exact emits_confirmFsp h hw _ _ _ _ _ _ _

/-! ## Signatures -/

theorem emits_submitClaims (h : AllOf .read φ) (hb : AllOf .send φ) (hw : AllOf .report φ)
    (hs : AllOf .sign φ) (s : Settings) (ct : Int) (b : String)
    (claims : List RewardClaimWithProof) (wait : Bool)
    (wt : Nat) (retry : Option String) (hasRpc : Bool) :
    Emits (submitClaims s ct b claims wait wt retry hasRpc) φ := by
  unfold submitClaims
  refine emits_bind (emits_fromExcept _) fun ct => ?_
  dsimp only
  split
  · exact emits_pure _
  split
  · exact emits_pure _
  split
  · exact emits_pure _
  refine emits_bind (emits_fromExcept _) fun data => ?_
  refine emits_bind (emits_feesOr h _) fun fees => ?_
  split
  · exact emits_pure _
  refine emits_bind (emits_attempt (emits_fwd fun _ => hs _ rfl)) fun x => ?_
  split
  · exact emits_pure _
  · exact emits_pure _
  · exact emits_throw _
  split
  · exact emits_pure _
  split
  · exact emits_pure _
  exact emits_broadcastClaim h hb hw _ _ _ _

theorem emits_submitLeg (h : AllOf .read φ) (hb : AllOf .send φ) (hw : AllOf .report φ)
    (s : Settings) (plan : LegPlan) (epoch : Int) (wait : Bool) (wt : Nat) (token : Option String)
    (hasRpc : Bool) (sig : SignFspMessageResponse)
    (hs : ∀ data fees a, plan.calldata sig = .ok data →
      φ ⟨.fwd plan.submitToken (.signTransaction (fspTxBody s data fees)
        (makeFspIdempotencyKey s.network plan.messageType epoch .submit token)), a⟩) :
    Emits (submitLeg s plan epoch wait wt token hasRpc sig) φ := by
  unfold submitLeg
  dsimp only
  cases hd : plan.calldata sig with
  | error e =>
    intro t r hr
    rcases runs_fromExcept_bind.mp hr with ⟨a, ha, -⟩ | ⟨e', -, rfl, -⟩
    · cases ha
    · simp
  | ok data =>
    intro t r hr
    rcases runs_fromExcept_bind.mp hr with ⟨a, ha, hr⟩ | ⟨e', he, -⟩
    · cases ha
      refine emits_bind (emits_feesOr h _) (fun fees => ?_) t r hr
      split
      · exact emits_pure _
      refine emits_bind (emits_attempt (emits_fwd fun _ => hs _ _ _ hd)) fun x => ?_
      split
      · exact emits_pure _
      · exact emits_pure _
      · exact emits_throw _
      split
      · exact emits_pure _
      · exact emits_broadcastAndConfirm h hb hw _ _ _ _ _ _ _
    · cases he

theorem emits_signAndSubmit (h : AllOf .read φ) (hb : AllOf .send φ) (hw : AllOf .report φ)
    (s : Settings) (plan : LegPlan) (epoch : Int) (wait : Bool) (wt : Nat) (token : Option String)
    (hasRpc : Bool) (h₁ : ∀ a, φ ⟨.fwd plan.signToken (.signFspMessage (plan.request
      (makeFspIdempotencyKey s.network plan.messageType epoch .sign token))), a⟩)
    (h₂ : ∀ sig data fees a, plan.calldata sig = .ok data →
      φ ⟨.fwd plan.submitToken (.signTransaction (fspTxBody s data fees)
        (makeFspIdempotencyKey s.network plan.messageType epoch .submit token)), a⟩) :
    Emits (signAndSubmit s plan epoch wait wt token hasRpc) φ := by
  unfold signAndSubmit
  dsimp only
  refine emits_bind (emits_attempt (emits_fwd h₁)) fun x => ?_
  split
  · exact emits_pure _
  · exact emits_pure _
  · exact emits_throw _
  · exact emits_submitLeg h hb hw s plan epoch wait wt token hasRpc _ (h₂ _)

/-! ## Orchestrators -/

/-- A run of `run_claim` is its mark and exchanges of the other kinds. -/
theorem runClaim_marked (hv : AllOf .view φ) (h : AllOf .read φ) (hb : AllOf .send φ)
    (hw : AllOf .report φ)
    (hs : AllOf .sign φ) {s : Settings} {ct : Int} {b : String} {o : Option Int} {wait : Bool}
    {wt : Nat} {retry : Option String} {t : Trace} {r : Except Exc ClaimOutcome}
    (hr : Runs (runClaim s ct b o wait wt retry) t r) :
    ∃ t', t = ⟨.called (.runClaim ct b o), ()⟩ :: t' ∧ ∀ e ∈ t', φ e := by
  obtain ⟨t', rfl, h'⟩ := runs_enter_bind.mp hr
  refine ⟨t', rfl, (?_ : Emits _ φ) t' r h'⟩
  refine emits_bind (emits_fromExcept _) fun ct => ?_
  dsimp only
  refine emits_bind (emits_attempt (emits_preflight hv s b o)) fun x => ?_
  split
  · exact emits_pure _
  · exact emits_throw _
  · exact emits_pure _
  refine emits_bind (emits_attempt (emits_collectRewardClaims hv s b _ o)) fun y => ?_
  split
  · exact emits_pure _
  · exact emits_throw _
  · split
    · exact emits_pure _
    · refine emits_bind (emits_attempt (emits_classifyClaimFrontier hv s b _)) fun z => ?_
      split
      · exact emits_pure _
      · exact emits_throw _
      · exact emits_pure _
  · exact emits_submitClaims h hb hw hs _ _ _ _ _ _ _ _

theorem emits_runClaim (hv : AllOf .view φ) (h : AllOf .read φ) (hb : AllOf .send φ)
    (hw : AllOf .report φ)
    (hs : AllOf .sign φ) (s : Settings) (ct : Int) (b : String) (o : Option Int) (wait : Bool)
    (wt : Nat) (retry : Option String) (he : φ ⟨.called (.runClaim ct b o), ()⟩) :
    Emits (runClaim s ct b o wait wt retry) φ := by
  intro t r hr
  obtain ⟨t', rfl, ht'⟩ := runClaim_marked hv h hb hw hs hr
  exact List.forall_mem_cons.mpr ⟨he, ht'⟩

/-- A run of `run_sign_uptime` is its mark and exchanges of the other kinds. -/
theorem runSignUptime_marked (h : AllOf .read φ) (hb : AllOf .send φ) (hw : AllOf .report φ)
    (hs : AllOf .sign φ) {s : Settings} {epoch : Int} {wait : Bool} {wt : Nat}
    {retry : Option String} {hasRpc : Bool} {t : Trace} {r : Except Exc FspOutcome}
    (hr : Runs (runSignUptime s epoch wait wt retry hasRpc) t r) :
    ∃ t', t = ⟨.called (.runSignUptime epoch), ()⟩ :: t' ∧ ∀ e ∈ t', φ e := by
  obtain ⟨t', rfl, h'⟩ := runs_enter_bind.mp hr
  refine ⟨t', rfl, (?_ : Emits _ φ) t' r h'⟩
  split
  · exact emits_pure _
  refine emits_bind (emits_finalizedAlready _ (emits_rpc fun _ => h _ rfl)) fun final => ?_
  split
  · exact emits_pure _
  · exact emits_signAndSubmit h hb hw _ _ _ _ _ _ _ (fun _ => hs _ rfl) (fun _ _ _ _ _ => hs _ rfl)

theorem emits_runSignUptime (h : AllOf .read φ) (hb : AllOf .send φ) (hw : AllOf .report φ)
    (hs : AllOf .sign φ) (s : Settings) (epoch : Int) (wait : Bool) (wt : Nat)
    (retry : Option String) (hasRpc : Bool) (he : φ ⟨.called (.runSignUptime epoch), ()⟩) :
    Emits (runSignUptime s epoch wait wt retry hasRpc) φ := by
  intro t r hr
  obtain ⟨t', rfl, ht'⟩ := runSignUptime_marked h hb hw hs hr
  exact List.forall_mem_cons.mpr ⟨he, ht'⟩

theorem emits_signCheckedRewards (hv : AllOf .view φ) (h : AllOf .read φ) (hb : AllOf .send φ)
    (hw : AllOf .report φ)
    (s : Settings) (epoch : Int) (rdd : RewardDistributionData) (wait : Bool) (wt : Nat)
    (retry : Option String) (hasRpc : Bool)
    (h₁ : ∀ key a, φ ⟨.fwd s.fspRewardSignCallerToken
      (.signFspMessage ((rewardsPlan s epoch rdd).request key)), a⟩)
    (h₂ : ∀ sig data fees key a, (rewardsPlan s epoch rdd).calldata sig = .ok data →
      φ ⟨.fwd s.fspRewardSubmitCallerToken (.signTransaction (fspTxBody s data fees) key), a⟩) :
    Emits (signCheckedRewards s epoch rdd wait wt retry hasRpc) φ := by
  unfold signCheckedRewards
  refine emits_bind (emits_finalizedAlready _ (emits_rpc fun _ => hv _ rfl)) fun final => ?_
  split
  · exact emits_pure _
  · exact emits_signAndSubmit h hb hw _ _ _ _ _ _ _ (fun a => h₁ _ a)
      (fun sig data fees a hd => h₂ sig data fees _ a hd)

/-- A run of `run_sign_rewards` is its mark and exchanges of the other kinds. -/
theorem runSignRewards_marked (hv : AllOf .view φ) (h : AllOf .read φ) (hb : AllOf .send φ)
    (hw : AllOf .report φ) (hs : AllOf .sign φ) {s : Settings} {epoch : Int} {wait : Bool}
    {wt : Nat} {retry : Option String} {hasRpc : Bool} {t : Trace} {r : Except Exc FspOutcome}
    (hr : Runs (runSignRewards s epoch wait wt retry hasRpc) t r) :
    ∃ t', t = ⟨.called (.runSignRewards epoch), ()⟩ :: t' ∧ ∀ e ∈ t', φ e := by
  obtain ⟨t', rfl, h'⟩ := runs_enter_bind.mp hr
  refine ⟨t', rfl, (?_ : Emits _ φ) t' r h'⟩
  dsimp only
  split
  · exact emits_pure _
  refine emits_bind (emits_getRewardDistributionData hv _ _) fun rdd => ?_
  split
  · exact emits_pure _
  split
  · exact emits_pure _
  refine emits_bind (emits_fromExcept _) fun refusal => ?_
  split
  · exact emits_pure _
  exact emits_signCheckedRewards hv h hb hw _ _ _ _ _ _ _ (fun _ _ => hs _ rfl)
    (fun _ _ _ _ _ _ => hs _ rfl)

theorem emits_runSignRewards (hv : AllOf .view φ) (h : AllOf .read φ) (hb : AllOf .send φ)
    (hw : AllOf .report φ) (hs : AllOf .sign φ) (s : Settings) (epoch : Int) (wait : Bool)
    (wt : Nat) (retry : Option String) (hasRpc : Bool)
    (he : φ ⟨.called (.runSignRewards epoch), ()⟩) :
    Emits (runSignRewards s epoch wait wt retry hasRpc) φ := by
  intro t r hr
  obtain ⟨t', rfl, ht'⟩ := runSignRewards_marked hv h hb hw hs hr
  exact List.forall_mem_cons.mpr ⟨he, ht'⟩

theorem emitsOn_ourSigned (h : AllOf .read φ) (s : Settings) (voter : String)
    (timing : Int × Int) (epoch : Int) (he : φ ⟨.called (.ourSigned epoch), ()⟩) :
    EmitsOn (ourSigned s voter timing epoch) φ := by
  unfold ourSigned
  refine emitsOn_bind (emitsOn_lift (emits_enter he)) fun _ => ?_
  split
  · refine emitsOn_bind (emitsOn_attempt (emitsOn_focus
      (emitsOn_refreshSigningProgress h _ _ _ _ _))) fun x => ?_
    split
    · exact emitsOn_pure _
    · exact emitsOn_pure _
    · exact emitsOn_throw _
  · exact emitsOn_pure _

theorem emits_uptimePhase (h : AllOf .read φ) (hb : AllOf .send φ) (hw : AllOf .report φ)
    (hs : AllOf .sign φ) (a : DriveArgs) (epoch : Int) (he : φ ⟨.called (.runSignUptime epoch),
    ()⟩) :
    Emits (uptimePhase a epoch) φ := by
  unfold uptimePhase
  split
  · refine emits_bind (emits_rpc fun _ => h _ rfl) fun hash => ?_
    split
    · refine emits_bind (emits_rpc fun _ => h _ rfl) fun info => ?_
      split
      · exact emits_bind (emits_runSignUptime h hb hw hs _ _ _ _ _ _ he) fun _ => emits_pure _
      · exact emits_pure _
    · exact emits_pure _
  · exact emits_pure _

omit [External] in
theorem emits_rewardViews (h : AllOf .view φ) (a : DriveArgs) (epoch : Int) :
    Emits (rewardViews a epoch) φ :=
  emits_bind (emits_rpc fun _ => h _ rfl) fun _ =>
    emits_bind (emits_rpc fun _ => h _ rfl) fun _ => emits_pure _

omit [External] in
theorem emitsOn_rewardState (h : AllOf .view φ) (a : DriveArgs) (epoch : Int)
    (ho : ∀ f, a.ourSignedFn = some f → EmitsOn (f epoch) φ) :
    EmitsOn (rewardState a epoch) φ := by
  unfold rewardState
  refine emitsOn_bind (emitsOn_lift (emits_attempt (emits_rewardViews h a epoch))) fun x => ?_
  split
  · exact emitsOn_pure _
  · split
    · split
      · exact emitsOn_pure _
      · rename_i f hf
        exact emitsOn_bind (ho f hf) fun _ => emitsOn_pure _
    · exact emitsOn_throw _
  · exact emitsOn_throw _

omit [External] in
theorem emitsOn_afterSign (epoch : Int) (net : Network) (actions : List Action) (ro : FspOutcome) :
    EmitsOn (afterSign epoch net actions ro) φ := by
  unfold afterSign
  dsimp only
  split
  · exact emitsOn_pure _
  · exact emitsOn_pure _
  · refine emitsOn_bind (emitsOn_modify _) fun _ => ?_
    refine emitsOn_bind emitsOn_get fun m => ?_
    split <;> exact emitsOn_pure _
  · exact emitsOn_pure _

theorem emitsOn_rewardSignPhase (hv : AllOf .view φ) (h : AllOf .read φ) (hb : AllOf .send φ)
    (hw : AllOf .report φ)
    (hs : AllOf .sign φ) (a : DriveArgs) (epoch : Int) (actions : List Action)
    (he : φ ⟨.called (.runSignRewards epoch), ()⟩) :
    EmitsOn (rewardSignPhase a epoch actions) φ := by
  unfold rewardSignPhase
  dsimp only
  split
  · exact emitsOn_pure _
  refine emitsOn_bind (emitsOn_lift (emits_getRewardDistributionData hv _ _)) fun rdd => ?_
  split
  · exact emitsOn_pure _
  refine emitsOn_bind emitsOn_get fun m => ?_
  refine emitsOn_bind (emitsOn_lift (emits_runSignRewards hv h hb hw hs _ _ _ _ _ _ he)) fun ro => ?_
  exact emitsOn_afterSign _ _ _ _

theorem emitsOn_rewardPhase (hv : AllOf .view φ) (h : AllOf .read φ) (hb : AllOf .send φ)
    (hw : AllOf .report φ)
    (hs : AllOf .sign φ) (a : DriveArgs) (epoch : Int) (actions : List Action)
    (he : φ ⟨.called (.runSignRewards epoch), ()⟩)
    (ho : ∀ f, a.ourSignedFn = some f → EmitsOn (f epoch) φ) :
    EmitsOn (rewardPhase a epoch actions) φ := by
  unfold rewardPhase
  refine emitsOn_bind (emitsOn_rewardState hv a epoch ho) fun st => ?_
  split
  · exact emitsOn_pure _
  split
  · exact emitsOn_pure _
  · exact emitsOn_rewardSignPhase hv h hb hw hs a epoch actions he

theorem emits_claimStreams (hv : AllOf .view φ) (h : AllOf .read φ) (hb : AllOf .send φ)
    (hw : AllOf .report φ)
    (hs : AllOf .sign φ) (s : Settings) (epoch : Int) :
    ∀ claimers : List (Int × String),
      (∀ c ∈ claimers, φ ⟨.called (.runClaim c.1 c.2 (some epoch)), ()⟩) →
        Emits (claimStreams s epoch claimers) φ
  | [], _ => emits_pure _
  | c :: rest, he =>
    emits_bind (emits_runClaim hv h hb hw hs _ _ _ _ _ _ _ (he c (by simp))) fun _ =>
      emits_bind (emits_claimStreams hv h hb hw hs s epoch rest fun d hd =>
        he d (List.mem_cons_of_mem _ hd)) fun _ => emits_pure _

end

end Clif
