import Clif.FwdContract
import Clif.NonceRelease
import Clif.PhaseSafety

/-!
# VoteRun — the reward vote of one drive

`voteOf` takes the exchanges of `run_sign_rewards` out of a drive.  Every signing request in them is
made under the key of the drive's discriminator, only what was signed is sent, and a vote that will
be tried again either stalled before it had a transaction or was rejected for its nonce.
-/

namespace Clif

open Effect

/-! ## The exchanges of a vote -/

/-- The exchanges of `run_sign_rewards` in a drive: from its mark to the next one. -/
def voteOf (epoch : Int) (t : Trace) : Trace :=
  ((t.dropWhile fun e => e.op != signEntry epoch).drop 1).takeWhile fun e => e.op.kind != .entry

/-- A trace that is over, or goes on with a mark. -/
def Marked (t : Trace) : Prop := ∀ e t', t = e :: t' → e.op.kind = .entry

theorem voteOf_none {epoch : Int} {t : Trace} (h : ∀ e ∈ t, e.op ≠ signEntry epoch) :
    voteOf epoch t = [] := by
  have hdrop : ((t ++ []).dropWhile fun e : Event sig => e.op != signEntry epoch) = [] :=
    List.dropWhile_append_of_pos fun e he => by simpa using h e he
  rw [List.append_nil] at hdrop
  rw [voteOf, hdrop]
  rfl

theorem voteOf_split {epoch : Int} {x y z : Trace} (hx : ∀ e ∈ x, e.op ≠ signEntry epoch)
    (hy : ∀ e ∈ y, e.op.kind ≠ .entry) (hz : Marked z) :
    voteOf epoch (x ++ ⟨signEntry epoch, ()⟩ :: (y ++ z)) = y := by
  have hdrop : ((x ++ ⟨signEntry epoch, ()⟩ :: (y ++ z)).dropWhile fun e =>
      e.op != signEntry epoch) = ⟨signEntry epoch, ()⟩ :: (y ++ z) := by
    rw [List.dropWhile_append_of_pos fun e he => by simpa using hx e he]
    exact List.dropWhile_cons_of_neg (by simp)
  have hnil : (z.takeWhile fun e => e.op.kind != .entry) = [] := by
    cases z with
    | nil => rfl
    | cons e z => exact List.takeWhile_cons_of_neg (by simp [hz e z rfl])
  rw [voteOf, hdrop]
  show (y ++ z).takeWhile _ = y
  rw [List.takeWhile_append_of_pos fun e he => by simpa using hy e he, hnil, List.append_nil]

section

variable [External]

/-! ## The requests of a vote -/

/-- The key of leg 2 of the reward vote. -/
def voteKey (s : Settings) (epoch : Int) (token : Option String) : CallerKey :=
  (s.fspRewardSubmitCallerToken,
    makeFspIdempotencyKey s.network .rewardDistribution epoch .submit token)

/-- Every transaction is asked for under this key. -/
def Keyed (key : CallerKey) (e : Event sig) : Prop :=
  ∀ c body k ans, e = (⟨.fwd c (.signTransaction body k), ans⟩ : Event sig) → (c, k) = key

omit [External] in
theorem keyed_of_kind {key : CallerKey} {e : Event sig} (h : e.op.kind ≠ .sign) : Keyed key e := by
  rintro c body k ans rfl
  exact absurd rfl h

omit [External] in
theorem allOf_keyed {k : OpKind} (hk : k ≠ .sign) (key : CallerKey) : AllOf k (Keyed key) :=
  fun e he => keyed_of_kind (by rw [he]; exact hk)

theorem emits_runSignRewards_keyed (s : Settings) (epoch : Int) (wait : Bool) (wt : Nat)
    (retry : Option String) (hasRpc : Bool) :
    Emits (runSignRewards s epoch wait wt retry hasRpc)
      (Keyed (voteKey s epoch (retryToken retry s.fspIdempotencyRetry))) := by
  have hview := allOf_keyed (k := .view) (by decide)
    (voteKey s epoch (retryToken retry s.fspIdempotencyRetry))
  have hread := allOf_keyed (k := .read) (by decide)
    (voteKey s epoch (retryToken retry s.fspIdempotencyRetry))
  unfold runSignRewards
  refine emits_bind (emits_enter (keyed_of_kind (by simp [Op.kind]))) fun _ => ?_
  dsimp only
  split
  · exact emits_pure _
  refine emits_bind (emits_getRewardDistributionData hview _ _) fun rdd => ?_
  split
  · exact emits_pure _
  rename_i rdd
  split
  · exact emits_pure _
  refine emits_bind (emits_fromExcept _) fun refusal => ?_
  split
  · exact emits_pure _
  unfold signCheckedRewards
  refine emits_bind (emits_finalizedAlready hasRpc (emits_rpc fun _ => hview _ rfl)) fun fin => ?_
  split
  · exact emits_pure _
  unfold signAndSubmit
  refine emits_bind (emits_attempt (emits_fwd fun a => by rintro c body k ans h; cases h))
    fun x => ?_
  split
  · exact emits_pure _
  · exact emits_pure _
  · exact emits_throw _
  unfold submitLeg
  refine emits_bind (emits_fromExcept _) fun data => ?_
  refine emits_bind (emits_feesOr hread hasRpc) fun fees => ?_
  split
  · exact emits_pure _
  refine emits_bind (emits_attempt (emits_fwd fun a => ?_)) fun y => ?_
  · rintro c body k ans h
    cases h
    rfl
  · split
    · exact emits_pure _
    · exact emits_pure _
    · exact emits_throw _
    · split
      · exact emits_pure _
      · exact emits_broadcastAndConfirm hread (allOf_keyed (by decide) _)
          (allOf_keyed (by decide) _) _ _ _ _ _ _ _

/-! ## A vote that will be tried again -/

/-- The vote fails before it has a transaction, and will be tried again: `fwd` is not ready for one
of the legs or has another body under the key, or the fees cannot be told. -/
inductive Stalled (t : Trace) : Prop
  | leg1 {c : Option String} {req : SignFspRequest} {st : Int} {code text : String}
      (h : (⟨.fwd c (.signFspMessage req), .error (.fwdRetryable st code text)⟩ : Event sig) ∈ t)
  | fees {c : Option String} {req : SignFspRequest} {resp : SignFspMessageResponse}
      (h : (⟨.fwd c (.signFspMessage req), .ok resp⟩ : Event sig) ∈ t)
      (hno : ∀ e ∈ t, signRequest e = none)
  | leg2 {c : Option String} {body : TxBody} {key : String} {e : Exc}
      (h : (⟨.fwd c (.signTransaction body key), .error e⟩ : Event sig) ∈ t)
      (he : e.isConflict = true ∨ ∃ st code text, e = .fwdRetryable st code text)

omit [External] in
theorem Stalled.mono {t u : Trace} (h : Stalled t) (hsub : ∀ e ∈ t, e ∈ u)
    (hun : ∀ e ∈ u, e ∉ t → signRequest e = none) : Stalled u := by
  cases h with
  | leg1 h => exact .leg1 (hsub _ h)
  | leg2 h he => exact .leg2 (hsub _ h) he
  | fees h hno =>
    refine .fees (hsub _ h) fun e he => ?_
    by_cases hmem : e ∈ t
    · exact hno e hmem
    · exact hun e he hmem

/-- The node does not take the transaction, nor has it: it rejects it for another reason than that
it knows it, or says that the nonce is used. -/
def SaysRejected (reply : Reply String) : Prop :=
  (∃ err, reply = .error err ∧ alreadyKnown err = false) ∨
    ∃ msg, rpcResult "eth_sendRawTransaction" reply = .error (.rpcError msg) ∧
      classifyBroadcastError msg = .rejectedNonceTooLow

/-- The last broadcast of the vote was rejected. -/
def EndsRejected (t : Trace) : Prop :=
  ∃ t₁ resp reply t₂, t = t₁ ++ ⟨.rpc (.sendRawTransaction resp.signedRawTx), reply⟩ :: t₂ ∧
    (∀ e ∈ t₂, e.op.kind ≠ .send) ∧ SaysRejected reply ∧ ∃ e ∈ t, signedOf e = some resp

omit [External] in
theorem EndsRejected.prepend {u t : Trace} (h : EndsRejected t) : EndsRejected (u ++ t) := by
  obtain ⟨t₁, resp, reply, t₂, rfl, hsend, hrej, e, he, hresp⟩ := h
  exact ⟨u ++ t₁, resp, reply, t₂, by simp, hsend, hrej, e, List.mem_append_right _ he, hresp⟩

omit [External] in
theorem signedOf_eq_none {e : Event sig} (h : signRequest e = none) : signedOf e = none := by
  unfold signedOf
  split
  · cases h
  · rfl

/-- How a vote to be tried again ended: it stalled and nothing was signed, or the broadcast of the
transaction was rejected. -/
def Retried (t : Trace) : Prop :=
  (Stalled t ∧ ∀ e ∈ t, signedOf e = none) ∨ EndsRejected t

omit [External] in
/-- The mark of the vote tells nothing. -/
theorem Retried.tail {epoch : Int} {t : Trace} (h : Retried (⟨signEntry epoch, ()⟩ :: t)) :
    Retried t := by
  have hmem : ∀ {e : Event sig}, e.op ≠ signEntry epoch → e ∈ ⟨signEntry epoch, ()⟩ :: t →
      e ∈ t := by
    intro e hne he
    rcases List.mem_cons.mp he with rfl | he
    · exact absurd rfl hne
    · exact he
  rcases h with ⟨hst, hun⟩ | ⟨t₁, resp, reply, t₂, ht, hsend, hrej, e, he, hresp⟩
  · refine Or.inl ⟨?_, fun e he => hun e (List.mem_cons_of_mem _ he)⟩
    cases hst with
    | leg1 h => exact .leg1 (hmem (by simp [signEntry]) h)
    | fees h hno =>
      exact .fees (hmem (by simp [signEntry]) h) fun e he => hno e (List.mem_cons_of_mem _ he)
    | leg2 h he => exact .leg2 (hmem (by simp [signEntry]) h) he
  · cases t₁ with
    | nil => cases ht
    | cons e₁ t₁ =>
      obtain ⟨-, rfl⟩ := List.cons.inj ht
      refine Or.inr ⟨t₁, resp, reply, t₂, rfl, hsend, hrej, e, hmem ?_ he, hresp⟩
      rintro hop
      obtain ⟨op, ans⟩ := e
      subst hop
      cases hresp

omit [External] in
/-- Exchanges without a request before the vote. -/
theorem Retried.prepend {u t : Trace} (hu : ∀ e ∈ u, signRequest e = none) (h : Retried t) :
    Retried (u ++ t) := by
  refine h.imp (fun h => ⟨?_, fun e he => ?_⟩) fun h => h.prepend
  · refine h.1.mono (fun e he => List.mem_append_right _ he) fun e he hno => ?_
    rcases List.mem_append.mp he with he | he
    · exact hu e he
    · exact absurd he hno
  · rcases List.mem_append.mp he with he | he
    · exact signedOf_eq_none (hu e he)
    · exact h.2 e he

omit [External] in
theorem classifyRevert_settled (mt : MessageType) (epoch : Int) (reason : Option String) :
    (classifyRevert mt epoch reason).1 ≠ .failedRetryable := by
  unfold classifyRevert
  split
  · cases mt <;> simp
  · split <;> simp

/-- After an accepted broadcast nothing is tried again. -/
theorem followFsp_settled {caller : Option String} {mt : MessageType} {epoch : Int} {wt : Nat}
    {resp : SignTransactionResponse} {out : String → OutcomeStatus → String → FspOutcome}
    {bh : String} {t : Trace} {o : FspOutcome} (hout : ∀ h st d, (out h st d).status = st)
    (h : Runs (followFsp caller mt epoch wt resp out bh) t (.ok o)) :
    o.status ≠ .failedRetryable := by
  rcases runs_pollReceipt_bind h with ⟨e, -, he⟩ | ⟨x, t₁, t₂, rfl, -, h'⟩
  · cases he
  cases x with
  | none =>
    obtain ⟨-, ho⟩ := runs_pure.mp h'
    cases ho
    rw [hout]
    decide
  | some receipt =>
    unfold confirmFsp at h'
    rcases runs_fromExcept_bind.mp h' with ⟨block, -, h'⟩ | ⟨e, -, -, he⟩
    swap
    · cases he
    rcases runs_fromExcept_bind.mp h' with ⟨status, -, h'⟩ | ⟨e, -, -, he⟩
    swap
    · cases he
    obtain ⟨ans, t', -, ⟨-, h'⟩ | ⟨e, -, -, he⟩⟩ := runs_reportQuietly_bind.mp h'
    swap
    · cases he
    split at h'
    · rcases runs_bind.mp h' with ⟨reason, t₃, t₄, -, -, h''⟩ | ⟨e, -, he⟩
      · obtain ⟨-, ho⟩ := runs_pure.mp h''
        cases ho
        rw [hout]
        exact classifyRevert_settled mt epoch reason
      · cases he
    · obtain ⟨-, ho⟩ := runs_pure.mp h'
      cases ho
      rw [hout]
      decide

/-- A signed vote is tried again only if its broadcast was rejected. -/
theorem DeliversFsp.retried {caller : Option String} {mt : MessageType} {epoch : Int} {wt : Nat}
    {resp : SignTransactionResponse} {e : Event sig} {t : Trace} {o : FspOutcome}
    (he : signedOf e = some resp) (h : DeliversFsp caller mt epoch wt resp t (.ok o))
    (ho : o.status = .failedRetryable) : EndsRejected (e :: t) := by
  obtain ⟨out, hout, h⟩ := h
  generalize hr : Except.ok o = r at h
  cases h with
  | broken => cases hr
  | @rejected reply msg ans o' hreply hans hst =>
    cases hr
    have hlow : classifyBroadcastError msg = .rejectedNonceTooLow := by
      have heq := hst _ rfl
      rw [ho] at heq
      cases hc : classifyBroadcastError msg <;> rw [hc] at heq <;> first | rfl | cases heq
    exact ⟨[e], resp, reply, _, rfl, by simp [Op.kind], Or.inr ⟨msg, hreply, hlow⟩, e,
      List.mem_cons_self .., he⟩
  | rejectedRaised hreply hans => cases hr
  | acceptedRaised hans => cases hr
  | accepted hans h =>
    cases hr
    exact absurd ho (followFsp_settled hout h)

/-- Both legs: a vote to be tried again stalled, or its broadcast was rejected. -/
theorem signAndSubmit_retried {s : Settings} {plan : LegPlan} {epoch : Int} {wt : Nat}
    {token : Option String} {t : Trace} {o : FspOutcome}
    (h : Runs (signAndSubmit s plan epoch true wt token true) t (.ok o))
    (ho : o.status = .failedRetryable) : Retried t := by
  obtain ⟨x, t', rfl, h'⟩ := runs_attempt_fwd_bind.mp h
  cases x with
  | error exc =>
    cases exc with
    | fwdTerminal st code text =>
      obtain ⟨-, heq⟩ := runs_pure.mp h'
      cases heq
      cases ho
    | fwdRetryable st code text =>
      obtain ⟨rfl, -⟩ := runs_pure.mp h'
      exact Or.inl ⟨.leg1 (List.mem_cons_self ..), by simp [signedOf]⟩
    | _ => cases (runs_throw.mp h').2
  | ok sig' =>
    unfold submitLeg at h'
    rcases runs_fromExcept_bind.mp h' with ⟨data, -, h'⟩ | ⟨e, -, -, he⟩
    swap
    · cases he
    rcases runs_bind.mp h' with ⟨fees, t₁, t₂, rfl, h₁, h₂⟩ | ⟨e, -, he⟩
    swap
    · cases he
    have hearly := emits_feesOr_early true _ _ h₁
    split at h₂
    · obtain ⟨rfl, -⟩ := runs_pure.mp h₂
      rw [List.append_nil]
      have hun : ∀ e ∈ (⟨.fwd plan.signToken (.signFspMessage (plan.request
          (makeFspIdempotencyKey s.network plan.messageType epoch .sign token))), .ok sig'⟩ ::
          t₁ : Trace), signRequest e = none :=
        List.forall_mem_cons.mpr ⟨rfl, fun e he => (hearly e he).unasked⟩
      exact Or.inl ⟨.fees (List.mem_cons_self ..) hun, fun e he => signedOf_eq_none (hun e he)⟩
    · obtain ⟨y, t₃, rfl, h₃⟩ := runs_attempt_fwd_bind.mp h₂
      rw [← List.cons_append]
      cases y with
      | error exc =>
        have hun : ∀ {e₁ e₂ : Event sig}, signedOf e₁ = none → signedOf e₂ = none →
            ∀ e ∈ e₁ :: t₁ ++ [e₂], signedOf e = none := by
          intro e₁ e₂ he₁ he₂ e he
          rcases List.mem_append.mp he with he | he
          · rcases List.mem_cons.mp he with rfl | he
            · exact he₁
            · exact (hearly e he).unsigned
          · rw [List.mem_singleton.mp he]
            exact he₂
        cases exc with
        | fwdTerminal st code text =>
          obtain ⟨rfl, heq⟩ := runs_pure.mp h₃
          cases heq
          refine Or.inl ⟨.leg2 (List.mem_append_right _ (List.mem_cons_self ..)) (Or.inl ?_),
            hun rfl rfl⟩
          by_contra hno
          have hcode : code ≠ "idempotency_conflict" := by simpa [Exc.isConflict] using hno
          have hst : (leg2Refusal st code text).1 = .failedRetryable := ho
          rw [leg2Refusal, if_neg hcode] at hst
          cases hst
        | fwdRetryable st code text =>
          obtain ⟨rfl, -⟩ := runs_pure.mp h₃
          exact Or.inl ⟨.leg2 (List.mem_append_right _ (List.mem_cons_self ..))
            (Or.inr ⟨st, code, text, rfl⟩), hun rfl rfl⟩
        | _ => cases (runs_throw.mp h₃).2
      | ok resp =>
        have hb : Runs (broadcastAndConfirm plan.submitToken true resp plan.messageType epoch sig'
            wt) t₃ (.ok o) := h₃
        rcases broadcastAndConfirm_delivers hb with ⟨hno, -⟩ | ⟨-, hd⟩
        · cases hno
        · exact Or.inr (hd.retried rfl ho).prepend

theorem runSignRewards_retried {s : Settings} {epoch : Int} {wt : Nat} {retry : Option String}
    {t : Trace} {o : FspOutcome} (h : Runs (runSignRewards s epoch true wt retry true) t (.ok o))
    (ho : o.status = .failedRetryable) : Retried t := by
  have hread : AllOf .view fun e => signRequest e = none :=
    fun e he => signRequest_eq_none (by rw [he]; decide)
  obtain ⟨t', rfl, h'⟩ := runs_enter_bind.mp h
  refine Retried.prepend (u := [_]) (by simp [signRequest]) ?_
  dsimp only at h'
  split at h'
  · rename_i err hcfg
    obtain ⟨-, heq⟩ := runs_pure.mp h'
    cases heq
    rw [checkFspConfig_status hcfg] at ho
    cases ho
  rcases runs_bind.mp h' with ⟨f, t₁, t₂, rfl, h₁, h₂⟩ | ⟨e, -, he⟩
  swap
  · cases he
  refine Retried.prepend (emits_getRewardDistributionData hread s epoch _ _ h₁) ?_
  split at h₂
  · obtain ⟨-, heq⟩ := runs_pure.mp h₂
    cases heq
    cases ho
  split at h₂
  · obtain ⟨-, heq⟩ := runs_pure.mp h₂
    cases heq
    cases ho
  rcases runs_fromExcept_bind.mp h₂ with ⟨refusal, -, h₃⟩ | ⟨e, -, -, he⟩
  swap
  · cases he
  split at h₃
  · obtain ⟨-, heq⟩ := runs_pure.mp h₃
    cases heq
    cases ho
  rcases runs_bind.mp h₃ with ⟨fin, t₃, t₄, rfl, h₄, h₅⟩ | ⟨e, -, he⟩
  swap
  · cases he
  refine Retried.prepend (emits_finalizedAlready true (emits_rpc fun _ => hread _ rfl) _ _ h₄) ?_
  split at h₅
  · obtain ⟨-, heq⟩ := runs_pure.mp h₅
    cases heq
    cases ho
  · exact signAndSubmit_retried h₅ ho

/-! ## What is sent -/

/-- Only transactions that `fwd` signed before are sent. -/
def SendsSigned (t : Trace) : Prop :=
  ∀ raw reply, (⟨.rpc (.sendRawTransaction raw), reply⟩ : Event sig) ∈ t →
    ∃ e ∈ t, ∃ resp, signedOf e = some resp ∧ resp.signedRawTx = raw

theorem runSignRewards_sends {s : Settings} {epoch : Int} {wt : Nat} {retry : Option String}
    {t : Trace} {r : Except Exc FspOutcome}
    (h : Runs (runSignRewards s epoch true wt retry true) t r) : SendsSigned t := by
  have hfollow : ∀ {resp : SignTransactionResponse}
      {out : String → OutcomeStatus → String → FspOutcome} (bh : String),
      Emits (followFsp s.fspRewardSubmitCallerToken .rewardDistribution epoch wt resp out bh)
        fun e => e.op.kind ≠ .send := by
    intro resp out bh
    refine emits_bind (emits_pollReceipt (AllOf.ne (by decide)) _ _) fun receipt => ?_
    split
    · exact emits_pure _
    · exact emits_confirmFsp (AllOf.ne (by decide)) (AllOf.ne (by decide)) _ _ _ _ _ _ _
  intro raw reply he
  have hunsent : ∀ {u : Trace}, (∀ e ∈ u, Early e) →
      (⟨.rpc (.sendRawTransaction raw), reply⟩ : Event sig) ∉ u := fun hu hmem =>
    (hu _ hmem).send rfl
  cases runSignRewards_submission h with
  | early ht hok herr => exact absurd he (hunsent ht)
  | refused hpre hexc hk hok herr =>
    rcases List.mem_append.mp he with he | he
    · exact absurd he (hunsent hpre)
    · rw [← List.mem_singleton.mp he] at hk
      cases hk
  | kept hpre hresp hsends ho => cases hsends
  | @sent pre t e resp r hpre hresp hsends hd =>
    obtain ⟨out, -, hd⟩ := hd
    refine ⟨e, by simp, resp, hresp, ?_⟩
    rcases List.mem_append.mp he with he | he
    · exact absurd he (hunsent hpre)
    · rcases List.mem_cons.mp he with he | he
      · subst he
        cases hresp
      · exact hd.sends hfollow he

/-! ## The vote of a drive -/

/-- The callback `our_signed_fn` checks the chain and leaves the retry counts alone. -/
structure DriveArgs.Watches (a : DriveArgs) : Prop where
  keyless : a.Keyless
  counts : ∀ f, a.ourSignedFn = some f → ∀ epoch m t r m', RunsOn (f epoch) m t r m' →
    m'.retryCounts = m.retryCounts

/-- The discriminator a drive signs under. -/
def driveToken (a : DriveArgs) (m : Mem) (epoch : Int) : Option String :=
  signRetryToken a.settings.fspIdempotencyRetry (m.retries epoch)

/-- The count of retries after a vote. -/
def countAfter (n : Int) : Except Exc FspOutcome → Int
  | .ok ro => if ro.status = .failedRetryable then n + 1 else n
  | .error _ => n

omit [External] in
theorem countAfter_retried {n : Int} {ro : FspOutcome} (h : ro.status = .failedRetryable) :
    countAfter n (.ok ro) = n + 1 := if_pos h

omit [External] in
theorem countAfter_settled {n : Int} {ro : FspOutcome} (h : ro.status ≠ .failedRetryable) :
    countAfter n (.ok ro) = n := if_neg h

omit [External] in
/-- The count changes only after a vote to be tried again. -/
theorem countAfter_ne {n : Int} {vote : Except Exc FspOutcome} (h : countAfter n vote ≠ n) :
    ∃ ro, vote = .ok ro ∧ ro.status = .failedRetryable := by
  cases vote with
  | error e => exact absurd rfl h
  | ok ro =>
    refine ⟨ro, rfl, ?_⟩
    by_contra hno
    exact h (countAfter_settled hno)

omit [External] in
theorem Mem.retries_bump (m : Mem) (epoch : Int) : (m.bump epoch).retries epoch =
    m.retries epoch + 1 := by
  simp [Mem.bump, Mem.retries]

omit [External] in
theorem afterSign_counts {epoch : Int} {net : Network} {actions : List Action} {ro : FspOutcome}
    {m m' : Mem} {t : Trace} {r : Except Exc (Except EpochObs (List Action))}
    (h : RunsOn (afterSign epoch net actions ro) m t r m') :
    t = [] ∧ m'.retries epoch = countAfter (m.retries epoch) (.ok ro) := by
  refine ⟨(afterSign_goes h).1, ?_⟩
  unfold afterSign at h
  dsimp only at h
  split at h
  · rename_i hst
    rw [(runsOn_pure.mp h).2.2, countAfter_settled (by rw [hst]; decide)]
  · rename_i hst
    rw [(runsOn_pure.mp h).2.2, countAfter_settled (by rw [hst]; decide)]
  · rename_i hst
    have h₁ := runsOn_modify_bind.mp h
    have h₂ := runsOn_get_bind.mp h₁
    rw [countAfter_retried hst, ← Mem.retries_bump]
    split at h₂
    · rw [(runsOn_pure.mp h₂).2.2]
    · rw [(runsOn_pure.mp h₂).2.2]
  · rename_i hno
    rw [(runsOn_pure.mp h).2.2, countAfter_settled hno]

/-- A drive votes at most once, under its discriminator, and counts a vote to be tried again. -/
inductive Votes (a : DriveArgs) (epoch : Int) (m m' : Mem) (t : Trace) : Prop
  | none (hno : ∀ e ∈ t, e.op ≠ signEntry epoch) (hm : m'.retries epoch = m.retries epoch)
  | voted {x y z : Trace} {vote : Except Exc FspOutcome}
      (ht : t = x ++ ⟨signEntry epoch, ()⟩ :: (y ++ z)) (hx : ∀ e ∈ x, e.op ≠ signEntry epoch)
      (hz : Marked z)
      (hrun : Runs (runSignRewards a.settings epoch true 600 (driveToken a m epoch) true)
        (⟨signEntry epoch, ()⟩ :: y) vote)
      (hm : m'.retries epoch = countAfter (m.retries epoch) vote)

theorem rewardSignPhase_votes {a : DriveArgs} {epoch : Int} {actions : List Action} {m m' : Mem}
    {t : Trace} {r : Except Exc (Except EpochObs (List Action))}
    (h : RunsOn (rewardSignPhase a epoch actions) m t r m') :
    ((∀ e ∈ t, Quiet e) ∧ m'.retries epoch = m.retries epoch) ∨
      ∃ e y vote, Quiet e ∧ t = e :: y ∧
        Runs (runSignRewards a.settings epoch true 600 (driveToken a m epoch) true) y vote ∧
        m'.retries epoch = countAfter (m.retries epoch) vote := by
  unfold rewardSignPhase at h
  dsimp only at h
  split at h
  · obtain ⟨rfl, rfl, rfl⟩ := runsOn_pure.mp h
    exact Or.inl ⟨by simp, rfl⟩
  rcases runsOn_lift_bind.mp h with ⟨x, t₁, t₂, rfl, h₁, h₂⟩ | ⟨e, h₁, -⟩
  swap
  · obtain ⟨f, -, he⟩ := runs_getRewardDistributionData.mp h₁
    cases he
  obtain ⟨f, rfl, hx⟩ := runs_getRewardDistributionData.mp h₁
  have hq : Quiet ⟨.readRewardDistributionData a.settings.network epoch, f⟩ :=
    quiet_of_kind (by simp [Op.kind])
  split at h₂
  · obtain ⟨rfl, rfl, rfl⟩ := runsOn_pure.mp h₂
    exact Or.inl ⟨by simpa using hq, rfl⟩
  have h₃ := runsOn_get_bind.mp h₂
  refine Or.inr ⟨⟨.readRewardDistributionData a.settings.network epoch, f⟩, t₂, ?_⟩
  rcases runsOn_lift_bind.mp h₃ with ⟨ro, t₃, t₄, rfl, h₄, h₅⟩ | ⟨e, h₄, rfl, rfl⟩
  · obtain ⟨rfl, hm⟩ := afterSign_counts h₅
    rw [List.append_nil]
    exact ⟨.ok ro, hq, rfl, h₄, hm⟩
  · exact ⟨.error e, hq, rfl, h₄, rfl⟩

omit [External] in
theorem rewardState_counts [External] {a : DriveArgs} (ha : a.Watches) {epoch : Int} {m m' : Mem}
    {t : Trace} {r : Except Exc (Bool × Bool)} (h : RunsOn (rewardState a epoch) m t r m') :
    m'.retryCounts = m.retryCounts := by
  unfold rewardState at h
  rcases runsOn_lift_bind.mp h with ⟨y, t₁, t₂, rfl, h₁, h₂⟩ | ⟨e, h₁, -, rfl⟩
  swap
  · rfl
  split at h₂
  · rw [(runsOn_pure.mp h₂).2.2]
  · split at h₂
    · split at h₂
      · rw [(runsOn_pure.mp h₂).2.2]
      · rename_i g hg
        rcases runsOn_bind.mp h₂ with ⟨signed, t₃, t₄, m₁, rfl, h₃, h₄⟩ | ⟨e, h₃, -⟩
        · rw [(runsOn_pure.mp h₄).2.2]
          exact ha.counts g hg _ _ _ _ _ h₃
        · exact ha.counts g hg _ _ _ _ _ h₃
    · rw [(runsOn_throw.mp h₂).2.2]
  · rw [(runsOn_throw.mp h₂).2.2]

theorem marked_claimStreams {s : Settings} {epoch : Int} {claimers : List (Int × String)}
    {t : Trace} {r : Except Exc (List ClaimOutcome)}
    (h : Runs (claimStreams s epoch claimers) t r) :
    Marked t ∧ ∀ e ∈ t, e.op ≠ signEntry epoch := by
  refine ⟨?_, ?_⟩
  · cases claimers with
    | nil =>
      obtain ⟨rfl, -⟩ := runs_pure.mp h
      intro e t' ht
      cases ht
    | cons c rest =>
      have hhead : ∀ {u : Trace} {x : Except Exc ClaimOutcome},
          Runs (runClaim s c.1 c.2 (some epoch) true 600 none) u x →
          ∃ u', u = ⟨.called (.runClaim c.1 c.2 (some epoch)), ()⟩ :: u' := by
        intro u x hu
        obtain ⟨u', rfl, -⟩ := runs_enter_bind.mp hu
        exact ⟨u', rfl⟩
      intro e t' ht
      rcases runs_bind.mp h with ⟨co, t₁, t₂, rfl, h₁, h₂⟩ | ⟨e', h₁, -⟩
      · obtain ⟨u', rfl⟩ := hhead h₁
        cases ht
        rfl
      · obtain ⟨u', rfl⟩ := hhead h₁
        cases ht
        rfl
  · have hne : ∀ {k : OpKind}, k ≠ .entry → AllOf k fun e => e.op ≠ signEntry epoch := by
      intro k hk e he hop
      rw [hop] at he
      exact hk he.symm
    exact emits_claimStreams (hne (by decide)) (hne (by decide)) (hne (by decide))
      (hne (by decide)) (hne (by decide)) s epoch claimers (fun _ _ => by simp [signEntry]) _ _ h

/-- What a drive does with the vote of its epoch. -/
theorem driveEpoch_votes {a : DriveArgs} (ha : a.Watches) {epoch : Int} {m m' : Mem} {t : Trace}
    {r : Except Exc EpochObs} (h : RunsOn (driveEpoch a epoch) m t r m') :
    Votes a epoch m m' t := by
  have hsign : ∀ {u : Trace}, (∀ e ∈ u, Quiet e) → ∀ e ∈ u, e.op ≠ signEntry epoch :=
    fun hu e he => (hu e he).sign epoch
  have happ : ∀ {u v : Trace}, (∀ e ∈ u, e.op ≠ signEntry epoch) →
      (∀ e ∈ v, e.op ≠ signEntry epoch) → ∀ e ∈ u ++ v, e.op ≠ signEntry epoch := by
    intro u v hu hv e he
    rcases List.mem_append.mp he with he | he
    · exact hu e he
    · exact hv e he
  obtain ⟨t', rfl, h'⟩ := runsOn_enter_bind.mp h
  have hmark : ∀ e ∈ ([⟨.called (.driveEpoch epoch), ()⟩] : Trace), e.op ≠ signEntry epoch := by
    simp [signEntry]
  rw [← List.singleton_append]
  rcases runsOn_lift_bind.mp h' with ⟨actions, t₁, t₂, rfl, h₁, h₂⟩ | ⟨e, h₁, -, rfl⟩
  swap
  · exact .none (happ hmark (hsign (quiet_uptimePhase a epoch _ _ h₁))) rfl
  have hpre := happ hmark (hsign (quiet_uptimePhase a epoch _ _ h₁))
  rw [← List.append_assoc]
  -- the reward phase, with the claims that may follow it
  suffices hphase : ∀ {u z : Trace} {m₁ : Mem} {x : Except Exc (Except EpochObs (List Action))},
      RunsOn (rewardPhase a epoch actions) m u x m₁ → Marked z →
      (∀ e ∈ z, e.op ≠ signEntry epoch) →
      Votes a epoch m m₁ ([⟨.called (.driveEpoch epoch), ()⟩] ++ t₁ ++ (u ++ z)) by
    rcases runsOn_bind.mp h₂ with ⟨x, t₃, t₄, m₁, rfl, h₃, h₄⟩ | ⟨e, h₃, -⟩
    swap
    · have hend := hphase (z := []) h₃ (by rintro e t' ht; cases ht) (by simp)
      rwa [List.append_nil] at hend
    · split at h₄
      · obtain ⟨rfl, -, rfl⟩ := runsOn_pure.mp h₄
        exact hphase h₃ (by rintro e t' ht; cases ht) (by simp)
      · rcases runsOn_lift_bind.mp h₄ with ⟨cos, t₅, t₆, rfl, h₅, h₆⟩ | ⟨e, h₅, -, rfl⟩
        · obtain ⟨rfl, -, rfl⟩ := runsOn_pure.mp h₆
          rw [List.append_nil]
          exact hphase h₃ (marked_claimStreams h₅).1 (marked_claimStreams h₅).2
        · exact hphase h₃ (marked_claimStreams h₅).1 (marked_claimStreams h₅).2
  intro u z m₁ x hu hz hzs
  unfold rewardPhase at hu
  rcases runsOn_bind.mp hu with ⟨st, ts, tg, m₂, rfl, h₃, h₄⟩ | ⟨e, h₃, -⟩
  swap
  · refine .none (happ hpre (happ (hsign (rewardState_read ha.keyless h₃).1) hzs)) ?_
    rw [Mem.retries, rewardState_counts ha h₃]
    rfl
  have hq := hsign (rewardState_read ha.keyless h₃).1
  have hcount : m₂.retries epoch = m.retries epoch := by
    rw [Mem.retries, rewardState_counts ha h₃]
    rfl
  split at h₄
  · obtain ⟨rfl, -, rfl⟩ := runsOn_pure.mp h₄
    rw [List.append_nil]
    exact .none (happ hpre (happ hq hzs)) hcount
  split at h₄
  · obtain ⟨rfl, -, rfl⟩ := runsOn_pure.mp h₄
    rw [List.append_nil]
    exact .none (happ hpre (happ hq hzs)) hcount
  rcases rewardSignPhase_votes h₄ with ⟨hquiet, hm⟩ | ⟨e, y, vote, he, rfl, hrun, hm⟩
  · exact .none (happ hpre (happ (happ hq (hsign hquiet)) hzs)) (hm.trans hcount)
  · obtain ⟨y', rfl, hy'⟩ := runs_enter_bind.mp hrun
    have htoken : driveToken a m₂ epoch = driveToken a m epoch := by
      rw [driveToken, hcount, driveToken]
    rw [htoken] at hrun
    rw [hcount] at hm
    refine .voted (x := [⟨.called (.driveEpoch epoch), ()⟩] ++ t₁ ++ (ts ++ [e])) (z := z) ?_
      (happ hpre (happ hq (List.forall_mem_singleton.mpr (he.sign epoch)))) hz hrun hm
    simp [signEntry]

/-- What the vote of a drive asks for, sends and counts. -/
structure VoteFacts (a : DriveArgs) (epoch : Int) (m m' : Mem) (vote : Trace) : Prop where
  keyed : ∀ e ∈ vote, Keyed (voteKey a.settings epoch
    (retryToken (driveToken a m epoch) a.settings.fspIdempotencyRetry)) e
  sends : SendsSigned vote
  counts : m'.retries epoch ≠ m.retries epoch → Retried vote

omit [External] in
theorem SendsSigned.tail {epoch : Int} {t : Trace}
    (h : SendsSigned (⟨signEntry epoch, ()⟩ :: t)) : SendsSigned t := by
  intro raw reply he
  obtain ⟨e, hmem, resp, hresp, hraw⟩ := h raw reply (List.mem_cons_of_mem _ he)
  refine ⟨e, ?_, resp, hresp, hraw⟩
  rcases List.mem_cons.mp hmem with rfl | hmem
  · cases hresp
  · exact hmem

theorem driveEpoch_vote {a : DriveArgs} (ha : a.Watches) {epoch : Int} {m m' : Mem} {t : Trace}
    {r : Except Exc EpochObs} (h : RunsOn (driveEpoch a epoch) m t r m') :
    VoteFacts a epoch m m' (voteOf epoch t) ∧
      ∃ x z, t = x ++ (voteOf epoch t ++ z) := by
  cases driveEpoch_votes ha h with
  | none hno hm =>
    rw [voteOf_none hno]
    refine ⟨⟨by simp, fun raw reply he => ?_, fun hne => absurd hm hne⟩, t, [], by simp⟩
    cases he
  | @voted x y z vote ht hx hz hrun hm =>
    have hy : ∀ e ∈ y, e.op.kind ≠ .entry := by
      obtain ⟨t', heq, hall⟩ := runSignRewards_marked (φ := fun e => e.op.kind ≠ .entry)
        (AllOf.ne (by decide)) (AllOf.ne (by decide)) (AllOf.ne (by decide))
        (AllOf.ne (by decide)) (AllOf.ne (by decide)) hrun
      obtain ⟨-, rfl⟩ := List.cons.inj heq
      exact hall
    have hvote : voteOf epoch t = y := by rw [ht, voteOf_split hx hy hz]
    rw [hvote]
    refine ⟨⟨fun e he => ?_, (runSignRewards_sends hrun).tail, fun hne => ?_⟩,
      x ++ [⟨signEntry epoch, ()⟩], z, by rw [ht]; simp⟩
    · exact emits_runSignRewards_keyed _ _ _ _ _ _ _ _ hrun e (List.mem_cons_of_mem _ he)
    · rw [hm] at hne
      obtain ⟨ro, rfl, hst⟩ := countAfter_ne hne
      exact (runSignRewards_retried hrun hst).tail

end

end Clif
