import Clif.Delivery
import Clif.SignedRoot

/-!
# BlobSent — whether what `fwd` signed reaches the node

A signed blob has a nonce reserved for it, and only its broadcast gets the nonce used or released.
`reachesNode_iff` says for which runs of the four orchestrators every signed blob is broadcast.
-/

namespace Clif

open Effect

/-! ## The property -/

/-- `fwd` returned no signed transaction. -/
def Unsigned (t : Trace) : Prop := ∀ e ∈ t, signedOf e = none

/-- The statuses that say the transaction was submitted. -/
def OutcomeStatus.submitted (status : OutcomeStatus) : Prop :=
  status = .submittedPending ∨ status = .submittedMined

structure ReachesNode {α : Type} (status : α → Option OutcomeStatus) (t : Trace)
    (r : Except Exc α) : Prop where
  /-- A signed blob is handed to the node before the function ends. -/
  sent : ∀ t₁ e t₂ resp, t = t₁ ++ e :: t₂ → signedOf e = some resp →
    ∃ reply, (⟨.rpc (.sendRawTransaction resp.signedRawTx), reply⟩ : Event sig) ∈ t₂
  /-- What is called submitted was signed, sent and accepted. -/
  submitted : ∀ o st, r = .ok o → status o = some st → st.submitted →
    ∃ t₁ e t₂ resp bh, t = t₁ ++ e :: t₂ ∧ signedOf e = some resp ∧
      (⟨.rpc (.sendRawTransaction resp.signedRawTx), .result bh⟩ : Event sig) ∈ t₂

theorem allOf_unsigned {k : OpKind} (hk : k ≠ .sign) : AllOf k fun e => signedOf e = none := by
  rintro ⟨op, ans⟩ rfl
  cases op with
  | fwd c o => cases o <;> first | rfl | exact absurd rfl hk
  | _ => rfl

/-- A status without a transaction is not called submitted. -/
theorem not_submitted_of_unsent {st : OutcomeStatus} {o : Option OutcomeStatus} (ho : o = some st)
    (h : o.all OutcomeStatus.unsent = true) : ¬ st.submitted := by
  subst ho
  rintro (rfl | rfl) <;> cases h

/-! ## A delivered blob -/

section

variable {α : Type} {status : α → Option OutcomeStatus} {t : Trace} {r : Except Exc α}

/-- A delivery starts with the broadcast, signs nothing, and is called submitted only if the node
accepted. -/
structure Handed (status : α → Option OutcomeStatus) (resp : SignTransactionResponse) (t : Trace)
    (r : Except Exc α) : Prop where
  head : ∃ reply t', t = ⟨.rpc (.sendRawTransaction resp.signedRawTx), reply⟩ :: t' ∧ Unsigned t' ∧
    ∀ o st, r = .ok o → status o = some st → st.submitted → ∃ bh, reply = .result bh

theorem Delivery.handed {caller : Option String} {resp : SignTransactionResponse}
    {verdict : String → BroadcastOutcome} {cls : Option String} {go : String → Py α}
    (h : Delivery status caller resp verdict cls go t r)
    (hgo : ∀ bh, Emits (go bh) fun e => signedOf e = none) : Handed status resp t r := by
  cases h with
  | broken => exact ⟨_, [], rfl, by simp [Unsigned], fun o st ho => by cases ho⟩
  | rejected hreply hans ho =>
    refine ⟨_, _, rfl, by simp [Unsigned, signedOf], fun o' st ho' hst hsub => ?_⟩
    cases ho'
    exact absurd hsub (not_submitted_of_unsent hst (unsent_of_rejected ho))
  | rejectedRaised hreply hans =>
    exact ⟨_, _, rfl, by simp [Unsigned, signedOf], fun o st ho => by cases ho⟩
  | acceptedRaised hans =>
    exact ⟨_, _, rfl, by simp [Unsigned, signedOf], fun o st ho => by cases ho⟩
  | accepted hans h =>
    refine ⟨_, _, rfl, ?_, fun o st _ _ _ => ⟨_, rfl⟩⟩
    intro e he
    rcases List.mem_cons.mp he with rfl | he
    · rfl
    · exact hgo _ _ _ h e he

theorem reachesNode_unsigned (ht : Unsigned t)
    (hr : ∀ o, r = .ok o → (status o).all OutcomeStatus.unsent = true) :
    ReachesNode status t r := by
  constructor
  · rintro t₁ e t₂ resp rfl he
    rw [ht e (by simp)] at he
    cases he
  · intro o st ho hst hsub
    exact absurd hsub (not_submitted_of_unsent hst (hr o ho))

theorem reachesNode_sent {pre : Trace} {e : Event sig} {resp : SignTransactionResponse}
    (hpre : ∀ e ∈ pre, Early e) (he : signedOf e = some resp) (h : Handed status resp t r) :
    ReachesNode status (pre ++ e :: t) r := by
  obtain ⟨reply, t', rfl, ht', hsub⟩ := h.head
  have hsend : signedOf ⟨.rpc (.sendRawTransaction resp.signedRawTx), reply⟩ = none := rfl
  constructor
  · -- the only signed blob is `e`
    intro t₁ e' t₂ resp' heq he'
    rcases List.append_eq_append_iff.mp heq with ⟨w, rfl, hw⟩ | ⟨w, rfl, hw⟩
    · cases w with
      | nil =>
        obtain ⟨rfl, rfl⟩ := List.cons.inj hw
        rw [he] at he'
        cases he'
        exact ⟨reply, List.mem_cons_self ..⟩
      | cons a w =>
        obtain ⟨rfl, htail⟩ := List.cons.inj hw
        have hmem : e' ∈ ⟨.rpc (.sendRawTransaction resp.signedRawTx), reply⟩ :: t' := by
          rw [htail]
          simp
        rcases List.mem_cons.mp hmem with rfl | hmem
        · rw [hsend] at he'
          cases he'
        · rw [ht' e' hmem] at he'
          cases he'
    · cases w with
      | nil =>
        obtain ⟨rfl, rfl⟩ := List.cons.inj hw
        rw [he] at he'
        cases he'
        exact ⟨reply, List.mem_cons_self ..⟩
      | cons a w =>
        obtain ⟨rfl, -⟩ := List.cons.inj hw
        rw [(hpre e' (by simp)).unsigned] at he'
        cases he'
  · intro o st ho hst hs
    obtain ⟨bh, rfl⟩ := hsub o st ho hst hs
    exact ⟨pre, e, _, resp, bh, rfl, he, List.mem_cons_self ..⟩

/-- Every signed blob reaches the node exactly if it is not kept back. -/
theorem Submission.reaches_iff [External] {caught : Exc → Bool} {sends : Bool}
    {deliver : SignTransactionResponse → Trace → Except Exc α → Prop}
    (h : Submission status caught sends deliver t r)
    (hd : ∀ resp t r, deliver resp t r → Handed status resp t r) :
    ReachesNode status t r ↔ sends = true ∨ Unsigned t := by
  cases h with
  | early ht hok herr =>
    have hu : Unsigned t := fun e he => (ht e he).unsigned
    exact ⟨fun _ => Or.inr hu, fun _ => reachesNode_unsigned hu hok⟩
  | @refused pre e exc _ hpre he hs hok herr =>
    have hu : Unsigned (pre ++ [e]) := by
      intro e' he'
      rcases List.mem_append.mp he' with he' | he'
      · exact (hpre e' he').unsigned
      · rw [List.mem_singleton.mp he']
        unfold refusalOf at he
        split at he <;> first | rfl | cases he
    exact ⟨fun _ => Or.inr hu, fun _ => reachesNode_unsigned hu fun o ho => (hok o ho).2⟩
  | @kept pre e resp o hpre he hsends ho =>
    constructor
    · intro hr
      obtain ⟨reply, hm⟩ := hr.sent pre e [] resp rfl he
      cases hm
    · rintro (hs | hu)
      · rw [hsends] at hs
        cases hs
      · rw [hu e (by simp)] at he
        cases he
  | sent hpre he hsends h =>
    exact ⟨fun _ => Or.inl hsends, fun _ => reachesNode_sent hpre he (hd _ _ _ h)⟩

end

/-! ## The orchestrators -/

theorem emits_reportMined {φ : Event sig → Prop} (hw : AllOf .report φ) (c : Option String)
    (resp : SignTransactionResponse) (txHash : String) :
    ∀ receipt, Emits (reportMined c resp txHash receipt) φ
  | none => emits_pure _
  | some _ =>
    emits_bind (emits_fromExcept _) fun _ => emits_bind (emits_reportQuietly fun _ => hw _ rfl)
      fun _ => emits_bind (emits_fromExcept _) fun _ => emits_pure _

theorem emits_confirmTopup {φ : Event sig → Prop} (h : AllOf .read φ) (hw : AllOf .report φ)
    (c : Option String) (account : Account) (before : ℚ) (valueWei : Int) (pt : Nat)
    (resp : SignTransactionResponse) (txHash : String) :
    Emits (confirmTopup c account before valueWei pt resp txHash) φ :=
  emits_bind (emits_pollReceipt h _ _) fun _ => emits_bind (emits_reportMined hw _ _ _ _)
    fun _ => emits_bind (emits_rpc fun _ => h _ rfl) fun _ => emits_pure _

section

variable [External]

omit [External] in
theorem DeliversClaim.handed {s : Settings} {wt : Nat} {resp : SignTransactionResponse} {t : Trace}
    {r : Except Exc ClaimOutcome} (h : DeliversClaim s wt resp t r) :
    Handed ClaimOutcome.sent resp t r := by
  obtain ⟨out, hout, h⟩ := h
  refine h.handed fun bh => ?_
  refine emits_bind (emits_pollReceipt (allOf_unsigned (by decide)) _ _) fun receipt => ?_
  split
  · exact emits_pure _
  · exact emits_confirmClaim (allOf_unsigned (by decide)) (allOf_unsigned (by decide)) _ _ _ _ _

theorem DeliversFsp.handed {caller : Option String} {mt : MessageType} {epoch : Int} {wt : Nat}
    {resp : SignTransactionResponse} {t : Trace} {r : Except Exc FspOutcome}
    (h : DeliversFsp caller mt epoch wt resp t r) : Handed FspOutcome.sent resp t r := by
  obtain ⟨out, hout, h⟩ := h
  refine h.handed fun bh => ?_
  refine emits_bind (emits_pollReceipt (allOf_unsigned (by decide)) _ _) fun receipt => ?_
  split
  · exact emits_pure _
  · exact emits_confirmFsp (allOf_unsigned (by decide)) (allOf_unsigned (by decide)) _ _ _ _ _ _ _

/-- A claim or an FSP vote that `fwd` signed reaches the node exactly if the call has an `RpcClient`
and waits; otherwise the blob is dropped and the outcome says submitted.  A top-up always reaches
the node. -/
theorem reachesNode_iff :
    (∀ (s : Settings) (ct : Int) (b : String) (claims : List RewardClaimWithProof) (wait : Bool)
        (wt : Nat) (retry : Option String) (hasRpc : Bool) (t : Trace)
        (r : Except Exc ClaimOutcome),
      Runs (submitClaims s ct b claims wait wt retry hasRpc) t r →
      (ReachesNode ClaimOutcome.sent t r ↔ (hasRpc = true ∧ wait = true) ∨ Unsigned t)) ∧
    (∀ (s : Settings) (epoch : Int) (wait : Bool) (wt : Nat) (retry : Option String)
        (hasRpc : Bool) (t : Trace) (r : Except Exc FspOutcome),
      (Runs (runSignUptime s epoch wait wt retry hasRpc) t r ∨
        Runs (runSignRewards s epoch wait wt retry hasRpc) t r) →
      (ReachesNode FspOutcome.sent t r ↔ (hasRpc = true ∧ wait = true) ∨ Unsigned t)) ∧
    (∀ (caller : Option String) (account : Account) (before : ℚ) (valueWei : Int)
        (network : Network) (wallet : String) (chainId maxFee maxPriority : Int) (pt : Nat)
        (now : Int) (t : Trace) (r : Except Exc TopUp),
      Runs (executeTopup caller account before valueWei network wallet chainId maxFee maxPriority
        pt now) t r →
      ReachesNode (fun _ : TopUp => none) t r) := by
  refine ⟨?_, ?_, ?_⟩
  · intro s ct b claims wait wt retry hasRpc t r h
    rw [(submitClaims_submission h).reaches_iff fun _ _ _ hd => hd.handed, Bool.and_eq_true]
  · rintro s epoch wait wt retry hasRpc t r (h | h)
    · rw [(runSignUptime_submission h).reaches_iff fun _ _ _ hd => hd.handed, Bool.and_eq_true]
    · rw [(runSignRewards_submission h).reaches_iff fun _ _ _ hd => hd.handed,
        Bool.and_eq_true]
  · intro caller account before valueWei network wallet chainId maxFee maxPriority pt now t r h
    refine ((executeTopup_submission h).reaches_iff fun _ _ _ hd => ?_).mpr (Or.inl rfl)
    exact (sendTopup_delivery hd).handed fun bh =>
      emits_confirmTopup (allOf_unsigned (by decide)) (allOf_unsigned (by decide)) _ _ _ _ _ _ _

end

/-! ## A vote that is signed and dropped -/

/-- The sample settings with the callers of the uptime vote. -/
def uptimeSettings : Settings :=
  { sampleSettings with
    fspUptimeSignCallerToken := some "sign"
    fspUptimeSubmitCallerToken := some "submit" }

/-- Leg 1's answer of the sample world: `r` and `s` are 32 bytes. -/
def legOneSig : SignFspMessageResponse :=
  ⟨"0xbb", 27, "0x" ++ String.ofList (List.replicate 64 '1'),
    "0x" ++ String.ofList (List.replicate 64 '2')⟩

/-- `fwd` signs everything; the node tells its fees and nothing else. -/
def signingWorld : (op : Op) → op.Ans
  | .rpc .feeHistory => .result [25000000000]
  | .fwd _ (.signFspMessage _) => .ok legOneSig
  | .fwd _ (.signTransaction _ _) => .ok ⟨"tx-1", "0xaa", "0x02f8"⟩
  | op => deafWorld op

/-- `run_sign_uptime` with `wait=False` in that world. -/
def unwaitedVote : Trace × Except Exc FspOutcome :=
  exec signingWorld (@runSignUptime External.static uptimeSettings 5 false 0 none true)

theorem unwaitedVote_runs :
    Runs (@runSignUptime External.static uptimeSettings 5 false 0 none true) unwaitedVote.1
      unwaitedVote.2 := exec_runs _ _

/-- The vote is signed, not broadcast, and called submitted. -/
theorem unwaitedVote_dropped :
    (unwaitedVote.2.toOption.map fun o => (o.status, o.txHash)) =
        some (.submittedPending, some "0xaa") ∧
      ¬ ReachesNode FspOutcome.sent unwaitedVote.1 unwaitedVote.2 := by
  have hsigned : unwaitedVote.1.filterMap signedOf = [⟨"tx-1", "0xaa", "0x02f8"⟩] := by
    decide +kernel
  have hunsent : unwaitedVote.1.all (fun e => e.op.kind != .send) = true := by decide +kernel
  refine ⟨by decide +kernel, fun hr => ?_⟩
  obtain ⟨e, he, hresp⟩ : ∃ e ∈ unwaitedVote.1, signedOf e = some ⟨"tx-1", "0xaa", "0x02f8"⟩ := by
    rw [← List.mem_filterMap, hsigned]
    exact List.mem_singleton_self _
  obtain ⟨t₁, t₂, ht⟩ := List.append_of_mem he
  obtain ⟨reply, hm⟩ := hr.sent t₁ e t₂ _ ht hresp
  have hmem : (⟨.rpc (.sendRawTransaction "0x02f8"), reply⟩ : Event sig) ∈ unwaitedVote.1 := by
    rw [ht]
    exact List.mem_append_right _ (List.mem_cons_of_mem _ hm)
  exact absurd (List.all_eq_true.mp hunsent _ hmem) (by simp [Op.kind, RpcOp.kind])

theorem reachesNode_iff_unwaited :
    ReachesNode FspOutcome.sent unwaitedVote.1 unwaitedVote.2 ↔
      (true = true ∧ false = true) ∨ Unsigned unwaitedVote.1 :=
  (@reachesNode_iff External.static).2.1 _ _ _ _ _ _ _ _ (Or.inl unwaitedVote_runs)

end Clif
