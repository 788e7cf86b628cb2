import Clif.BlobSent

/-!
# Absorbed — which failures of a call leave an orchestrator

Every orchestrator turns the failures of its calls into outcomes, call by call.  `absorbed_iff` says
which failure gets through: the polling of a receipt is not guarded, and the signing requests name
only the two subclasses of `FwdError`.
-/

namespace Clif

open Effect

/-! ## The property -/

/-- The function returned, or raised something that no call raised. -/
def Absorbed {α : Type} (r : Except Exc α) : Prop := ∀ e, r = .error e → Foreign e

/-- An `RpcError` ended the polling of a receipt. -/
def PollFailed (t : Trace) : Prop :=
  ∃ reply rest m, settledReads t = reply :: rest ∧
    rpcResult "eth_getTransactionReceipt" reply = .error (.rpcError m)

/-- The exception of a call of `fwd` that no `except` clause around the call names. -/
def uncaughtOf : Event sig → Option Exc
  | ⟨.fwd _ (.signFspMessage _), .error e⟩ => if e.refuses then none else some e
  | ⟨.fwd _ (.signTransaction _ _), .error e⟩ => if e.refuses then none else some e
  | ⟨.fwd _ (.reportBroadcastResult ..), .error e⟩ => if e.isFwd then none else some e
  | ⟨.fwd _ (.reportReceipt ..), .error e⟩ => if e.isFwd then none else some e
  | _ => none

/-- `fwd` raised something of the kind: `FwdError` itself at a signing request (or, were `fwd` to
raise one, an `RpcError`). -/
def Uncaught (t : Trace) : Prop := ∃ e ∈ t, ∃ exc, uncaughtOf e = some exc ∧ ¬ Foreign exc

theorem absorbed_ok {α : Type} {o : α} : Absorbed (.ok o : Except Exc α) := fun e he => by cases he

@[simp] theorem absorbed_error {α : Type} {e : Exc} :
    Absorbed (.error e : Except Exc α) ↔ Foreign e :=
  ⟨fun h => h e rfl, fun h e' he => by cases he; exact h⟩

theorem uncaught_append {t₁ t₂ : Trace} : Uncaught (t₁ ++ t₂) ↔ Uncaught t₁ ∨ Uncaught t₂ := by
  simp only [Uncaught, List.mem_append, or_and_right, exists_or]

theorem not_uncaught {t : Trace} (h : ∀ e ∈ t, uncaughtOf e = none) : ¬ Uncaught t := by
  rintro ⟨e, he, exc, hexc, -⟩
  rw [h e he] at hexc
  cases hexc

theorem uncaught_cons {e : Event sig} {t : Trace} :
    Uncaught (e :: t) ↔ (∃ exc, uncaughtOf e = some exc ∧ ¬ Foreign exc) ∨ Uncaught t := by
  simp [Uncaught]

theorem allOf_caught {k : OpKind} (hs : k ≠ .sign) (hr : k ≠ .report) :
    AllOf k fun e => uncaughtOf e = none := by
  rintro ⟨op, ans⟩ rfl
  cases op with
  | fwd c o => cases o <;> first | exact absurd rfl hs | exact absurd rfl hr
  | _ => rfl

theorem Early.caught {e : Event sig} (h : Early e) : uncaughtOf e = none := by
  obtain ⟨op, ans⟩ := e
  cases op with
  | fwd c o =>
    cases o with
    | signFspMessage req =>
      cases ans with
      | ok a => rfl
      | error exc => cases h.unrefused
    | signTransaction body key =>
      cases ans with
      | ok a => rfl
      | error exc => cases h.unrefused
    | _ => exact absurd rfl h.report
  | _ => rfl

theorem not_uncaught_early {t : Trace} (h : ∀ e ∈ t, Early e) : ¬ Uncaught t :=
  not_uncaught fun e he => (h e he).caught

theorem uncaughtOf_refused {e : Event sig} {exc : Exc} (h : refusalOf e = some exc) :
    uncaughtOf e = if exc.refuses then none else some exc := by
  unfold refusalOf at h
  split at h <;> cases h <;> rfl

theorem uncaughtOf_signed {e : Event sig} {resp : SignTransactionResponse}
    (h : signedOf e = some resp) : uncaughtOf e = none := by
  unfold signedOf at h
  split at h <;> cases h
  rfl

/-- What a report leaves of an exception is uncaught. -/
theorem uncaught_report {c : Option String} {o : FwdOp} {ans : Except Exc o.Res} {e : Exc}
    (hk : (Op.fwd c o).kind = .report) (h : swallow ans = .error e) :
    uncaughtOf ⟨.fwd c o, ans⟩ = some e := by
  cases ans with
  | ok a => cases h
  | error exc =>
    by_cases hf : exc.isFwd = true
    · simp [swallow, hf] at h
    · have he : exc = e := by simpa [swallow, hf] using h
      subst he
      cases o with
      | signFspMessage req => cases hk
      | signTransaction body key => cases hk
      | _ => simp [uncaughtOf, hf]

theorem caught_report {c : Option String} {o : FwdOp} {ans : Except Exc o.Res}
    (hk : (Op.fwd c o).kind = .report) (h : swallow ans = .ok ()) :
    uncaughtOf ⟨.fwd c o, ans⟩ = none := by
  cases o with
  | signFspMessage req => cases hk
  | signTransaction body key => cases hk
  | _ =>
    cases ans with
    | ok a => rfl
    | error exc =>
      by_cases hf : exc.isFwd = true
      · simp [uncaughtOf, hf]
      · simp [swallow, hf] at h

/-! ## After the broadcast -/

theorem Polled.caught {txHash : String} {t : Trace} {x : Except Exc (Option Receipt)}
    (h : Polled txHash t x) : ¬ Uncaught t := by
  refine not_uncaught fun e he => ?_
  obtain ⟨op, ans⟩ := e
  rcases h.ops _ he with hop | hop <;> cases hop <;> rfl

theorem not_pollFailed_some {txHash : String} {t u : Trace} {receipt : Receipt}
    (h : Polled txHash t (.ok (some receipt))) : ¬ PollFailed (t ++ u) := by
  rintro ⟨reply, rest, m, heq, hm⟩
  rw [h.settled_some] at heq
  cases heq
  cases hm

/-- The report of a receipt and what follows it, which raises nothing of a call. -/
theorem absorbed_report {α : Type} {c : Option String} {o : FwdOp} {f : Unit → Py α} {t : Trace}
    {r : Except Exc α} (hk : (Op.fwd c o).kind = .report)
    (hf : Emits (f ()) fun e => uncaughtOf e = none) (hraise : Raises (f ()) Foreign)
    (h : Runs (reportQuietly c o >>= f) t r) : Absorbed r ↔ ¬ Uncaught t := by
  obtain ⟨ans, t', rfl, ⟨hans, h'⟩ | ⟨e, hans, rfl, rfl⟩⟩ := runs_reportQuietly_bind.mp h
  · have hu : ¬ Uncaught (⟨.fwd c o, ans⟩ :: t') :=
      not_uncaught (List.forall_mem_cons.mpr ⟨caught_report hk hans, hf _ _ h'⟩)
    exact ⟨fun _ => hu, fun _ e he => hraise _ e (he ▸ h')⟩
  · rw [absorbed_error, uncaught_cons, uncaught_report hk hans]
    simp [Uncaught]

theorem raises_claimTookEffect (rm txHash : String) :
    Raises (claimTookEffect rm txHash) Foreign := by
  unfold claimTookEffect
  refine raises_attempt_bind raises_rpc (fun a => ?_) fun e he => ?_
  · cases a <;> exact raises_pure _
  · split
    · exact raises_pure _
    · exact raises_pure _
    · exact raises_pure _
    · rename_i hne heq
      cases heq
      exact raises_throw (Exc.ofCall_eq_false he fun m hm => hne m (by rw [hm]))

/-- The confirmation of a claim, given the receipt. -/
theorem confirmClaim_absorbed {s : Settings} {resp : SignTransactionResponse} {bh : String}
    {out : OutcomeStatus → String → ClaimOutcome} {receipt : Receipt} {t : Trace}
    {r : Except Exc ClaimOutcome} (h : Runs (confirmClaim s resp bh out receipt) t r) :
    Absorbed r ↔ ¬ Uncaught t := by
  have hnil : ¬ Uncaught [] := by simp [Uncaught]
  unfold confirmClaim at h
  rcases runs_fromExcept_bind.mp h with ⟨block, -, h⟩ | ⟨e, he, rfl, rfl⟩
  swap
  · exact iff_of_true (absorbed_error.mpr (fails_receiptInt _ e he)) hnil
  rcases runs_fromExcept_bind.mp h with ⟨status, -, h⟩ | ⟨e, he, rfl, rfl⟩
  swap
  · exact iff_of_true (absorbed_error.mpr (fails_receiptInt _ e he)) hnil
  refine absorbed_report rfl ?_ ?_ h
  · split
    · exact emits_pure _
    · refine emits_bind (emits_claimTookEffect (allOf_caught (by decide) (by decide)) _ _)
        fun took => ?_
      split <;> exact emits_pure _
  · split
    · exact raises_pure _
    · refine raises_bind (raises_claimTookEffect _ _) fun took => ?_
      split <;> exact raises_pure _

section

variable [External]

/-- `get_revert_reason` never raises. -/
theorem raises_getRevertReason (txHash : String) {φ : Exc → Prop} :
    Raises (getRevertReason txHash) φ := by
  unfold getRevertReason
  refine raises_attempt_bind (φ := fun _ => True) (fun _ _ _ => trivial) (fun a => ?_) fun e _ => ?_
  · exact raises_pure _
  · exact raises_pure _

theorem confirmFsp_absorbed {c : Option String} {mt : MessageType} {epoch : Int}
    {resp : SignTransactionResponse} {bh : String} {out : OutcomeStatus → String → FspOutcome}
    {receipt : Receipt} {t : Trace} {r : Except Exc FspOutcome}
    (h : Runs (confirmFsp c mt epoch resp bh out receipt) t r) : Absorbed r ↔ ¬ Uncaught t := by
  have hnil : ¬ Uncaught [] := by simp [Uncaught]
  unfold confirmFsp at h
  rcases runs_fromExcept_bind.mp h with ⟨block, -, h⟩ | ⟨e, he, rfl, rfl⟩
  swap
  · exact iff_of_true (absorbed_error.mpr (fails_receiptInt _ e he)) hnil
  rcases runs_fromExcept_bind.mp h with ⟨status, -, h⟩ | ⟨e, he, rfl, rfl⟩
  swap
  · exact iff_of_true (absorbed_error.mpr (fails_receiptInt _ e he)) hnil
  refine absorbed_report rfl ?_ ?_ h
  · split
    · exact emits_bind (emits_getRevertReason (allOf_caught (by decide) (by decide)) _)
        fun _ => emits_pure _
    · exact emits_pure _
  · split
    · exact raises_bind (raises_getRevertReason _) fun _ => raises_pure _
    · exact raises_pure _

end

/-- Polling and what follows it. -/
theorem follow_absorbed {α : Type} {bh : String} {wt : Nat} {f : Option Receipt → Py α} {t : Trace}
    {r : Except Exc α} (hnone : ∃ o, f none = pure o)
    (hsome : ∀ receipt t r, Runs (f (some receipt)) t r → (Absorbed r ↔ ¬ Uncaught t))
    (h : Runs (pollReceipt bh wt >>= f) t r) :
    Absorbed r ↔ ¬ PollFailed t ∧ ¬ Uncaught t := by
  rcases runs_pollReceipt_bind h with ⟨e, hp, rfl⟩ | ⟨x, t₁, t₂, rfl, hp, h'⟩
  · obtain ⟨reply, hset, he⟩ := hp.settled_error
    rw [absorbed_error, and_iff_left hp.caught]
    constructor
    · rintro hf ⟨reply', rest, m, heq, hm⟩
      rw [hset] at heq
      cases heq
      rw [he] at hm
      cases hm
      cases hf
    · intro hne
      exact Exc.ofCall_eq_false (rpcResult_error he) fun m hm =>
        hne ⟨reply, [], m, hset, by rw [he, hm]⟩
  · cases x with
    | none =>
      obtain ⟨o, ho⟩ := hnone
      rw [ho] at h'
      obtain ⟨rfl, rfl⟩ := runs_pure.mp h'
      rw [List.append_nil]
      refine iff_of_true absorbed_ok ⟨?_, hp.caught⟩
      rintro ⟨reply, rest, m, heq, -⟩
      rw [hp.settled_none] at heq
      cases heq
    | some receipt =>
      rw [hsome receipt t₂ r h', uncaught_append, and_iff_right (not_pollFailed_some hp),
        or_iff_right hp.caught]

/-! ## From the signature on -/

theorem settledReads_of_nil {t u : Trace} (h : receiptReads t = []) :
    settledReads (t ++ u) = settledReads u := by
  rw [settledReads, receiptReads_append, h, List.nil_append, settledReads]

theorem pollFailed_append {t u : Trace} (h : receiptReads t = []) :
    PollFailed (t ++ u) ↔ PollFailed u := by
  unfold PollFailed
  rw [settledReads_of_nil h]

theorem not_pollFailed {t : Trace} (h : receiptReads t = []) : ¬ PollFailed t := by
  rintro ⟨reply, rest, m, heq, -⟩
  rw [settledReads, h] at heq
  cases heq

theorem Delivery.absorbs_iff {α : Type} {status : α → Option OutcomeStatus}
    {caller : Option String} {resp : SignTransactionResponse} {verdict : String → BroadcastOutcome}
    {cls : Option String} {go : String → Py α} {t : Trace} {r : Except Exc α}
    (h : Delivery status caller resp verdict cls go t r)
    (hgo : ∀ bh t r, Runs (go bh) t r → (Absorbed r ↔ ¬ PollFailed t ∧ ¬ Uncaught t)) :
    Absorbed r ↔ ¬ PollFailed t ∧ ¬ Uncaught t := by
  cases h with
  | broken =>
    refine iff_of_true (absorbed_error.mpr rfl) ⟨not_pollFailed rfl, not_uncaught ?_⟩
    simp [uncaughtOf]
  | @rejected reply msg ans o hreply hans ho =>
    have hrep : uncaughtOf
        ⟨.fwd caller (.reportBroadcastResult resp.txId resp.hash (verdict msg) cls), ans⟩ = none :=
      caught_report rfl hans
    refine iff_of_true absorbed_ok ⟨not_pollFailed rfl, not_uncaught ?_⟩
    exact List.forall_mem_cons.mpr ⟨rfl, List.forall_mem_cons.mpr ⟨hrep, by simp⟩⟩
  | @rejectedRaised reply msg ans e hreply hans =>
    have hrep : uncaughtOf
        ⟨.fwd caller (.reportBroadcastResult resp.txId resp.hash (verdict msg) cls), ans⟩ = some e :=
      uncaught_report rfl hans
    rw [and_iff_right (not_pollFailed rfl), absorbed_error, uncaught_cons, uncaught_cons, hrep]
    simp [uncaughtOf, Uncaught]
  | @acceptedRaised bh ans e hans =>
    have hrep : uncaughtOf
        ⟨.fwd caller (.reportBroadcastResult resp.txId bh .accepted none), ans⟩ = some e :=
      uncaught_report rfl hans
    rw [and_iff_right (not_pollFailed rfl), absorbed_error, uncaught_cons, uncaught_cons, hrep]
    simp [uncaughtOf, Uncaught]
  | @accepted bh ans t _ hans h =>
    rw [hgo bh t r h]
    have hp := pollFailed_append (u := t)
      (t := [⟨.rpc (.sendRawTransaction resp.signedRawTx), .result bh⟩,
        ⟨.fwd caller (.reportBroadcastResult resp.txId bh .accepted none), ans⟩]) rfl
    rw [List.cons_append, List.cons_append, List.nil_append] at hp
    have hrep : uncaughtOf
        ⟨.fwd caller (.reportBroadcastResult resp.txId bh .accepted none), ans⟩ = none :=
      caught_report rfl hans
    rw [hp, uncaught_cons, uncaught_cons, hrep]
    simp [uncaughtOf]

section

variable [External]

theorem Submission.absorbs_iff {α : Type} {status : α → Option OutcomeStatus} {sends : Bool}
    {deliver : SignTransactionResponse → Trace → Except Exc α → Prop} {t : Trace}
    {r : Except Exc α} (hq : QuietAbi)
    (h : Submission status Exc.refuses sends deliver t r)
    (hd : ∀ resp t r, deliver resp t r → (Absorbed r ↔ ¬ PollFailed t ∧ ¬ Uncaught t)) :
    Absorbed r ↔ ¬ PollFailed t ∧ ¬ Uncaught t := by
  cases h with
  | early ht hok herr =>
    exact iff_of_true (fun e he => herr e he hq)
      ⟨not_pollFailed (receiptReads_early ht), not_uncaught_early ht⟩
  | @refused pre e exc _ hpre he hs hok herr =>
    have hread : receiptReads (pre ++ [e]) = [] := by
      rw [receiptReads_append, receiptReads_early hpre]
      unfold refusalOf at he
      split at he <;> first | rfl | cases he
    rw [and_iff_right (not_pollFailed hread), uncaught_append,
      or_iff_right (not_uncaught_early hpre), uncaught_cons, uncaughtOf_refused he]
    cases r with
    | ok o =>
      refine iff_of_true absorbed_ok ?_
      simp [(hok o rfl).1, Uncaught]
    | error x =>
      obtain ⟨hc, rfl⟩ := herr x rfl
      simp [hc, Uncaught]
  | @kept pre e resp o hpre he hsends ho =>
    have hread : receiptReads (pre ++ [e]) = [] := by
      rw [receiptReads_append, receiptReads_early hpre]
      unfold signedOf at he
      split at he <;> first | rfl | cases he
    refine iff_of_true absorbed_ok ⟨not_pollFailed hread, ?_⟩
    rw [uncaught_append, or_iff_right (not_uncaught_early hpre), uncaught_cons,
      uncaughtOf_signed he]
    simp [Uncaught]
  | @sent pre t e resp _ hpre he hsends h =>
    have hread : receiptReads (pre ++ [e]) = [] := by
      rw [receiptReads_append, receiptReads_early hpre]
      unfold signedOf at he
      split at he <;> first | rfl | cases he
    have heq : pre ++ e :: t = (pre ++ [e]) ++ t := by simp
    rw [hd resp t r h, heq, pollFailed_append hread, uncaught_append, uncaught_append,
      or_iff_right (not_uncaught_early hpre), uncaught_cons, uncaughtOf_signed he]
    simp [Uncaught]

omit [External] in
theorem DeliversClaim.absorbs_iff {s : Settings} {wt : Nat} {resp : SignTransactionResponse}
    {t : Trace} {r : Except Exc ClaimOutcome} (h : DeliversClaim s wt resp t r) :
    Absorbed r ↔ ¬ PollFailed t ∧ ¬ Uncaught t := by
  obtain ⟨out, -, h⟩ := h
  exact Delivery.absorbs_iff h fun bh t r h' =>
    follow_absorbed ⟨_, rfl⟩ (fun receipt t r h'' => confirmClaim_absorbed h'') h'

theorem DeliversFsp.absorbs_iff {caller : Option String} {mt : MessageType} {epoch : Int}
    {wt : Nat} {resp : SignTransactionResponse} {t : Trace} {r : Except Exc FspOutcome}
    (h : DeliversFsp caller mt epoch wt resp t r) :
    Absorbed r ↔ ¬ PollFailed t ∧ ¬ Uncaught t := by
  obtain ⟨out, -, h⟩ := h
  exact Delivery.absorbs_iff h fun bh t r h' =>
    follow_absorbed ⟨_, rfl⟩ (fun receipt t r h'' => confirmFsp_absorbed h'') h'

end

/-! ## A poll that fails -/

/-- `fwd` signs everything; the node accepts the blob and answers nothing after that. -/
def acceptingWorld : (op : Op) → op.Ans
  | .rpc (.sendRawTransaction _) => .result "0xaa"
  | op => signingWorld op

/-- The uptime vote in that world. -/
def unpolledVote : Trace × Except Exc FspOutcome :=
  exec acceptingWorld (@runSignUptime External.static uptimeSettings 5 true 600 none true)

theorem unpolledVote_runs :
    Runs (@runSignUptime External.static uptimeSettings 5 true 600 none true) unpolledVote.1
      unpolledVote.2 := exec_runs _ _

end Clif
