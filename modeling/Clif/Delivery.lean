import Clif.Funding
import Clif.Raised

/-!
# Delivery — from the signing request to the end of a submission

Four orchestrators sign, broadcast, report and confirm.  `Submission` lists how such a run can go
up to the signature, `Delivery` how it goes on from a signed blob, and `Polled` what the polling of
a receipt reads; for each orchestrator one lemma says that its runs are of these forms.
-/

namespace Clif

open Effect

/-! ## What an exchange shows -/

/-- The transaction `fwd` signed. -/
def signedOf : Event sig → Option SignTransactionResponse
  | ⟨.fwd _ (.signTransaction _ _), .ok resp⟩ => some resp
  | _ => none

/-- The exception of a signing request. -/
def refusalOf : Event sig → Option Exc
  | ⟨.fwd _ (.signTransaction _ _), .error e⟩ => some e
  | ⟨.fwd _ (.signFspMessage _), .error e⟩ => some e
  | _ => none

/-- The answer to a read of a receipt. -/
def receiptReadOf : Event sig → Option (Reply (Option Receipt))
  | ⟨.rpc (.getTransactionReceipt _), a⟩ => some a
  | _ => none

/-- No signed transaction, no refusal, no broadcast, no report and no read of a receipt. -/
structure Early (e : Event sig) : Prop where
  send : e.op.kind ≠ .send
  report : e.op.kind ≠ .report
  unsigned : signedOf e = none
  unrefused : refusalOf e = none
  unread : receiptReadOf e = none

theorem early_view : AllOf .view Early := by
  rintro ⟨op, ans⟩ h
  refine ⟨fun h' => ?_, fun h' => ?_, ?_, ?_, ?_⟩
  · rw [h] at h'
    cases h'
  · rw [h] at h'
    cases h'
  · cases op with
    | fwd c o => cases o <;> cases h
    | _ => rfl
  · cases op with
    | fwd c o => cases o <;> cases h
    | _ => rfl
  · cases op with
    | rpc o => cases o <;> first | rfl | cases h
    | _ => rfl

theorem early_called (c : Call) : Early ⟨.called c, ()⟩ :=
  ⟨nofun, nofun, rfl, rfl, rfl⟩

theorem emits_feesOr_early (hasRpc : Bool) : Emits (feesOr hasRpc) Early := by
  unfold feesOr
  split
  · refine emits_bind (emits_attempt ?_) fun fees => ?_
    · unfold suggestFees maxFeeCapWei
      refine emits_bind (emits_rpc fun _ => ⟨nofun, nofun, rfl, rfl, rfl⟩) fun baseFees => ?_
      refine emits_bind (emits_bind (emits_ask fun _ => ⟨nofun, nofun, rfl, rfl, rfl⟩)
        fun raw => ?_) fun cap => ?_
      · split
        · dsimp only
          split
          · exact emits_throw _
          · split
            · exact emits_throw _
            · exact emits_pure _
        · exact emits_pure _
      · split
        · exact emits_throw _
        · exact emits_pure _
    · split
      · exact emits_pure _
      · exact emits_pure _
      · exact emits_throw _
  · exact emits_pure _

/-! ## Polling -/

/-- The answers to the reads of receipts, in order. -/
def receiptReads (t : Trace) : List (Reply (Option Receipt)) := t.filterMap receiptReadOf

theorem receiptReads_append (t₁ t₂ : Trace) :
    receiptReads (t₁ ++ t₂) = receiptReads t₁ ++ receiptReads t₂ := List.filterMap_append

theorem receiptReads_early {t : Trace} (h : ∀ e ∈ t, Early e) : receiptReads t = [] :=
  List.filterMap_eq_nil_iff.mpr fun e he => (h e he).unread

/-- What the polling of a receipt reads: `null` until the last answer, which decides. -/
structure Polled (txHash : String) (t : Trace) (x : Except Exc (Option Receipt)) : Prop where
  ops : ∀ e ∈ t, e.op = .rpc (.getTransactionReceipt txHash) ∨ e.op = .deadlinePassed
  reads : ∃ k reply, receiptReads t = List.replicate k (.result none) ++ [reply] ∧
    x = rpcResult "eth_getTransactionReceipt" reply

theorem pollLoop_polled {txHash : String} : ∀ {n : Nat} {t : Trace}
    {x : Except Exc (Option Receipt)}, Runs (pollLoop txHash n) t x → Polled txHash t x
  | 0, t, x, h => by
    obtain ⟨a, rfl, rfl⟩ := runs_rpc.mp h
    exact ⟨by simp, 0, a, rfl, rfl⟩
  | n + 1, t, x, h => by
    obtain ⟨a, t', rfl, ⟨found, ha, h'⟩ | ⟨e, ha, rfl, rfl⟩⟩ := runs_rpc_bind.mp h
    · obtain rfl := rpcResult_eq_ok ha
      cases found with
      | some receipt =>
        obtain ⟨rfl, rfl⟩ := runs_pure.mp h'
        exact ⟨by simp, 0, _, rfl, rfl⟩
      | none =>
        obtain ⟨passed, t'', rfl, h''⟩ := runs_ask_bind.mp h'
        cases passed with
        | true =>
          obtain ⟨rfl, rfl⟩ := runs_pure.mp h''
          exact ⟨by simp, 0, _, rfl, rfl⟩
        | false =>
          obtain ⟨hops, k, reply, hreads, rfl⟩ := pollLoop_polled (n := n) h''
          refine ⟨?_, k + 1, reply, ?_, rfl⟩
          · simpa using hops
          · show _ :: receiptReads t'' = _
            rw [hreads, List.replicate_succ, List.cons_append]
    · exact ⟨by simp, 0, a, rfl, ha.symm⟩

theorem runs_pollReceipt_bind {α : Type} {txHash : String} {timeout : Nat}
    {f : Option Receipt → Py α} {t : Trace} {r : Except Exc α}
    (h : Runs (pollReceipt txHash timeout >>= f) t r) :
    (∃ e, Polled txHash t (.error e) ∧ r = .error e) ∨
      ∃ x t₁ t₂, t = t₁ ++ t₂ ∧ Polled txHash t₁ (.ok x) ∧ Runs (f x) t₂ r := by
  rcases runs_bind.mp h with ⟨x, t₁, t₂, rfl, h₁, h₂⟩ | ⟨e, h₁, rfl⟩
  · exact Or.inr ⟨x, t₁, t₂, rfl, pollLoop_polled h₁, h₂⟩
  · exact Or.inl ⟨e, pollLoop_polled h₁, rfl⟩

/-- `null`. -/
def notMined : Reply (Option Receipt) → Bool
  | .result none => true
  | _ => false

/-- The reads of receipts from the first answer that is not `null`. -/
def settledReads (t : Trace) : List (Reply (Option Receipt)) :=
  (receiptReads t).dropWhile notMined

theorem dropWhile_replicate_none (k : Nat) (l : List (Reply (Option Receipt))) :
    (List.replicate k (Reply.result none) ++ l).dropWhile notMined = l.dropWhile notMined := by
  induction k with
  | zero => rfl
  | succ k ih =>
    rw [List.replicate_succ, List.cons_append, List.dropWhile_cons_of_pos rfl]
    exact ih

theorem Polled.settled_error {txHash : String} {t : Trace} {e : Exc}
    (h : Polled txHash t (.error e)) :
    ∃ reply, settledReads t = [reply] ∧ rpcResult "eth_getTransactionReceipt" reply = .error e := by
  obtain ⟨k, reply, hreads, he⟩ := h.reads
  refine ⟨reply, ?_, he.symm⟩
  rw [settledReads, hreads, dropWhile_replicate_none, List.dropWhile_cons_of_neg]
  cases reply with
  | result a => cases he
  | _ => simp [notMined]

theorem Polled.settled_none {txHash : String} {t : Trace} (h : Polled txHash t (.ok none)) :
    settledReads t = [] := by
  obtain ⟨k, reply, hreads, he⟩ := h.reads
  obtain rfl := rpcResult_eq_ok he.symm
  rw [settledReads, hreads, dropWhile_replicate_none]
  rfl

theorem Polled.settled_some {txHash : String} {t u : Trace} {receipt : Receipt}
    (h : Polled txHash t (.ok (some receipt))) :
    settledReads (t ++ u) = .result (some receipt) :: receiptReads u := by
  obtain ⟨k, reply, hreads, he⟩ := h.reads
  obtain rfl := rpcResult_eq_ok he.symm
  rw [settledReads, receiptReads_append, hreads, List.append_assoc, dropWhile_replicate_none]
  rfl

/-! ## From a signed blob on -/

/-- A status of a run that put nothing on the node. -/
def OutcomeStatus.unsent : OutcomeStatus → Bool
  | .nothingClaimable => true
  | .alreadyFinalized => true
  | .failedRetryable => true
  | .failedTerminal => true
  | _ => false

/-- The status of a broadcast that was rejected so. -/
def BroadcastOutcome.status : BroadcastOutcome → OutcomeStatus
  | .rejectedNonceTooLow => .failedRetryable
  | _ => .failedTerminal

section

variable {α : Type}

/-- How a run goes on from a signed blob.  `verdict` is what a rejection with this text is reported
as, and `go` is the program that follows an accepted broadcast. -/
inductive Delivery (status : α → Option OutcomeStatus) (caller : Option String)
    (resp : SignTransactionResponse) (verdict : String → BroadcastOutcome) (cls : Option String)
    (go : String → Py α) : Trace → Except Exc α → Prop where
  /-- The answer to the broadcast had another shape. -/
  | broken {c m : String} : Delivery status caller resp verdict cls go
      [⟨.rpc (.sendRawTransaction resp.signedRawTx), .malformed c m⟩] (.error (.other c m))
  | rejected {reply : Reply String} {msg : String} {ans : Except Exc Unit} {o : α}
      (hreply : rpcResult "eth_sendRawTransaction" reply = .error (.rpcError msg))
      (hans : swallow ans = .ok ()) (ho : ∀ st, status o = some st → st = (verdict msg).status) :
      Delivery status caller resp verdict cls go
      [⟨.rpc (.sendRawTransaction resp.signedRawTx), reply⟩,
        ⟨.fwd caller (.reportBroadcastResult resp.txId resp.hash (verdict msg) cls), ans⟩] (.ok o)
  /-- The report raised something that is not caught. -/
  | rejectedRaised {reply : Reply String} {msg : String} {ans : Except Exc Unit} {e : Exc}
      (hreply : rpcResult "eth_sendRawTransaction" reply = .error (.rpcError msg))
      (hans : swallow ans = .error e) : Delivery status caller resp verdict cls go
      [⟨.rpc (.sendRawTransaction resp.signedRawTx), reply⟩,
        ⟨.fwd caller (.reportBroadcastResult resp.txId resp.hash (verdict msg) cls), ans⟩] (.error e)
  | acceptedRaised {bh : String} {ans : Except Exc Unit} {e : Exc} (hans : swallow ans = .error e) :
      Delivery status caller resp verdict cls go
      [⟨.rpc (.sendRawTransaction resp.signedRawTx), .result bh⟩,
        ⟨.fwd caller (.reportBroadcastResult resp.txId bh .accepted none), ans⟩] (.error e)
  | accepted {bh : String} {ans : Except Exc Unit} {t : Trace} {r : Except Exc α}
      (hans : swallow ans = .ok ()) (h : Runs (go bh) t r) :
      Delivery status caller resp verdict cls go
      (⟨.rpc (.sendRawTransaction resp.signedRawTx), .result bh⟩ ::
        ⟨.fwd caller (.reportBroadcastResult resp.txId bh .accepted none), ans⟩ :: t) r

/-- A rejected broadcast put nothing on the node. -/
theorem unsent_of_rejected {status : α → Option OutcomeStatus} {o : α} {verdict : BroadcastOutcome}
    (ho : ∀ st, status o = some st → st = verdict.status) :
    (status o).all OutcomeStatus.unsent = true := by
  cases hst : status o with
  | none => rfl
  | some st =>
    rw [ho st hst]
    cases verdict <;> rfl

theorem rpcResult_eq_other {β : Type} {method : String} {reply : Reply β} {e : Exc}
    (h : rpcResult method reply = .error e) (hne : ∀ m, e ≠ .rpcError m) :
    ∃ c m, reply = .malformed c m ∧ e = .other c m := by
  cases reply <;> cases h
  · exact absurd rfl (hne _)
  · exact absurd rfl (hne _)
  · exact absurd rfl (hne _)
  · exact ⟨_, _, rfl, rfl⟩

theorem broadcastSigned_delivery {status : α → Option OutcomeStatus} {caller : Option String}
    {resp : SignTransactionResponse} {out : OutcomeStatus → String → α} {go : String → Py α}
    {t : Trace} {r : Except Exc α} (hout : ∀ st d, status (out st d) = some st)
    (h : Runs (broadcastSigned caller resp out go) t r) :
    Delivery status caller resp classifyBroadcastError (some "RpcError") go t r := by
  obtain ⟨reply, t', rfl, h'⟩ := runs_attempt_rpc_bind.mp h
  split at h'
  · rename_i msg hmsg
    obtain ⟨ans, t'', rfl, ⟨hans, h''⟩ | ⟨e, hans, rfl, rfl⟩⟩ := runs_reportQuietly_bind.mp h'
    · have hr : ∃ o, r = .ok o ∧
          ∀ st, status o = some st → st = (classifyBroadcastError msg).status := by
        split at h''
        · rename_i hc
          refine ⟨_, (runs_pure.mp h'').2, fun st hst => ?_⟩
          rw [hout] at hst
          rw [hc, ← Option.some.inj hst]
          rfl
        · rename_i hc
          refine ⟨_, (runs_pure.mp h'').2, fun st hst => ?_⟩
          rw [hout] at hst
          rw [← Option.some.inj hst]
          cases hv : classifyBroadcastError msg <;> first | rfl | exact absurd hv hc
      have ht : t'' = [] := by split at h'' <;> exact (runs_pure.mp h'').1
      obtain ⟨o, rfl, ho⟩ := hr
      subst ht
      exact .rejected hmsg hans ho
    · exact .rejectedRaised hmsg hans
  · rename_i e hne he
    obtain ⟨rfl, rfl⟩ := runs_throw.mp h'
    obtain ⟨c, m, rfl, rfl⟩ := rpcResult_eq_other he fun m hm => hne m hm
    exact .broken
  · rename_i bh hbh
    obtain rfl := rpcResult_eq_ok hbh
    obtain ⟨ans, t'', rfl, ⟨hans, h''⟩ | ⟨e, hans, rfl, rfl⟩⟩ := runs_reportQuietly_bind.mp h'
    · exact .accepted hans h''
    · exact .acceptedRaised hans

/-- One blob is broadcast. -/
theorem Delivery.sends {status : α → Option OutcomeStatus} {caller : Option String}
    {resp : SignTransactionResponse} {verdict : String → BroadcastOutcome} {cls : Option String}
    {go : String → Py α} {t : Trace} {r : Except Exc α}
    (h : Delivery status caller resp verdict cls go t r)
    (hgo : ∀ bh, Emits (go bh) fun e => e.op.kind ≠ .send) {raw : String} {reply : Reply String}
    (he : (⟨.rpc (.sendRawTransaction raw), reply⟩ : Event sig) ∈ t) : resp.signedRawTx = raw := by
  have htwo : ∀ {rep : Reply String} {o : BroadcastOutcome} {c : Option String} {hash : String}
      {ans : Except Exc Unit},
      (⟨.rpc (.sendRawTransaction raw), reply⟩ : Event sig) ∈
        [⟨.rpc (.sendRawTransaction resp.signedRawTx), rep⟩,
          ⟨.fwd caller (.reportBroadcastResult resp.txId hash o c), ans⟩] →
      resp.signedRawTx = raw := by
    intro rep o c hash ans hmem
    rcases List.mem_cons.mp hmem with hmem | hmem
    · cases hmem
      rfl
    · rw [List.mem_singleton] at hmem
      cases hmem
  cases h with
  | broken =>
    rw [List.mem_singleton] at he
    cases he
    rfl
  | rejected hreply hans ho => exact htwo he
  | rejectedRaised hreply hans => exact htwo he
  | acceptedRaised hans => exact htwo he
  | @accepted bh ans t _ hans h =>
    rcases List.mem_cons.mp he with he | he
    · cases he
      rfl
    · rcases List.mem_cons.mp he with he | he
      · cases he
      · exact absurd rfl (hgo bh _ _ h _ he)

/-! ## Up to the signature -/

/-- How a run goes: it ends before the signing request, or `fwd` refuses, or the signed blob is
kept back, or it is delivered.  `caught` are the refusals that become an outcome. -/
inductive Submission [External] (status : α → Option OutcomeStatus) (caught : Exc → Bool)
    (sends : Bool) (deliver : SignTransactionResponse → Trace → Except Exc α → Prop) :
    Trace → Except Exc α → Prop where
  | early {t : Trace} {r : Except Exc α} (ht : ∀ e ∈ t, Early e)
      (hok : ∀ o, r = .ok o → (status o).all OutcomeStatus.unsent = true)
      (herr : ∀ e, r = .error e → QuietAbi → Foreign e) : Submission status caught sends deliver t r
  | refused {pre : Trace} {e : Event sig} {exc : Exc} {r : Except Exc α}
      (hpre : ∀ e ∈ pre, Early e) (he : refusalOf e = some exc) (hunsent : e.op.kind = .sign)
      (hok : ∀ o, r = .ok o → caught exc = true ∧ (status o).all OutcomeStatus.unsent = true)
      (herr : ∀ x, r = .error x → caught exc = false ∧ x = exc) :
      Submission status caught sends deliver (pre ++ [e]) r
  | kept {pre : Trace} {e : Event sig} {resp : SignTransactionResponse} {o : α}
      (hpre : ∀ e ∈ pre, Early e) (he : signedOf e = some resp) (hsends : sends = false)
      (ho : status o = some .submittedPending) :
      Submission status caught sends deliver (pre ++ [e]) (.ok o)
  | sent {pre t : Trace} {e : Event sig} {resp : SignTransactionResponse} {r : Except Exc α}
      (hpre : ∀ e ∈ pre, Early e) (he : signedOf e = some resp) (hsends : sends = true)
      (h : deliver resp t r) : Submission status caught sends deliver (pre ++ e :: t) r

variable [External] {status : α → Option OutcomeStatus} {caught : Exc → Bool} {sends : Bool}
  {deliver : SignTransactionResponse → Trace → Except Exc α → Prop} {t u : Trace}
  {r : Except Exc α}

/-- Early exchanges before a run. -/
theorem Submission.prepend (h : Submission status caught sends deliver t r)
    (hu : ∀ e ∈ u, Early e) : Submission status caught sends deliver (u ++ t) r := by
  have happ : ∀ {pre : Trace}, (∀ e ∈ pre, Early e) → ∀ e ∈ u ++ pre, Early e := by
    intro pre hpre e he
    rcases List.mem_append.mp he with he | he
    · exact hu e he
    · exact hpre e he
  cases h with
  | early ht hok herr => exact .early (happ ht) hok herr
  | refused hpre he hs hok herr =>
    rw [← List.append_assoc]
    exact .refused (happ hpre) he hs hok herr
  | kept hpre he hsends ho =>
    rw [← List.append_assoc]
    exact .kept (happ hpre) he hsends ho
  | sent hpre he hsends h =>
    rw [← List.append_assoc]
    exact .sent (happ hpre) he hsends h

/-- A run that asks nothing but what is early, and ends with an unsent outcome. -/
theorem Submission.done {o : α} (ht : ∀ e ∈ t, Early e)
    (ho : (status o).all OutcomeStatus.unsent = true) :
    Submission status caught sends deliver t (.ok o) :=
  .early ht (fun o' ho' => by cases ho'; exact ho) fun e he => by cases he

theorem Submission.raised {e : Exc} (ht : ∀ e ∈ t, Early e) (he : QuietAbi → Foreign e) :
    Submission status caught sends deliver t (.error e) :=
  .early ht (fun o ho => by cases ho) fun e' he' => by cases he'; exact he

/-- The refusal of a signing request: an outcome, or raised again. -/
theorem Submission.of_refusal {e : Event sig} {exc : Exc} (he : refusalOf e = some exc)
    (hk : e.op.kind = .sign)
    (h : (∃ o, Runs (pure o : Py α) t r ∧ caught exc = true ∧
      (status o).all OutcomeStatus.unsent = true) ∨
      (Runs (throw exc : Py α) t r ∧ caught exc = false)) :
    Submission status caught sends deliver (e :: t) r := by
  rcases h with ⟨o, h, hc, ho⟩ | ⟨h, hc⟩
  · obtain ⟨rfl, rfl⟩ := runs_pure.mp h
    exact .refused (List.forall_mem_nil Early) he hk (fun o' ho' => by cases ho'; exact ⟨hc, ho⟩)
      fun x hx => by cases hx
  · obtain ⟨rfl, rfl⟩ := runs_throw.mp h
    exact .refused (List.forall_mem_nil Early) he hk (fun o ho => by cases ho)
      fun x hx => by cases hx; exact ⟨hc, rfl⟩

end

/-- `except FwdTerminalError` and `except FwdRetryableError`. -/
def Exc.refuses : Exc → Bool
  | .fwdTerminal .. => true
  | .fwdRetryable .. => true
  | _ => false

section

variable [External]

/-! ## The orchestrators -/

def ClaimOutcome.sent (o : ClaimOutcome) : Option OutcomeStatus := some o.status

def FspOutcome.sent (o : FspOutcome) : Option OutcomeStatus := some o.status

/-- `submit_claims` after the broadcast was accepted. -/
def followClaim (s : Settings) (wt : Nat) (resp : SignTransactionResponse)
    (out : String → OutcomeStatus → String → ClaimOutcome) (bh : String) : Py ClaimOutcome := do
  match ← pollReceipt bh wt with
  | none => return out bh .submittedPending "submitted; receipt poll timed out"
  | some receipt => confirmClaim s resp bh (out bh) receipt

/-- What `submit_claims` does with a signed blob. -/
def DeliversClaim (s : Settings) (wt : Nat) (resp : SignTransactionResponse) (t : Trace)
    (r : Except Exc ClaimOutcome) : Prop :=
  ∃ out : String → OutcomeStatus → String → ClaimOutcome,
    (∀ h st d, (out h st d).status = st ∧ (out h st d).txHash = some h) ∧
    Delivery ClaimOutcome.sent s.fwdCallerToken resp classifyBroadcastError (some "RpcError")
      (followClaim s wt resp out) t r

omit [External] in
theorem emits_followClaim {s : Settings} {φ : Event sig → Prop} (h : AllOf .read φ)
    (hw : AllOf .report φ) (wt : Nat) (resp : SignTransactionResponse)
    (out : String → OutcomeStatus → String → ClaimOutcome) (bh : String) :
    Emits (followClaim s wt resp out bh) φ := by
  refine emits_bind (emits_pollReceipt h _ _) fun receipt => ?_
  split
  · exact emits_pure _
  · exact emits_confirmClaim h hw _ _ _ _ _

omit [External] in
theorem broadcastClaim_eq (s : Settings) (wt : Nat) (resp : SignTransactionResponse)
    (out : String → OutcomeStatus → String → ClaimOutcome) :
    broadcastClaim s wt resp out =
      broadcastSigned s.fwdCallerToken resp (out resp.hash) (followClaim s wt resp out) := rfl

/-- The outcomes of `submit_claims` once the last epoch is known. -/
def claimOut (ct : Int) (name b : String) (epochs : List Int) (lastEpoch : Int)
    (status : OutcomeStatus) (detail : String) : ClaimOutcome :=
  { claimType := ct, claimTypeName := name, beneficiary := b, status := status, detail := detail,
    epochs := epochs, lastEpoch := some lastEpoch }

/-- Its outcomes once the transaction is signed. -/
def signedOut (out : OutcomeStatus → String → ClaimOutcome) (resp : SignTransactionResponse)
    (txHash : String) (status : OutcomeStatus) (detail : String) : ClaimOutcome :=
  { out status detail with txId := some resp.txId, txHash := some txHash }

/-- `submit_claims` after its signing request was answered. -/
def answeredClaim (s : Settings) (wait : Bool) (wt : Nat) (hasRpc : Bool)
    (out : OutcomeStatus → String → ClaimOutcome) :
    Except Exc SignTransactionResponse → Py ClaimOutcome
  | .error (.fwdTerminal _ _ text) => return out .failedTerminal s!"fwd denied/failed: {text}"
  | .error (.fwdRetryable _ _ text) => return out .failedRetryable s!"fwd transient: {text}"
  | .error e => throw e
  | .ok resp =>
    if !hasRpc then
      return signedOut out resp resp.hash .submittedPending "signed (no rpc — cannot broadcast)"
    else if !wait then
      return signedOut out resp resp.hash .submittedPending "submitted (no wait)"
    else broadcastClaim s wt resp (signedOut out resp)

omit [External] in
/-- After the answer nothing is exchanged, or a signed blob is broadcast. -/
theorem answeredClaim_cases {s : Settings} {wait : Bool} {wt : Nat} {hasRpc : Bool}
    {out : OutcomeStatus → String → ClaimOutcome} {x : Except Exc SignTransactionResponse}
    {t : Trace} {r : Except Exc ClaimOutcome}
    (h : Runs (answeredClaim s wait wt hasRpc out x) t r) :
    t = [] ∨ ∃ resp, x = .ok resp ∧ Runs (broadcastClaim s wt resp (signedOut out resp)) t r := by
  cases x with
  | error exc =>
    refine .inl ?_
    cases exc with
    | fwdTerminal st code text => exact (runs_pure.mp h).1
    | fwdRetryable st code text => exact (runs_pure.mp h).1
    | _ => exact (runs_throw.mp h).1
  | ok resp =>
    unfold answeredClaim at h
    dsimp only at h
    split at h
    · exact .inl (runs_pure.mp h).1
    split at h
    · exact .inl (runs_pure.mp h).1
    · exact .inr ⟨resp, rfl, h⟩

/-- A run of `submit_claims` up to its signing request. -/
inductive ClaimRequest (s : Settings) (ct : Int) (b : String) (claims : List RewardClaimWithProof)
    (wait : Bool) (wt : Nat) (retry : Option String) (hasRpc : Bool) :
    Trace → Except Exc ClaimOutcome → Prop where
  | early {t : Trace} {r : Except Exc ClaimOutcome} (ht : ∀ e ∈ t, Early e)
      (hok : ∀ o, r = .ok o → (o.sent).all OutcomeStatus.unsent = true)
      (herr : ∀ e, r = .error e → QuietAbi → Foreign e) :
      ClaimRequest s ct b claims wait wt retry hasRpc t r
  | asked {pre t : Trace} {lastEpoch : Int} {data : String} {fees : Int × Int}
      {out : OutcomeStatus → String → ClaimOutcome} {x : Except Exc SignTransactionResponse}
      {r : Except Exc ClaimOutcome} (hpre : ∀ e ∈ pre, Early e)
      (hlast : (claims.map fun c => c.body.rewardEpochId).getLast? = some lastEpoch)
      (hdata : buildClaimCalldata b (s.claimRecipientAddress.getD "") lastEpoch s.wrapRewards
        claims = .ok data)
      (hout : ∀ st d, (out st d).status = st)
      (h : Runs (answeredClaim s wait wt hasRpc out x) t r) :
      ClaimRequest s ct b claims wait wt retry hasRpc
        (pre ++ ⟨.fwd s.fwdCallerToken (.signTransaction (claimTxBody s data fees)
          (makeIdempotencyKey s.network ct b lastEpoch (retryToken retry s.idempotencyRetry))),
          x⟩ :: t) r

theorem submitClaims_request {s : Settings} {ct : Int} {b : String}
    {claims : List RewardClaimWithProof} {wait : Bool} {wt : Nat} {retry : Option String}
    {hasRpc : Bool} {t : Trace} {r : Except Exc ClaimOutcome}
    (h : Runs (submitClaims s ct b claims wait wt retry hasRpc) t r) :
    ClaimRequest s ct b claims wait wt retry hasRpc t r := by
  have hnil : ∀ e ∈ ([] : Trace), Early e := by simp
  have done : ∀ {t : Trace} {o : ClaimOutcome}, (∀ e ∈ t, Early e) →
      (o.sent).all OutcomeStatus.unsent = true →
      ClaimRequest s ct b claims wait wt retry hasRpc t (.ok o) := fun ht ho =>
    .early ht (fun o' ho' => by cases ho'; exact ho) fun e he => by cases he
  have raised : ∀ {t : Trace} {e : Exc}, (∀ e ∈ t, Early e) → (QuietAbi → Foreign e) →
      ClaimRequest s ct b claims wait wt retry hasRpc t (.error e) := fun ht he =>
    .early ht (fun o ho => by cases ho) fun e' he' => by cases he'; exact he
  unfold submitClaims at h
  rcases runs_fromExcept_bind.mp h with ⟨ct', -, h⟩ | ⟨e, he, rfl, rfl⟩
  swap
  · exact raised hnil fun _ => fails_claimTypeOf _ e he
  dsimp only at h
  split at h
  · obtain ⟨rfl, rfl⟩ := runs_pure.mp h
    exact done hnil rfl
  split at h
  · obtain ⟨rfl, rfl⟩ := runs_pure.mp h
    exact done hnil rfl
  split at h
  · obtain ⟨rfl, rfl⟩ := runs_pure.mp h
    exact done hnil rfl
  rename_i lastEpoch hlast
  rcases runs_fromExcept_bind.mp h with ⟨data, hdata, h⟩ | ⟨e, he, rfl, rfl⟩
  swap
  · exact raised hnil fun hq => fails_buildClaimCalldata hq _ _ _ _ _ e he
  rcases runs_bind.mp h with ⟨fees, t₁, t₂, rfl, h₁, h₂⟩ | ⟨e, h₁, rfl⟩
  swap
  · exact raised (emits_feesOr_early hasRpc _ _ h₁) fun _ => raises_feesOr hasRpc _ _ h₁
  have hpre := emits_feesOr_early hasRpc _ _ h₁
  split at h₂
  · obtain ⟨rfl, rfl⟩ := runs_pure.mp h₂
    rw [List.append_nil]
    exact done hpre rfl
  obtain ⟨x, t₃, rfl, h₃⟩ := runs_attempt_fwd_bind.mp h₂
  have hans : Runs (answeredClaim s wait wt hasRpc
      (claimOut ct ct'.name b (claims.map fun c => c.body.rewardEpochId) lastEpoch) x) t₃ r := by
    cases x with
    | error exc => cases exc <;> exact h₃
    | ok resp => exact h₃
  exact .asked hpre hlast hdata (fun _ _ => rfl) hans

theorem submitClaims_submission {s : Settings} {ct : Int} {b : String}
    {claims : List RewardClaimWithProof} {wait : Bool} {wt : Nat} {retry : Option String}
    {hasRpc : Bool} {t : Trace} {r : Except Exc ClaimOutcome}
    (h : Runs (submitClaims s ct b claims wait wt retry hasRpc) t r) :
    Submission ClaimOutcome.sent Exc.refuses (hasRpc && wait) (DeliversClaim s wt) t r := by
  have hnil : ∀ e ∈ ([] : Trace), Early e := by simp
  cases submitClaims_request h with
  | early ht hok herr => exact .early ht hok herr
  | @asked pre t lastEpoch data fees out x r hpre hlast hdata hout h =>
    refine Submission.prepend ?_ hpre
    cases x with
    | error exc =>
      have hunsent : ∀ {st : OutcomeStatus} {d : String}, st.unsent = true →
          (ClaimOutcome.sent (out st d)).all OutcomeStatus.unsent = true := by
        intro st d hst
        rw [ClaimOutcome.sent, hout]
        exact hst
      refine .of_refusal rfl rfl ?_
      cases exc with
      | fwdTerminal st code text => exact Or.inl ⟨_, h, rfl, hunsent rfl⟩
      | fwdRetryable st code text => exact Or.inl ⟨_, h, rfl, hunsent rfl⟩
      | _ => exact Or.inr ⟨h, rfl⟩
    | ok resp =>
      by_cases hrpc : hasRpc = true
      · by_cases hwait : wait = true
        · simp only [answeredClaim, hrpc, hwait, Bool.not_true, Bool.false_eq_true, if_false,
            broadcastClaim_eq] at h
          have hst : ∀ hash st d, (signedOut out resp hash st d).status = st :=
            fun _ st d => hout st d
          have hsome : ∀ st d, ClaimOutcome.sent (signedOut out resp resp.hash st d) = some st :=
            fun st d => congrArg some (hst resp.hash st d)
          exact .sent hnil rfl (by simp [hrpc, hwait])
            ⟨signedOut out resp, fun hash st d => ⟨hst hash st d, rfl⟩, broadcastSigned_delivery hsome h⟩
        · obtain ⟨rfl, rfl⟩ := runs_pure.mp (by simpa [answeredClaim, hrpc, hwait] using h)
          exact .kept hnil rfl (by simp [hwait]) (congrArg some (hout _ _))
      · obtain ⟨rfl, rfl⟩ := runs_pure.mp (by simpa [answeredClaim, hrpc] using h)
        exact .kept hnil rfl (by simp [hrpc]) (congrArg some (hout _ _))

omit [External] in
theorem leg2Refusal_unsent (status : Int) (code text : String) :
    (some (leg2Refusal status code text).1).all OutcomeStatus.unsent = true := by
  unfold leg2Refusal
  split <;> rfl

/-- `_broadcast_and_confirm` after the broadcast was accepted. -/
def followFsp (caller : Option String) (mt : MessageType) (epoch : Int) (wt : Nat)
    (resp : SignTransactionResponse) (out : String → OutcomeStatus → String → FspOutcome)
    (bh : String) : Py FspOutcome := do
  match ← pollReceipt bh wt with
  | none => return out bh .submittedPending "submitted; receipt poll timed out"
  | some receipt => confirmFsp caller mt epoch resp bh (out bh) receipt

/-- What `_broadcast_and_confirm` does with a signed blob. -/
def DeliversFsp (caller : Option String) (mt : MessageType) (epoch : Int) (wt : Nat)
    (resp : SignTransactionResponse) (t : Trace) (r : Except Exc FspOutcome) : Prop :=
  ∃ out : String → OutcomeStatus → String → FspOutcome, (∀ h st d, (out h st d).status = st) ∧
    Delivery FspOutcome.sent caller resp classifyBroadcastError (some "RpcError")
      (followFsp caller mt epoch wt resp out) t r

/-- The outcomes of `_broadcast_and_confirm`. -/
def fspOut (mt : MessageType) (epoch : Int) (sig' : SignFspMessageResponse)
    (resp : SignTransactionResponse) (txHash : String) (status : OutcomeStatus) (detail : String) :
    FspOutcome :=
  { messageType := mt, rewardEpochId := epoch, status := status, detail := detail,
    messageHash := some sig'.messageHash, leg1Sig := some (sig'.v, sig'.r, sig'.s),
    txId := some resp.txId, txHash := some txHash }

theorem broadcastAndConfirm_eq (caller : Option String) (resp : SignTransactionResponse)
    (mt : MessageType) (epoch : Int) (sig' : SignFspMessageResponse) (wt : Nat) :
    broadcastAndConfirm caller true resp mt epoch sig' wt =
      broadcastSigned caller resp (fspOut mt epoch sig' resp resp.hash)
        (followFsp caller mt epoch wt resp (fspOut mt epoch sig' resp)) := by
  unfold broadcastAndConfirm
  dsimp only
  rw [if_neg (by decide)]
  rfl

theorem broadcastAndConfirm_delivers {caller : Option String} {hasRpc : Bool}
    {resp : SignTransactionResponse} {mt : MessageType} {epoch : Int}
    {sig' : SignFspMessageResponse} {wt : Nat} {t : Trace} {r : Except Exc FspOutcome}
    (h : Runs (broadcastAndConfirm caller hasRpc resp mt epoch sig' wt) t r) :
    (hasRpc = false ∧ t = [] ∧ ∃ o, r = .ok o ∧ o.status = .submittedPending) ∨
      (hasRpc = true ∧ DeliversFsp caller mt epoch wt resp t r) := by
  cases hasRpc with
  | false =>
    obtain ⟨rfl, rfl⟩ := runs_pure.mp h
    exact Or.inl ⟨rfl, rfl, _, rfl, rfl⟩
  | true =>
    have hout : ∀ st d, FspOutcome.sent (fspOut mt epoch sig' resp resp.hash st d) = some st :=
      fun _ _ => rfl
    rw [broadcastAndConfirm_eq] at h
    exact Or.inr ⟨rfl, fspOut mt epoch sig' resp, fun _ _ _ => rfl, broadcastSigned_delivery hout h⟩

theorem submitLeg_submission {s : Settings} {plan : LegPlan} {epoch : Int} {wait : Bool} {wt : Nat}
    {token : Option String} {hasRpc : Bool} {sig' : SignFspMessageResponse} {t : Trace}
    {r : Except Exc FspOutcome} (hcd : QuietAbi → Fails (plan.calldata sig') Foreign)
    (h : Runs (submitLeg s plan epoch wait wt token hasRpc sig') t r) :
    Submission FspOutcome.sent Exc.refuses (hasRpc && wait)
      (DeliversFsp plan.submitToken plan.messageType epoch wt) t r := by
  have hnil : ∀ e ∈ ([] : Trace), Early e := by simp
  unfold submitLeg at h
  rcases runs_fromExcept_bind.mp h with ⟨data, -, h⟩ | ⟨e, he, rfl, rfl⟩
  swap
  · exact .raised hnil fun hq => hcd hq e he
  rcases runs_bind.mp h with ⟨fees, t₁, t₂, rfl, h₁, h₂⟩ | ⟨e, h₁, rfl⟩
  swap
  · exact .raised (emits_feesOr_early hasRpc _ _ h₁) fun _ => raises_feesOr hasRpc _ _ h₁
  refine Submission.prepend ?_ (emits_feesOr_early hasRpc _ _ h₁)
  split at h₂
  · obtain ⟨rfl, rfl⟩ := runs_pure.mp h₂
    exact .done hnil rfl
  obtain ⟨x, t₃, rfl, h₃⟩ := runs_attempt_fwd_bind.mp h₂
  cases x with
  | error exc =>
    refine .of_refusal rfl rfl ?_
    cases exc with
    | fwdTerminal st code text => exact Or.inl ⟨_, h₃, rfl, leg2Refusal_unsent st code text⟩
    | fwdRetryable st code text => exact Or.inl ⟨_, h₃, rfl, rfl⟩
    | _ => exact Or.inr ⟨h₃, rfl⟩
  | ok resp =>
    by_cases hwait : wait = true
    · have h₄ :
          Runs (broadcastAndConfirm plan.submitToken hasRpc resp plan.messageType epoch sig' wt)
          t₃ r := by simpa [hwait] using h₃
      rcases broadcastAndConfirm_delivers h₄ with ⟨rfl, rfl, o, rfl, ho⟩ | ⟨rfl, hd⟩
      · exact .kept hnil rfl rfl (congrArg some ho)
      · exact .sent hnil rfl (by simp [hwait]) hd
    · obtain ⟨rfl, rfl⟩ := runs_pure.mp (by simpa [hwait] using h₃)
      exact .kept hnil rfl (by simp [hwait]) rfl

theorem signAndSubmit_submission {s : Settings} {plan : LegPlan} {epoch : Int} {wait : Bool}
    {wt : Nat} {token : Option String} {hasRpc : Bool} {t : Trace} {r : Except Exc FspOutcome}
    (hcd : QuietAbi → ∀ sig', Fails (plan.calldata sig') Foreign)
    (h : Runs (signAndSubmit s plan epoch wait wt token hasRpc) t r) :
    Submission FspOutcome.sent Exc.refuses (hasRpc && wait)
      (DeliversFsp plan.submitToken plan.messageType epoch wt) t r := by
  have hnil : ∀ e ∈ ([] : Trace), Early e := by simp
  obtain ⟨x, t', rfl, h'⟩ := runs_attempt_fwd_bind.mp h
  cases x with
  | error exc =>
    refine .of_refusal rfl rfl ?_
    cases exc with
    | fwdTerminal st code text => exact Or.inl ⟨_, h', rfl, rfl⟩
    | fwdRetryable st code text => exact Or.inl ⟨_, h', rfl, rfl⟩
    | _ => exact Or.inr ⟨h', rfl⟩
  | ok sig' =>
    refine Submission.prepend (u := [_]) (submitLeg_submission (fun hq => hcd hq sig') h') ?_
    intro e he
    rw [List.mem_singleton.mp he]
    exact ⟨nofun, nofun, rfl, rfl, rfl⟩

theorem runSignUptime_submission {s : Settings} {epoch : Int} {wait : Bool} {wt : Nat}
    {retry : Option String} {hasRpc : Bool} {t : Trace} {r : Except Exc FspOutcome}
    (h : Runs (runSignUptime s epoch wait wt retry hasRpc) t r) :
    Submission FspOutcome.sent Exc.refuses (hasRpc && wait)
      (DeliversFsp s.fspUptimeSubmitCallerToken .uptime epoch wt) t r := by
  have hnil : ∀ e ∈ ([] : Trace), Early e := by simp
  obtain ⟨t', rfl, h'⟩ := runs_enter_bind.mp h
  refine Submission.prepend (u := [_]) ?_ (by simpa using early_called _)
  split at h'
  · rename_i err hcfg
    obtain ⟨rfl, rfl⟩ := runs_pure.mp h'
    exact .done hnil (by rw [FspOutcome.sent, checkFspConfig_status hcfg]; rfl)
  have hread : Emits (finalizedAlready hasRpc
      (rpc (.uptimeVoteHash s.net.flareSystemsManager epoch))) Early :=
    emits_finalizedAlready hasRpc (emits_rpc fun _ => ⟨nofun, nofun, rfl, rfl, rfl⟩)
  rcases runs_bind.mp h' with ⟨fin, t₁, t₂, rfl, h₁, h₂⟩ | ⟨e, h₁, rfl⟩
  · refine Submission.prepend ?_ (hread _ _ h₁)
    split at h₂
    · obtain ⟨rfl, rfl⟩ := runs_pure.mp h₂
      exact .done hnil rfl
    · have hcd : QuietAbi → ∀ sig', Fails ((uptimePlan s epoch).calldata sig') Foreign :=
        fun hq sig' => fails_buildSignUptimeCalldata hq _ _ _ _
      have hsub := signAndSubmit_submission hcd h₂
      exact hsub
  · exact .raised (hread _ _ h₁) fun _ => raises_finalizedAlready hasRpc raises_rpc _ _ h₁

theorem runSignRewards_submission {s : Settings} {epoch : Int} {wait : Bool} {wt : Nat}
    {retry : Option String} {hasRpc : Bool} {t : Trace} {r : Except Exc FspOutcome}
    (h : Runs (runSignRewards s epoch wait wt retry hasRpc) t r) :
    Submission FspOutcome.sent Exc.refuses (hasRpc && wait)
      (DeliversFsp s.fspRewardSubmitCallerToken .rewardDistribution epoch wt) t r := by
  have hnil : ∀ e ∈ ([] : Trace), Early e := by simp
  obtain ⟨t', rfl, h'⟩ := runs_enter_bind.mp h
  refine Submission.prepend (u := [_]) ?_ (by simpa using early_called _)
  dsimp only at h'
  split at h'
  · rename_i err hcfg
    obtain ⟨rfl, rfl⟩ := runs_pure.mp h'
    exact .done hnil (by rw [FspOutcome.sent, checkFspConfig_status hcfg]; rfl)
  have hfile := emits_getRewardDistributionData early_view s epoch
  rcases runs_bind.mp h' with ⟨f, t₁, t₂, rfl, h₁, h₂⟩ | ⟨e, h₁, -⟩
  swap
  · obtain ⟨f, -, he⟩ := runs_getRewardDistributionData.mp h₁
    cases he
  refine Submission.prepend ?_ (hfile _ _ h₁)
  split at h₂
  · obtain ⟨rfl, rfl⟩ := runs_pure.mp h₂
    exact .done hnil rfl
  rename_i rdd
  split at h₂
  · obtain ⟨rfl, rfl⟩ := runs_pure.mp h₂
    exact .done hnil rfl
  rcases runs_fromExcept_bind.mp h₂ with ⟨refusal, -, h₃⟩ | ⟨e, he, rfl, rfl⟩
  swap
  · exact .raised hnil fun hq => fails_rootRefusal hq rdd e he
  split at h₃
  · obtain ⟨rfl, rfl⟩ := runs_pure.mp h₃
    exact .done hnil rfl
  have hread : Emits (finalizedAlready hasRpc
      (rpc (.rewardsHash s.net.flareSystemsManager epoch))) Early :=
    emits_finalizedAlready hasRpc (emits_rpc fun _ => early_view _ rfl)
  rcases runs_bind.mp h₃ with ⟨fin, t₃, t₄, rfl, h₄, h₅⟩ | ⟨e, h₄, rfl⟩
  · refine Submission.prepend ?_ (hread _ _ h₄)
    split at h₅
    · obtain ⟨rfl, rfl⟩ := runs_pure.mp h₅
      exact .done hnil rfl
    · have hcd : QuietAbi → ∀ sig', Fails ((rewardsPlan s epoch rdd).calldata sig') Foreign :=
        fun hq sig' => fails_buildSignRewardsCalldata hq _ _ _ _ _ _ _
      have hsub := signAndSubmit_submission hcd h₅
      exact hsub
  · exact .raised (hread _ _ h₄) fun _ => raises_finalizedAlready hasRpc raises_rpc _ _ h₄

theorem runClaim_submission {s : Settings} {ct : Int} {b : String} {only : Option Int} {wait : Bool}
    {wt : Nat} {retry : Option String} {t : Trace} {r : Except Exc ClaimOutcome}
    (h : Runs (runClaim s ct b only wait wt retry) t r) :
    Submission ClaimOutcome.sent Exc.refuses (true && wait) (DeliversClaim s wt) t r := by
  have hnil : ∀ e ∈ ([] : Trace), Early e := by simp
  obtain ⟨t', rfl, h'⟩ := runs_enter_bind.mp h
  refine Submission.prepend (u := [_]) ?_ (by simpa using early_called _)
  rcases runs_fromExcept_bind.mp h' with ⟨ct', -, h'⟩ | ⟨e, he, rfl, rfl⟩
  swap
  · exact .raised hnil fun _ => fails_claimTypeOf _ e he
  dsimp only at h'
  obtain ⟨x, t₁, t₂, rfl, h₁, h₂⟩ := runs_attempt_bind.mp h'
  refine Submission.prepend ?_ (emits_preflight early_view s b only _ _ h₁)
  split at h₂
  · obtain ⟨rfl, rfl⟩ := runs_pure.mp h₂
    exact .done hnil rfl
  · rename_i e hne
    obtain ⟨rfl, rfl⟩ := runs_throw.mp h₂
    exact .raised hnil fun _ => Exc.ofCall_eq_false (raises_preflight s b only _ _ h₁)
      fun m hm => hne m hm
  · obtain ⟨rfl, rfl⟩ := runs_pure.mp h₂
    exact .done hnil rfl
  obtain ⟨y, t₃, t₄, rfl, h₃, h₄⟩ := runs_attempt_bind.mp h₂
  refine Submission.prepend ?_ (emits_collectRewardClaims early_view s b ct only _ _ h₃)
  split at h₄
  · obtain ⟨rfl, rfl⟩ := runs_pure.mp h₄
    exact .done hnil rfl
  · rename_i e hne
    obtain ⟨rfl, rfl⟩ := runs_throw.mp h₄
    exact .raised hnil fun hq => Exc.ofCall_eq_false
      (raises_collectRewardClaims hq s b ct only _ _ h₃) fun m hm => hne m hm
  · split at h₄
    · obtain ⟨rfl, rfl⟩ := runs_pure.mp h₄
      exact .done hnil rfl
    · obtain ⟨z, t₅, t₆, rfl, h₅, h₆⟩ := runs_attempt_bind.mp h₄
      refine Submission.prepend ?_ (emits_classifyClaimFrontier early_view s b ct _ _ h₅)
      split at h₆
      · obtain ⟨rfl, rfl⟩ := runs_pure.mp h₆
        exact .done hnil rfl
      · rename_i e hne
        obtain ⟨rfl, rfl⟩ := runs_throw.mp h₆
        exact .raised hnil fun hq => Exc.ofCall_eq_false
          (raises_classifyClaimFrontier hq s b ct _ _ h₅) fun m hm => hne m hm
      · obtain ⟨rfl, rfl⟩ := runs_pure.mp h₆
        exact .done hnil rfl
  · exact submitClaims_submission h₄

end

/-! ## Top-ups -/

theorem sendTopup_delivery {caller : Option String} {account : Account} {before : ℚ}
    {valueWei : Int} {pt : Nat} {resp : SignTransactionResponse} {t : Trace}
    {r : Except Exc TopUp} (h : Runs (sendTopup caller account before valueWei pt resp) t r) :
    Delivery (fun _ => none) caller resp (fun _ => .rejectedReleaseable) none
      (confirmTopup caller account before valueWei pt resp) t r := by
  obtain ⟨reply, t', rfl, h'⟩ := runs_attempt_rpc_bind.mp h
  split at h'
  · rename_i msg hmsg
    obtain ⟨ans, t'', rfl, ⟨hans, h''⟩ | ⟨e, hans, rfl, rfl⟩⟩ := runs_reportQuietly_bind.mp h'
    · obtain ⟨rfl, rfl⟩ := runs_pure.mp h''
      exact .rejected hmsg hans nofun
    · exact .rejectedRaised hmsg hans
  · rename_i e hne he
    obtain ⟨rfl, rfl⟩ := runs_throw.mp h'
    obtain ⟨c, m, rfl, rfl⟩ := rpcResult_eq_other he fun m hm => hne m hm
    exact .broken
  · rename_i bh hbh
    obtain rfl := rpcResult_eq_ok hbh
    obtain ⟨ans, t'', rfl, ⟨hans, h''⟩ | ⟨e, hans, rfl, rfl⟩⟩ := runs_reportQuietly_bind.mp h'
    · exact .accepted hans h''
    · exact .acceptedRaised hans

theorem executeTopup_submission [External] {caller : Option String} {account : Account} {before : ℚ}
    {valueWei : Int} {network : Network} {wallet : String} {chainId maxFee maxPriority : Int}
    {pt : Nat} {now : Int} {t : Trace} {r : Except Exc TopUp}
    (h : Runs (executeTopup caller account before valueWei network wallet chainId maxFee maxPriority
      pt now) t r) :
    Submission (fun _ => none) Exc.isFwd true
      (fun resp => Runs (sendTopup caller account before valueWei pt resp)) t r := by
  obtain ⟨x, t', rfl, h'⟩ := runs_attempt_fwd_bind.mp h
  cases x with
  | error exc =>
    refine .of_refusal rfl rfl ?_
    by_cases hf : exc.isFwd = true
    · exact Or.inl ⟨_, by simpa [hf] using h', hf, rfl⟩
    · exact Or.inr ⟨by simpa [hf] using h', by simpa using hf⟩
  | ok resp => exact .sent (List.forall_mem_nil Early) rfl rfl h'

end Clif
