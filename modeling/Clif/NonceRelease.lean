import Clif.Delivery

/-!
# NonceRelease — when a failed broadcast frees its nonce

Both orchestrators hand the text of whatever `send_raw_transaction` raised to one substring
classifier and report its answer to `fwd`.  The contract at the head of `claimer.py` frees a nonce
only for a rejection the node made; what the code keeps of it is decided here exactly.
-/

namespace Clif

open Effect

/-! ## The contract -/

/-- `fwd` was told that the broadcast ended so. -/
def Reported (o : BroadcastOutcome) (t : Trace) : Prop :=
  ∃ e ∈ t, ∃ caller txId txHash cls, e.op = .fwd caller (.reportBroadcastResult txId txHash o cls)

/-- Reported as a rejection of either kind. -/
def ReportedRejection (t : Trace) : Prop :=
  Reported .rejectedReleaseable t ∨ Reported .rejectedNonceTooLow t

/-- The node says it holds the transaction. -/
def alreadyKnown (err : String) : Bool := Py.isIn "already known" (Py.lower err)

/-- The contract on a broadcast that failed with `reply`.  `deterministic` is the set of error
texts by which the node rejects a transaction for good. -/
structure ContractKept {α : Type} (status : α → OutcomeStatus) (deterministic : String → Prop)
    (reply : Reply String) (t : Trace) (r : Except Exc α) : Prop where
  /-- The nonce is released after a deterministic rejection only. -/
  released : Reported .rejectedReleaseable t → ∃ err, reply = .error err ∧ deterministic err
  /-- A failure of the transport is retried, and no rejection is reported. -/
  transport : (∀ err, reply ≠ .error err) →
    ¬ ReportedRejection t ∧ ∃ o, r = .ok o ∧ status o = .failedRetryable
  /-- A transaction the node holds is not reported as rejected. -/
  known : ∀ err, reply = .error err → alreadyKnown err = true → ¬ ReportedRejection t

/-- The text the classifier reads. -/
def sendErrorText (err : String) : String := s!"eth_sendRawTransaction rpc error: {err}"

/-- The node answered with an error that is either a nonce race or a deterministic rejection, and
does not say that it holds the transaction. -/
def NodeRejected (deterministic : String → Prop) (reply : Reply String) : Prop :=
  ∃ err, reply = .error err ∧ alreadyKnown err = false ∧
    (nonceTooLowMarkers.any (fun m => Py.isIn m (Py.lower (sendErrorText err))) = true ∨
      deterministic err)

/-! ## What the orchestrators do after a failed broadcast -/

/-- After the broadcast: no second one.  After a failed broadcast: one report with the classifier's
answer, unless the exception was no `RpcError`, which escapes. -/
def AfterSend {α : Type} (status : α → OutcomeStatus) (reply : Reply String) (t : Trace)
    (r : Except Exc α) : Prop :=
  match rpcResult "eth_sendRawTransaction" reply with
  | .ok _ => ∀ e ∈ t, e.op.kind ≠ .send
  | .error (.rpcError msg) =>
    (∃ caller txId txHash cls ans, t =
      [⟨.fwd caller (.reportBroadcastResult txId txHash (classifyBroadcastError msg) cls), ans⟩]) ∧
    ∀ o, r = .ok o → status o =
      if classifyBroadcastError msg = .rejectedNonceTooLow then .failedRetryable
      else .failedTerminal
  | .error e => t = [] ∧ r = .error e

theorem classifyBroadcastError_cases (msg : String) :
    classifyBroadcastError msg = .rejectedNonceTooLow ∨
      classifyBroadcastError msg = .rejectedReleaseable := by
  unfold classifyBroadcastError
  split
  · exact Or.inl rfl
  · exact Or.inr rfl

theorem classifyBroadcastError_eq {msg : String} :
    classifyBroadcastError msg = .rejectedNonceTooLow ↔
      nonceTooLowMarkers.any (fun m => Py.isIn m (Py.lower msg)) = true := by
  unfold classifyBroadcastError
  split <;> simp_all

/-- The broadcast is the first exchange; what follows a failed one is fixed. -/
theorem broadcastSigned_afterSend {α : Type} {status : α → OutcomeStatus} {c : Option String}
    {resp : SignTransactionResponse} {out : OutcomeStatus → String → α} {go : String → Py α}
    {t : Trace} {r : Except Exc α} (hout : ∀ st d, status (out st d) = st)
    (hgo : ∀ bh, Emits (go bh) fun e => e.op.kind ≠ .send)
    (h : Runs (broadcastSigned c resp out go) t r) :
    ∃ reply t', t = ⟨.rpc (.sendRawTransaction resp.signedRawTx), reply⟩ :: t' ∧
      AfterSend status reply t' r := by
  obtain ⟨reply, t', rfl, h'⟩ := runs_attempt_rpc_bind.mp h
  refine ⟨reply, t', rfl, ?_⟩
  unfold AfterSend
  split at h'
  · rename_i msg hmsg
    rw [show rpcResult "eth_sendRawTransaction" reply = .error (.rpcError msg) from hmsg]
    obtain ⟨ans, t'', rfl, ⟨-, hr⟩ | ⟨e, -, rfl, rfl⟩⟩ := runs_reportQuietly_bind.mp h'
    · split at hr
      · rename_i hc
        obtain ⟨rfl, rfl⟩ := runs_pure.mp hr
        exact ⟨⟨c, _, _, _, ans, rfl⟩, fun o ho => by cases ho; rw [hout, if_pos hc]⟩
      · rename_i hc
        obtain ⟨rfl, rfl⟩ := runs_pure.mp hr
        exact ⟨⟨c, _, _, _, ans, rfl⟩, fun o ho => by cases ho; rw [hout, if_neg hc]⟩
    · exact ⟨⟨c, _, _, _, ans, rfl⟩, fun o ho => by cases ho⟩
  · rename_i e hne he
    obtain ⟨rfl, rfl⟩ := runs_throw.mp h'
    rw [show rpcResult "eth_sendRawTransaction" reply = .error e from he]
    split
    · rename_i hx
      cases hx
    · rename_i hx
      cases hx
      exact absurd rfl (hne _)
    · rename_i hx
      cases hx
      exact ⟨rfl, rfl⟩
  · rename_i bh hbh
    rw [show rpcResult "eth_sendRawTransaction" reply = .ok bh from hbh]
    exact emits_bind (emits_reportQuietly fun _ => by simp [Op.kind]) (fun _ => hgo _) _ _ h'

/-! ## When the contract is kept -/

/-- Nothing was sent and nothing reported. -/
def Unsent (t : Trace) : Prop := ∀ e ∈ t, e.op.kind ≠ .send ∧ e.op.kind ≠ .report

theorem not_reported {o : BroadcastOutcome} {t : Trace} (h : Unsent t) : ¬ Reported o t := by
  rintro ⟨e, he, c, i, x, cls, hop⟩
  exact (h e he).2 (by rw [hop]; rfl)

theorem reported_append {o : BroadcastOutcome} {t₁ t₂ : Trace} :
    Reported o (t₁ ++ t₂) ↔ Reported o t₁ ∨ Reported o t₂ := by
  unfold Reported
  simp only [List.mem_append, or_and_right, exists_or]

theorem reported_send {o : BroadcastOutcome} {blob : String} {reply : Reply String} {t : Trace} :
    Reported o (⟨.rpc (.sendRawTransaction blob), reply⟩ :: t) ↔ Reported o t := by
  constructor
  · rintro ⟨e, he, c, i, x, cls, hop⟩
    rcases List.mem_cons.mp he with rfl | he
    · cases hop
    · exact ⟨e, he, c, i, x, cls, hop⟩
  · rintro ⟨e, he, h⟩
    exact ⟨e, List.mem_cons_of_mem _ he, h⟩

theorem reported_report {o o' : BroadcastOutcome} {c : Option String} {i x : String}
    {cls : Option String} {ans : Except Exc Unit} :
    Reported o [⟨.fwd c (.reportBroadcastResult i x o' cls), ans⟩] ↔ o' = o := by
  constructor
  · rintro ⟨e, he, c', i', x', cls', hop⟩
    rw [List.mem_singleton.mp he] at hop
    cases hop
    rfl
  · rintro rfl
    exact ⟨_, List.mem_singleton_self _, c, i, x, cls, rfl⟩

variable {α : Type} {status : α → OutcomeStatus} {deterministic : String → Prop}
  {reply : Reply String} {t : Trace} {r : Except Exc α}

/-- An `RpcError` always ends in one report with the classifier's answer. -/
theorem afterSend_reports {m : String} (h : AfterSend status reply t r)
    (hm : rpcResult "eth_sendRawTransaction" reply = .error (.rpcError m)) :
    (∀ o, Reported o t ↔ classifyBroadcastError m = o) ∧ ReportedRejection t := by
  unfold AfterSend at h
  rw [hm] at h
  obtain ⟨⟨c, i, x, cls, ans, rfl⟩, -⟩ := h
  refine ⟨fun o => reported_report, ?_⟩
  rcases classifyBroadcastError_cases m with hc | hc
  · exact Or.inr (reported_report.mpr hc)
  · exact Or.inl (reported_report.mpr hc)

/-- On the exchanges after the failed broadcast. -/
theorem contractKept_afterSend (h : AfterSend status reply t r)
    (hreply : ∀ bh, reply ≠ .result bh) :
    ContractKept status deterministic reply t r ↔ NodeRejected deterministic reply := by
  constructor
  · intro hk
    cases reply with
    | result bh => exact absurd rfl (hreply bh)
    | error err =>
      obtain ⟨hrep, hrej⟩ := afterSend_reports h (m := sendErrorText err) rfl
      refine ⟨err, rfl, ?_, ?_⟩
      · by_contra hal
        exact hk.known err rfl (by simpa using hal) hrej
      · rcases classifyBroadcastError_cases (sendErrorText err) with hc | hc
        · exact Or.inl (classifyBroadcastError_eq.mp hc)
        · obtain ⟨err', he, hd⟩ := hk.released ((hrep _).mpr hc)
          cases he
          exact Or.inr hd
    | transport exc =>
      obtain ⟨-, hrej⟩ := afterSend_reports h
        (m := s!"eth_sendRawTransaction transport failure: {exc}") rfl
      exact absurd hrej (hk.transport (by simp)).1
    | undecodable exc =>
      obtain ⟨-, hrej⟩ := afterSend_reports h (m := s!"abi decode failed {exc}") rfl
      exact absurd hrej (hk.transport (by simp)).1
    | malformed cls msg =>
      obtain ⟨-, o, ho, -⟩ := hk.transport (by simp)
      have hr : r = .error (.other cls msg) := h.2
      rw [hr] at ho
      cases ho
  · rintro ⟨err, rfl, hal, hcause⟩
    obtain ⟨hrep, -⟩ := afterSend_reports h (m := sendErrorText err) rfl
    refine ⟨fun hrel => ⟨err, rfl, ?_⟩, fun hne => absurd rfl (hne err), ?_⟩
    · rcases hcause with hn | hd
      · have hc := classifyBroadcastError_eq.mpr hn
        rw [(hrep _).mp hrel] at hc
        cases hc
      · exact hd
    · rintro err' he hal'
      cases he
      rw [hal] at hal'
      cases hal'

/-- Exchanges before the broadcast that broadcast nothing do not matter. -/
theorem contractKept_append {pre : Trace} {blob : String}
    (hpre : Unsent pre) :
    ContractKept status deterministic reply
        (pre ++ ⟨.rpc (.sendRawTransaction blob), reply⟩ :: t) r ↔
      ContractKept status deterministic reply t r := by
  have hr : ∀ o, Reported o (pre ++ ⟨.rpc (.sendRawTransaction blob), reply⟩ :: t) ↔
      Reported o t := fun o => by
    rw [reported_append, reported_send, or_iff_right (not_reported hpre)]
  have hrej : ReportedRejection (pre ++ ⟨.rpc (.sendRawTransaction blob), reply⟩ :: t) ↔
      ReportedRejection t := or_congr (hr _) (hr _)
  constructor
  · rintro ⟨h₁, h₂, h₃⟩
    exact ⟨fun h => h₁ ((hr _).mpr h), by rwa [hrej] at h₂, by simpa only [hrej] using h₃⟩
  · rintro ⟨h₁, h₂, h₃⟩
    exact ⟨by rwa [hr], by rwa [hrej], by simpa only [hrej] using h₃⟩

/-! ## The two orchestrators -/

section

variable [External]

/-- `submit_claims` either broadcasts nothing, or broadcasts after exchanges that broadcast
nothing. -/
theorem submitClaims_broadcast {s : Settings} {ct : Int} {b : String}
    {claims : List RewardClaimWithProof} {wait : Bool} {wt : Nat} {retry : Option String}
    {hasRpc : Bool} {t : Trace} {r : Except Exc ClaimOutcome}
    (h : Runs (submitClaims s ct b claims wait wt retry hasRpc) t r) :
    Unsent t ∨
      ∃ pre t' resp out, t = pre ++ t' ∧ Unsent pre ∧
        (∀ h st d, (out h st d).status = st) ∧ Runs (broadcastClaim s wt resp out) t' r := by
  have hearly : ∀ {u : Trace}, (∀ e ∈ u, Early e) → Unsent u := fun hu e he =>
    ⟨(hu e he).send, (hu e he).report⟩
  cases submitClaims_request h with
  | early ht => exact .inl (hearly ht)
  | @asked pre t' lastEpoch data fees out x _ hpre hlast hdata hout hans =>
    have hasked : Unsent (pre ++ [⟨.fwd s.fwdCallerToken (.signTransaction (claimTxBody s data fees)
        (makeIdempotencyKey s.network ct b lastEpoch (retryToken retry s.idempotencyRetry))),
        x⟩]) := by
      intro e he
      rcases List.mem_append.mp he with he | he
      · exact hearly hpre e he
      · rw [List.mem_singleton.mp he]
        simp [Op.kind]
    rcases answeredClaim_cases hans with rfl | ⟨resp, -, hb⟩
    · exact .inl hasked
    · refine .inr ⟨_, t', resp, signedOut out resp, ?_, hasked, fun _ st d => hout st d, hb⟩
      rw [List.append_assoc]
      rfl

omit [External] in
/-- The broadcast of a run that sends one blob: a failed answer is its answer. -/
theorem send_unique {pre t' : Trace} {blob blob' : String} {reply reply' : Reply String}
    (hpre : Unsent pre) (h : AfterSend status reply' t' r)
    (hm : (⟨.rpc (.sendRawTransaction blob), reply⟩ : Event sig) ∈
      pre ++ ⟨.rpc (.sendRawTransaction blob'), reply'⟩ :: t') : reply = reply' := by
  rcases List.mem_append.mp hm with hm | hm
  · exact absurd rfl (hpre _ hm).1
  rcases List.mem_cons.mp hm with heq | hm
  · cases heq
    rfl
  · unfold AfterSend at h
    split at h
    · exact absurd rfl (h _ hm)
    · obtain ⟨⟨c, i, x, cls, ans, rfl⟩, -⟩ := h
      rw [List.mem_singleton] at hm
      cases hm
    · rw [h.1] at hm
      cases hm

omit [External] in
theorem contractKept_run {pre t' : Trace} {blob blob' : String} {reply reply' : Reply String}
    (hpre : Unsent pre) (h : AfterSend status reply' t' r)
    (hm : (⟨.rpc (.sendRawTransaction blob), reply⟩ : Event sig) ∈
      pre ++ ⟨.rpc (.sendRawTransaction blob'), reply'⟩ :: t')
    (hreply : ∀ bh, reply ≠ .result bh) :
    ContractKept status deterministic reply
        (pre ++ ⟨.rpc (.sendRawTransaction blob'), reply'⟩ :: t') r ↔
      NodeRejected deterministic reply := by
  obtain rfl := send_unique hpre h hm
  rw [contractKept_append hpre, contractKept_afterSend h hreply]

omit [External] in
theorem broadcastClaim_afterSend {s : Settings} {wt : Nat} {resp : SignTransactionResponse}
    {out : String → OutcomeStatus → String → ClaimOutcome} {t : Trace}
    {r : Except Exc ClaimOutcome} (hout : ∀ h st d, (out h st d).status = st)
    (h : Runs (broadcastClaim s wt resp out) t r) :
    ∃ reply t', t = ⟨.rpc (.sendRawTransaction resp.signedRawTx), reply⟩ :: t' ∧
      AfterSend ClaimOutcome.status reply t' r := by
  refine broadcastSigned_afterSend (hout _) (fun bh => ?_) h
  refine emits_bind (emits_pollReceipt (AllOf.ne (by decide)) _ _) fun receipt => ?_
  split
  · exact emits_pure _
  · exact emits_confirmClaim (AllOf.ne (by decide)) (AllOf.ne (by decide)) _ _ _ _ _

theorem broadcastAndConfirm_afterSend {c : Option String} {hasRpc : Bool}
    {resp : SignTransactionResponse} {mt : MessageType} {epoch : Int}
    {sig' : SignFspMessageResponse} {wt : Nat} {t : Trace} {r : Except Exc FspOutcome}
    (h : Runs (broadcastAndConfirm c hasRpc resp mt epoch sig' wt) t r) :
    t = [] ∨ ∃ reply t', t = ⟨.rpc (.sendRawTransaction resp.signedRawTx), reply⟩ :: t' ∧
      AfterSend FspOutcome.status reply t' r := by
  unfold broadcastAndConfirm at h
  dsimp only at h
  split at h
  · exact Or.inl (runs_pure.mp h).1
  · refine Or.inr (broadcastSigned_afterSend (fun _ _ => rfl) (fun bh => ?_) h)
    refine emits_bind (emits_pollReceipt (AllOf.ne (by decide)) _ _) fun receipt => ?_
    split
    · exact emits_pure _
    · exact emits_confirmFsp (AllOf.ne (by decide)) (AllOf.ne (by decide)) _ _ _ _ _ _ _

/-- After a failed broadcast both orchestrators keep the contract exactly when the node rejected
the transaction; a failure of the transport, an unclassified error and an "already known" answer
all free the nonce. -/
theorem contractKept_iff_nodeRejected (deterministic : String → Prop) (reply : Reply String)
    (hreply : ∀ bh, reply ≠ .result bh) :
    (∀ (s : Settings) (ct : Int) (b : String) (claims : List RewardClaimWithProof) (wait : Bool)
        (wt : Nat) (retry : Option String) (hasRpc : Bool) (blob : String) (t : Trace)
        (r : Except Exc ClaimOutcome), Runs (submitClaims s ct b claims wait wt retry hasRpc) t r →
      (⟨.rpc (.sendRawTransaction blob), reply⟩ : Event sig) ∈ t →
      (ContractKept ClaimOutcome.status deterministic reply t r ↔
        NodeRejected deterministic reply)) ∧
    (∀ (c : Option String) (hasRpc : Bool) (resp : SignTransactionResponse) (mt : MessageType)
        (epoch : Int) (sig' : SignFspMessageResponse) (wt : Nat) (blob : String) (t : Trace)
        (r : Except Exc FspOutcome),
      Runs (broadcastAndConfirm c hasRpc resp mt epoch sig' wt) t r →
      (⟨.rpc (.sendRawTransaction blob), reply⟩ : Event sig) ∈ t →
      (ContractKept FspOutcome.status deterministic reply t r ↔
        NodeRejected deterministic reply)) := by
  constructor
  · intro s ct b claims wait wt retry hasRpc blob t r h hm
    rcases submitClaims_broadcast h with hu | ⟨pre, t', resp, out, rfl, hpre, hout, hb⟩
    · exact absurd rfl (hu _ hm).1
    · obtain ⟨reply', t'', rfl, ha⟩ := broadcastClaim_afterSend hout hb
      exact contractKept_run hpre ha hm hreply
  · intro c hasRpc resp mt epoch sig' wt blob t r h hm
    rcases broadcastAndConfirm_afterSend h with rfl | ⟨reply', t', rfl, ha⟩
    · cases hm
    · have hnil : Unsent [] := by simp [Unsent]
      exact contractKept_run hnil ha hm hreply

end

/-! ## A time-out frees the nonce -/

def sampleTx : SignTransactionResponse := ⟨"tx-1", "0xaa", "0x02f8"⟩

def sampleSig : SignFspMessageResponse := ⟨"0xbb", 27, "0x01", "0x02"⟩

/-- The texts by which a node rejects a transaction of its own accord, for the samples. -/
def sampleRejections (err : String) : Prop := Py.isIn "insufficient funds" (Py.lower err) = true

/-- `_broadcast_and_confirm` of the sample in the world `env`. -/
def sampleBroadcast (env : (op : Op) → op.Ans) : Trace × Except Exc FspOutcome :=
  exec env (@broadcastAndConfirm External.static (some "submit") true sampleTx .rewardDistribution 5
    sampleSig 0)

theorem sampleBroadcast_runs (env : (op : Op) → op.Ans) :
    Runs (@broadcastAndConfirm External.static (some "submit") true sampleTx .rewardDistribution 5
      sampleSig 0) (sampleBroadcast env).1 (sampleBroadcast env).2 := exec_runs _ _

/-- The node does not answer, and the nonce of a transaction it may hold is released. -/
theorem timeout_releases_nonce :
    (⟨.rpc (.sendRawTransaction "0x02f8"), .transport "timed out"⟩ : Event sig) ∈
        (sampleBroadcast deafWorld).1 ∧
      ¬ ContractKept FspOutcome.status sampleRejections (.transport "timed out")
        (sampleBroadcast deafWorld).1 (sampleBroadcast deafWorld).2 := by
  refine ⟨List.mem_cons_self .., fun hk => ?_⟩
  obtain ⟨err, he, -⟩ := hk.released ⟨_, List.mem_cons_of_mem _ (List.mem_cons_self ..),
    some "submit", "tx-1", "0xaa", some "RpcError", rfl⟩
  cases he

/-- A world whose node answers a broadcast with the error text `err`. -/
def rejectingWorld (err : String) : (op : Op) → op.Ans
  | .rpc (.sendRawTransaction _) => .error err
  | op => deafWorld op

theorem contractKept_iff_nodeRejected_insufficient :
    ContractKept FspOutcome.status sampleRejections (.error "insufficient funds for gas")
        (sampleBroadcast (rejectingWorld "insufficient funds for gas")).1
        (sampleBroadcast (rejectingWorld "insufficient funds for gas")).2 ↔
      NodeRejected sampleRejections (.error "insufficient funds for gas") :=
  (@contractKept_iff_nodeRejected External.static sampleRejections
    (.error "insufficient funds for gas") (by simp)).2 _ _ _ _ _ _ _ "0x02f8" _ _
    (sampleBroadcast_runs _) (List.mem_cons_self ..)

end Clif
