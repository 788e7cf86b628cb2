import Clif.BlobSent
import Clif.NonceRelease

/-!
# ReportBack — what `fwd` is told about a transaction

The protocol: a broadcast is reported as accepted, or as one of two kinds of rejection; the receipt
of an accepted one as mined with success or reverted.  Three functions write it out by hand.
`reportsBack_iff` compares each of them with the protocol.
-/

namespace Clif

open Effect

/-! ## Reports -/

/-- What one report tells about a transaction. -/
structure TxReport where
  txId : String
  txHash : String
  outcome : BroadcastOutcome ⊕ ReceiptOutcome
deriving DecidableEq

def reportOf : Event sig → Option TxReport
  | ⟨.fwd _ (.reportBroadcastResult txId txHash o _), _⟩ => some ⟨txId, txHash, .inl o⟩
  | ⟨.fwd _ (.reportReceipt txId txHash o _), _⟩ => some ⟨txId, txHash, .inr o⟩
  | _ => none

/-- The reports, in order. -/
def reports (t : Trace) : List TxReport := t.filterMap reportOf

def sendReplyOf : Event sig → Option (Reply String)
  | ⟨.rpc (.sendRawTransaction _), reply⟩ => some reply
  | _ => none

/-- The node's answer to the broadcast. -/
def sendReply (t : Trace) : Option (Reply String) := t.findSome? sendReplyOf

/-- The receipt that the polling found. -/
def minedReceipt (t : Trace) : Option Receipt :=
  match settledReads t with
  | .result (some receipt) :: _ => some receipt
  | _ => none

/-! ## The protocol -/

/-- The reports on a transaction, from the node's answer to its broadcast and from its receipt. -/
def reportsWith (verdict : String → BroadcastOutcome) (mined : Receipt → ReceiptOutcome)
    (resp : SignTransactionResponse) (reply : Option (Reply String)) (receipt : Option Receipt) :
    List TxReport :=
  match reply.map (rpcResult "eth_sendRawTransaction") with
  | some (.ok bh) =>
    ⟨resp.txId, bh, .inl .accepted⟩ ::
      receipt.toList.map fun rc => ⟨resp.txId, bh, .inr (mined rc)⟩
  | some (.error (.rpcError msg)) => [⟨resp.txId, resp.hash, .inl (verdict msg)⟩]
  | _ => []

/-- Status 1 is success; the only other one is 0. -/
def minedOutcome (receipt : Receipt) : ReceiptOutcome :=
  if receiptInt receipt.status = .ok 1 then .minedSuccess else .minedReverted

/-- What the protocol asks to be told about the blob `resp` in a run. -/
def protocolFor (resp : SignTransactionResponse) (t : Trace) : List TxReport :=
  reportsWith classifyBroadcastError minedOutcome resp (sendReply t) (minedReceipt t)

/-- What the protocol asks to be told in a run, about the blob signed in it. -/
def protocol (t : Trace) : List TxReport :=
  match t.findSome? signedOf with
  | some resp => protocolFor resp t
  | none => []

/-- A receipt as a node gives it: with a block number, and status 0 or 1. -/
structure Receipt.Proper (receipt : Receipt) : Prop where
  block : ∃ n, receiptAt "blockNumber" receipt.blockNumber = .ok n
  status : receiptAt "status" receipt.status = .ok 0 ∨ receiptAt "status" receipt.status = .ok 1

theorem receiptInt_of_receiptAt {key : String} {field : Option String} {n : Int}
    (h : receiptAt key field = .ok n) : receiptInt field = .ok n := by
  cases field with
  | none => cases h
  | some text => exact h

theorem Receipt.Proper.statusInt {receipt : Receipt} (h : receipt.Proper) :
    ∃ n, receiptInt receipt.status = .ok n ∧
      (if n == 1 then ReceiptOutcome.minedSuccess else .minedReverted) = minedOutcome receipt := by
  rcases h.status with hs | hs
  · refine ⟨0, receiptInt_of_receiptAt hs, ?_⟩
    simp [minedOutcome, receiptInt_of_receiptAt hs]
  · refine ⟨1, receiptInt_of_receiptAt hs, ?_⟩
    simp [minedOutcome, receiptInt_of_receiptAt hs]

/-! ## Reports of a run -/

theorem reports_append (t₁ t₂ : Trace) : reports (t₁ ++ t₂) = reports t₁ ++ reports t₂ :=
  List.filterMap_append

theorem reports_nil {t : Trace} (h : ∀ e ∈ t, reportOf e = none) : reports t = [] :=
  List.filterMap_eq_nil_iff.mpr h

theorem allOf_unreported {k : OpKind} (hk : k ≠ .report) : AllOf k fun e => reportOf e = none := by
  rintro ⟨op, ans⟩ rfl
  cases op with
  | fwd c o => cases o <;> first | rfl | exact absurd rfl hk
  | _ => rfl

theorem reportOf_eq_none {e : Event sig} (h : e.op.kind ≠ .report) : reportOf e = none :=
  allOf_unreported h e rfl

theorem sendReplyOf_eq_none {e : Event sig} (h : e.op.kind ≠ .send) : sendReplyOf e = none := by
  obtain ⟨op, ans⟩ := e
  cases op with
  | rpc o => cases o <;> first | rfl | exact absurd rfl h
  | _ => rfl

theorem sendReply_append {t₁ t₂ : Trace} (h : ∀ e ∈ t₁, sendReplyOf e = none) :
    sendReply (t₁ ++ t₂) = sendReply t₂ := by
  rw [sendReply, List.findSome?_append, List.findSome?_eq_none_iff.mpr h]
  rfl

theorem minedReceipt_append {t₁ t₂ : Trace} (h : receiptReads t₁ = []) :
    minedReceipt (t₁ ++ t₂) = minedReceipt t₂ := by
  have heq : settledReads (t₁ ++ t₂) = settledReads t₂ := by
    rw [settledReads, receiptReads_append, h, List.nil_append, settledReads]
  rw [minedReceipt, heq, minedReceipt]

theorem Polled.unreported {txHash : String} {t : Trace} {x : Except Exc (Option Receipt)}
    (h : Polled txHash t x) : reports t = [] := by
  refine reports_nil fun e he => ?_
  obtain ⟨op, ans⟩ := e
  rcases h.ops _ he with hop | hop <;> cases hop <;> rfl

section

variable {α : Type}

/-- Polling, and what follows it: a receipt that was found is reported once. -/
theorem follow_reports {bh txId : String} {wt : Nat} {f : Option Receipt → Py α}
    {mined : Receipt → ReceiptOutcome} {t : Trace} {r : Except Exc α}
    (hnone : Emits (f none) fun e => reportOf e = none)
    (hread : ∀ t r, Runs (f none) t r → receiptReads t = [])
    (hsome : ∀ receipt t r, receipt.Proper → Runs (f (some receipt)) t r →
      reports t = [⟨txId, bh, .inr (mined receipt)⟩])
    (hp : ∀ receipt, minedReceipt t = some receipt → receipt.Proper)
    (h : Runs (pollReceipt bh wt >>= f) t r) :
    reports t = (minedReceipt t).toList.map fun rc => ⟨txId, bh, .inr (mined rc)⟩ := by
  rcases runs_pollReceipt_bind h with ⟨e, hpoll, rfl⟩ | ⟨x, t₁, t₂, rfl, hpoll, h'⟩
  · obtain ⟨reply, hset, he⟩ := hpoll.settled_error
    have hm : minedReceipt t = none := by
      rw [minedReceipt, hset]
      cases reply with
      | result a => cases he
      | _ => rfl
    rw [hpoll.unreported, hm]
    rfl
  · cases x with
    | none =>
      have hm : minedReceipt (t₁ ++ t₂) = none := by
        rw [minedReceipt, settledReads, receiptReads_append, hread _ _ h', List.append_nil,
          ← settledReads, hpoll.settled_none]
      rw [reports_append, hpoll.unreported, reports_nil (hnone _ _ h'), hm]
      rfl
    | some receipt =>
      have hm : minedReceipt (t₁ ++ t₂) = some receipt := by
        rw [minedReceipt, hpoll.settled_some]
      rw [reports_append, hpoll.unreported, hsome receipt t₂ r (hp receipt hm) h', hm]
      rfl

/-- From a signed blob on. -/
theorem Delivery.reports_eq {status : α → Option OutcomeStatus} {caller : Option String}
    {resp : SignTransactionResponse} {verdict : String → BroadcastOutcome} {cls : Option String}
    {go : String → Py α} {mined : Receipt → ReceiptOutcome} {t : Trace} {r : Except Exc α}
    (h : Delivery status caller resp verdict cls go t r)
    (hgo : ∀ bh t r, Runs (go bh) t r →
      (∀ receipt, minedReceipt t = some receipt → receipt.Proper) →
      reports t = (minedReceipt t).toList.map fun rc => ⟨resp.txId, bh, .inr (mined rc)⟩)
    (hp : ∀ receipt, minedReceipt t = some receipt → receipt.Proper) :
    reports t = reportsWith verdict mined resp (sendReply t) (minedReceipt t) := by
  cases h with
  | broken => rfl
  | @rejected reply msg ans o hreply hans ho =>
    show [_] = reportsWith verdict mined resp (some reply) _
    rw [reportsWith, Option.map_some, hreply]
  | @rejectedRaised reply msg ans e hreply hans =>
    show [_] = reportsWith verdict mined resp (some reply) _
    rw [reportsWith, Option.map_some, hreply]
  | acceptedRaised hans => rfl
  | @accepted bh ans t _ hans h =>
    have hm := @minedReceipt_append [⟨.rpc (.sendRawTransaction resp.signedRawTx), .result bh⟩,
        ⟨.fwd caller (.reportBroadcastResult resp.txId bh .accepted none), ans⟩] t rfl
    rw [List.cons_append, List.cons_append, List.nil_append] at hm
    rw [hm] at hp ⊢
    show _ :: reports t = reportsWith verdict mined resp (some (.result bh)) _
    rw [hgo bh t r h hp]
    rfl

/-- A whole run. -/
theorem Submission.reports_eq [External] {status : α → Option OutcomeStatus} {caught : Exc → Bool}
    {sends : Bool} {deliver : SignTransactionResponse → Trace → Except Exc α → Prop}
    {verdict : String → BroadcastOutcome} {mined : Receipt → ReceiptOutcome} {t : Trace}
    {r : Except Exc α} (h : Submission status caught sends deliver t r)
    (hd : ∀ resp t r, deliver resp t r →
      (∀ receipt, minedReceipt t = some receipt → receipt.Proper) →
      reports t = reportsWith verdict mined resp (sendReply t) (minedReceipt t))
    (hp : ∀ receipt, minedReceipt t = some receipt → receipt.Proper) :
    reports t = match t.findSome? signedOf with
      | some resp => reportsWith verdict mined resp (sendReply t) (minedReceipt t)
      | none => [] := by
  have hquiet : ∀ {pre : Trace}, (∀ e ∈ pre, Early e) → reports pre = [] := fun hpre =>
    reports_nil fun e he => reportOf_eq_none (hpre e he).report
  have hfind : ∀ {pre t : Trace}, (∀ e ∈ pre, Early e) →
      (pre ++ t).findSome? signedOf = t.findSome? signedOf := by
    intro pre t hpre
    rw [List.findSome?_append, List.findSome?_eq_none_iff.mpr fun e he => (hpre e he).unsigned]
    rfl
  cases h with
  | early ht hok herr =>
    rw [hquiet ht, List.findSome?_eq_none_iff.mpr fun e he => (ht e he).unsigned]
  | @refused pre e exc _ hpre he hs hok herr =>
    have hun : signedOf e = none := by
      unfold refusalOf at he
      split at he <;> first | rfl | cases he
    have hrep : reportOf e = none := reportOf_eq_none (by rw [hs]; decide)
    rw [reports_append, hquiet hpre, hfind hpre]
    simp [reports, hun, hrep]
  | @kept pre e resp o hpre he hsends ho =>
    have hkind : e.op.kind = .sign ∧ receiptReadOf e = none := by
      unfold signedOf at he
      split at he <;> first | exact ⟨rfl, rfl⟩ | cases he
    have hrep : reportOf e = none := reportOf_eq_none (by rw [hkind.1]; decide)
    have hsend : sendReply (pre ++ [e]) = none := by
      rw [sendReply_append fun e he => sendReplyOf_eq_none (hpre e he).send]
      simp [sendReply, sendReplyOf_eq_none (e := e) (by rw [hkind.1]; decide)]
    rw [reports_append, hquiet hpre, hfind hpre, hsend]
    simp [reports, he, hrep, reportsWith]
  | @sent pre t e resp _ hpre he hsends h =>
    have hkind : e.op.kind = .sign ∧ receiptReadOf e = none := by
      unfold signedOf at he
      split at he <;> first | exact ⟨rfl, rfl⟩ | cases he
    have hrep : reportOf e = none := reportOf_eq_none (by rw [hkind.1]; decide)
    have hsend : sendReply (pre ++ e :: t) = sendReply t := by
      rw [sendReply_append fun e he => sendReplyOf_eq_none (hpre e he).send]
      exact @sendReply_append [e] _ (by
        simpa using sendReplyOf_eq_none (e := e) (by rw [hkind.1]; decide))
    have hm : minedReceipt (pre ++ e :: t) = minedReceipt t := by
      rw [minedReceipt_append (receiptReads_early hpre)]
      exact @minedReceipt_append [e] _ (by simp [receiptReads, hkind.2])
    rw [hm] at hp ⊢
    rw [reports_append, hquiet hpre, hfind hpre, hsend, List.findSome?_cons, he]
    simpa [reports, hrep] using hd resp t r h hp

end

/-! ## The three implementations -/

theorem confirmClaim_reports {s : Settings} {resp : SignTransactionResponse} {bh : String}
    {out : OutcomeStatus → String → ClaimOutcome} {receipt : Receipt} {t : Trace}
    {r : Except Exc ClaimOutcome} (hp : receipt.Proper)
    (h : Runs (confirmClaim s resp bh out receipt) t r) :
    reports t = [⟨resp.txId, bh, .inr (minedOutcome receipt)⟩] := by
  obtain ⟨block, hblock⟩ := hp.block
  obtain ⟨status, hstatus, hmined⟩ := hp.statusInt
  unfold confirmClaim at h
  rw [receiptInt_of_receiptAt hblock, hstatus] at h
  rcases runs_fromExcept_bind.mp h with ⟨b, hb, h⟩ | ⟨e, he, -⟩
  swap
  · cases he
  rcases runs_fromExcept_bind.mp h with ⟨st, hst, h⟩ | ⟨e, he, -⟩
  swap
  · cases he
  cases hst
  obtain ⟨ans, t', rfl, ⟨-, h'⟩ | ⟨e, -, rfl, -⟩⟩ := runs_reportQuietly_bind.mp h
  · have hquiet : reports t' = [] := by
      refine reports_nil fun e he => ?_
      split at h'
      · rw [(runs_pure.mp h').1] at he
        cases he
      · refine emits_bind (emits_claimTookEffect (allOf_unreported (by decide)) _ _)
          (fun took => ?_) _ _ h' e he
        split <;> exact emits_pure _
    show _ :: reports t' = _
    rw [hquiet, hmined]
  · rw [hmined]
    rfl

section

variable [External]

theorem confirmFsp_reports {c : Option String} {mt : MessageType} {epoch : Int}
    {resp : SignTransactionResponse} {bh : String} {out : OutcomeStatus → String → FspOutcome}
    {receipt : Receipt} {t : Trace} {r : Except Exc FspOutcome} (hp : receipt.Proper)
    (h : Runs (confirmFsp c mt epoch resp bh out receipt) t r) :
    reports t = [⟨resp.txId, bh, .inr (minedOutcome receipt)⟩] := by
  obtain ⟨block, hblock⟩ := hp.block
  obtain ⟨status, hstatus, hmined⟩ := hp.statusInt
  unfold confirmFsp at h
  rw [receiptInt_of_receiptAt hblock, hstatus] at h
  rcases runs_fromExcept_bind.mp h with ⟨b, hb, h⟩ | ⟨e, he, -⟩
  swap
  · cases he
  rcases runs_fromExcept_bind.mp h with ⟨st, hst, h⟩ | ⟨e, he, -⟩
  swap
  · cases he
  cases hst
  obtain ⟨ans, t', rfl, ⟨-, h'⟩ | ⟨e, -, rfl, -⟩⟩ := runs_reportQuietly_bind.mp h
  · have hquiet : reports t' = [] := by
      refine reports_nil fun e he => ?_
      split at h'
      · exact emits_bind (emits_getRevertReason (allOf_unreported (by decide)) _)
          (fun _ => emits_pure _) _ _ h' e he
      · rw [(runs_pure.mp h').1] at he
        cases he
    show _ :: reports t' = _
    rw [hquiet, hmined]
  · rw [hmined]
    rfl

omit [External] in
theorem DeliversClaim.reports_eq {s : Settings} {wt : Nat} {resp : SignTransactionResponse}
    {t : Trace} {r : Except Exc ClaimOutcome} (h : DeliversClaim s wt resp t r)
    (hp : ∀ receipt, minedReceipt t = some receipt → receipt.Proper) :
    reports t = protocolFor resp t := by
  obtain ⟨out, -, h⟩ := h
  refine Delivery.reports_eq h (fun bh t r h' hp' => ?_) hp
  refine follow_reports ?_ ?_ ?_ hp' h'
  · exact emits_pure _
  · intro t r h
    rw [(runs_pure.mp h).1]
    rfl
  · exact fun receipt t r hpr h'' => confirmClaim_reports hpr h''

theorem DeliversFsp.reports_eq {caller : Option String} {mt : MessageType} {epoch : Int}
    {wt : Nat} {resp : SignTransactionResponse} {t : Trace} {r : Except Exc FspOutcome}
    (h : DeliversFsp caller mt epoch wt resp t r)
    (hp : ∀ receipt, minedReceipt t = some receipt → receipt.Proper) :
    reports t = protocolFor resp t := by
  obtain ⟨out, -, h⟩ := h
  refine Delivery.reports_eq h (fun bh t r h' hp' => ?_) hp
  refine follow_reports ?_ ?_ ?_ hp' h'
  · exact emits_pure _
  · intro t r h
    rw [(runs_pure.mp h).1]
    rfl
  · exact fun receipt t r hpr h'' => confirmFsp_reports hpr h''

end

/-- A top-up reports any rejection as releaseable and any receipt as success. -/
def topupReports (resp : SignTransactionResponse) (t : Trace) : List TxReport :=
  reportsWith (fun _ => .rejectedReleaseable) (fun _ => .minedSuccess) resp (sendReply t)
    (minedReceipt t)

theorem reportMined_reports {caller : Option String} {resp : SignTransactionResponse}
    {txHash : String} {receipt : Receipt} {t : Trace} {r : Except Exc Bool} {block : Int}
    (hblock : receiptAt "blockNumber" receipt.blockNumber = .ok block)
    (h : Runs (reportMined caller resp txHash (some receipt)) t r) :
    reports t = [⟨resp.txId, txHash, .inr .minedSuccess⟩] := by
  unfold reportMined at h
  dsimp only at h
  rw [hblock] at h
  rcases runs_fromExcept_bind.mp h with ⟨b, hb, h⟩ | ⟨e, he, -⟩
  swap
  · cases he
  obtain ⟨ans, t', rfl, ⟨-, h'⟩ | ⟨e, -, rfl, -⟩⟩ := runs_reportQuietly_bind.mp h
  · have ht : t' = [] := by
      rcases runs_fromExcept_bind.mp h' with ⟨st, -, h'⟩ | ⟨e, -, rfl, -⟩
      · exact (runs_pure.mp h').1
      · rfl
    subst ht
    rfl
  · rfl

theorem sendTopup_reports {caller : Option String} {account : Account} {before : ℚ} {valueWei : Int}
    {pt : Nat} {resp : SignTransactionResponse} {t : Trace} {r : Except Exc TopUp}
    (h : Runs (sendTopup caller account before valueWei pt resp) t r)
    (hp : ∀ receipt, minedReceipt t = some receipt → receipt.Proper) :
    reports t = topupReports resp t := by
  have hbal : ∀ f : Int → Py TopUp, (∀ b, ∃ o, f b = pure o) →
      Emits (rpc (.getBalance account.address) >>= f) fun e =>
        reportOf e = none ∧ receiptReadOf e = none := by
    intro f hf
    refine emits_bind (emits_rpc fun _ => ⟨rfl, rfl⟩) fun b => ?_
    obtain ⟨o, ho⟩ := hf b
    rw [ho]
    exact emits_pure _
  refine Delivery.reports_eq (sendTopup_delivery h) (fun bh t r h' hp' => ?_) hp
  refine follow_reports (fun t r h e he => ?_) (fun t r h => ?_) (fun receipt t r hpr h'' => ?_)
    hp' h'
  · exact (hbal _ (fun b => ⟨_, rfl⟩) t r h e he).1
  · exact List.filterMap_eq_nil_iff.mpr fun e he => (hbal _ (fun b => ⟨_, rfl⟩) t r h e he).2
  · obtain ⟨block, hblock⟩ := hpr.block
    rcases runs_bind.mp h'' with ⟨ok, t₁, t₂, rfl, h₁, h₂⟩ | ⟨e, h₁, rfl⟩
    · have hrest : reports t₂ = [] :=
        reports_nil fun e he => (hbal _ (fun b => ⟨_, rfl⟩) _ _ h₂ e he).1
      rw [reports_append, hrest, List.append_nil, reportMined_reports hblock h₁]
    · exact reportMined_reports hblock h₁

/-- Nothing is sent in a run in which nothing was signed. -/
theorem Submission.sendReply_unsigned [External] {α : Type} {status : α → Option OutcomeStatus}
    {caught : Exc → Bool} {sends : Bool}
    {deliver : SignTransactionResponse → Trace → Except Exc α → Prop} {t : Trace}
    {r : Except Exc α} (h : Submission status caught sends deliver t r)
    (hs : t.findSome? signedOf = none) : sendReply t = none := by
  refine List.findSome?_eq_none_iff.mpr fun e he => sendReplyOf_eq_none ?_
  have hun := List.findSome?_eq_none_iff.mp hs
  cases h with
  | early ht hok herr => exact (ht e he).send
  | refused hpre hexc hk hok herr =>
    rcases List.mem_append.mp he with he | he
    · exact (hpre e he).send
    · rw [List.mem_singleton.mp he, hk]
      decide
  | @kept pre e' resp o hpre hresp hsends ho =>
    have hnone := hun e' (by simp)
    rw [hresp] at hnone
    cases hnone
  | @sent pre t e' resp _ hpre hresp hsends h =>
    have hnone := hun e' (by simp)
    rw [hresp] at hnone
    cases hnone

/-- The node rejected the broadcast because the nonce is too low. -/
def NonceTooLow (t : Trace) : Prop :=
  ∃ reply msg, sendReply t = some reply ∧
    rpcResult "eth_sendRawTransaction" reply = .error (.rpcError msg) ∧
    classifyBroadcastError msg = .rejectedNonceTooLow

/-- The receipt of the accepted broadcast has status 0. -/
def Reverted (t : Trace) : Prop :=
  ∃ bh receipt, sendReply t = some (.result bh) ∧ minedReceipt t = some receipt ∧
    receiptInt receipt.status = .ok 0

theorem topupReports_eq_iff {resp : SignTransactionResponse} {t : Trace}
    (hp : ∀ receipt, minedReceipt t = some receipt → receipt.Proper) :
    topupReports resp t = protocolFor resp t ↔ ¬ NonceTooLow t ∧ ¬ Reverted t := by
  unfold topupReports protocolFor reportsWith NonceTooLow Reverted
  cases hs : sendReply t with
  | none => simp
  | some reply =>
    cases hr : rpcResult "eth_sendRawTransaction" reply with
    | error e =>
      have hne : ∀ bh, reply ≠ .result bh := fun bh hbh => by
        rw [hbh] at hr
        cases hr
      cases e with
      | rpcError msg => rcases classifyBroadcastError_cases msg with hc | hc <;> simp [hr, hc, hne]
      | _ => simp [hr, hne]
    | ok bh =>
      obtain rfl := rpcResult_eq_ok hr
      cases hm : minedReceipt t with
      | none => simp [hr]
      | some receipt =>
        rcases (hp receipt hm).status with hst | hst
        · have hint := receiptInt_of_receiptAt hst
          simp [hr, minedOutcome, hint]
        · have hint := receiptInt_of_receiptAt hst
          simp [hr, minedOutcome, hint]

/-- The reports of a claim and of an FSP vote are those of the protocol; those of a top-up are
exactly if the node neither rejected it for its nonce nor mined it with status 0. -/
theorem reportsBack_iff [External] :
    (∀ (s : Settings) (ct : Int) (b : String) (claims : List RewardClaimWithProof) (wait : Bool)
        (wt : Nat) (retry : Option String) (hasRpc : Bool) (t : Trace)
        (r : Except Exc ClaimOutcome),
      Runs (submitClaims s ct b claims wait wt retry hasRpc) t r →
      (∀ receipt, minedReceipt t = some receipt → receipt.Proper) → reports t = protocol t) ∧
    (∀ (c : Option String) (hasRpc : Bool) (resp : SignTransactionResponse) (mt : MessageType)
        (epoch : Int) (sig' : SignFspMessageResponse) (wt : Nat) (t : Trace)
        (r : Except Exc FspOutcome),
      Runs (broadcastAndConfirm c hasRpc resp mt epoch sig' wt) t r →
      (∀ receipt, minedReceipt t = some receipt → receipt.Proper) →
      reports t = protocolFor resp t) ∧
    (∀ (caller : Option String) (account : Account) (before : ℚ) (valueWei : Int)
        (network : Network) (wallet : String) (chainId maxFee maxPriority : Int) (pt : Nat)
        (now : Int) (t : Trace) (r : Except Exc TopUp),
      Runs (executeTopup caller account before valueWei network wallet chainId maxFee maxPriority
        pt now) t r →
      (∀ receipt, minedReceipt t = some receipt → receipt.Proper) →
      (reports t = protocol t ↔ ¬ NonceTooLow t ∧ ¬ Reverted t)) := by
  refine ⟨?_, ?_, ?_⟩
  · intro s ct b claims wait wt retry hasRpc t r h hp
    exact (submitClaims_submission h).reports_eq (fun _ _ _ hd hp' => hd.reports_eq hp') hp
  · intro c hasRpc resp mt epoch sig' wt t r h hp
    rcases broadcastAndConfirm_delivers h with ⟨rfl, rfl, -⟩ | ⟨rfl, hd⟩
    · rfl
    · exact hd.reports_eq hp
  · intro caller account before valueWei network wallet chainId maxFee maxPriority pt now t r h hp
    have hsub := executeTopup_submission h
    rw [hsub.reports_eq (fun _ _ _ hd hp' => sendTopup_reports hd hp') hp, protocol]
    cases hs : t.findSome? signedOf with
    | none =>
      have hnone := hsub.sendReply_unsigned hs
      simp [NonceTooLow, Reverted, hnone]
    | some resp => exact topupReports_eq_iff hp

/-! ## A top-up with a used nonce -/

/-- `fwd` signs, and the node answers that the nonce is too low. -/
def usedNonceWorld : (op : Op) → op.Ans
  | .rpc (.sendRawTransaction _) => .error "nonce too low"
  | op => signingWorld op

def usedNonceTopup : Trace × Except Exc TopUp :=
  exec usedNonceWorld (executeTopup (some "fund") ⟨"Submit", "0x01", gasBand⟩ 100 5 .flare
    "ap-funder" 14 51 1 120 1754000000)

theorem usedNonceTopup_runs :
    Runs (executeTopup (some "fund") ⟨"Submit", "0x01", gasBand⟩ 100 5 .flare "ap-funder" 14 51 1
      120 1754000000) usedNonceTopup.1 usedNonceTopup.2 := exec_runs _ _

/-- The nonce is reported as releaseable. -/
theorem usedNonceTopup_misreported :
    NonceTooLow usedNonceTopup.1 ∧
      reports usedNonceTopup.1 = [⟨"tx-1", "0xaa", .inl .rejectedReleaseable⟩] ∧
      protocol usedNonceTopup.1 = [⟨"tx-1", "0xaa", .inl .rejectedNonceTooLow⟩] ∧
      ¬ reports usedNonceTopup.1 = protocol usedNonceTopup.1 := by
  refine ⟨⟨.error "nonce too low", _, by decide +kernel, rfl, by decide +kernel⟩, ?_⟩
  decide +kernel

theorem reportsBack_iff_usedNonce :
    reports usedNonceTopup.1 = protocol usedNonceTopup.1 ↔
      ¬ NonceTooLow usedNonceTopup.1 ∧ ¬ Reverted usedNonceTopup.1 := by
  have hnone : minedReceipt usedNonceTopup.1 = none := by decide +kernel
  refine (@reportsBack_iff External.static).2.2 _ _ _ _ _ _ _ _ _ _ _ _ _ usedNonceTopup_runs ?_
  intro receipt hm
  rw [hnone] at hm
  cases hm

end Clif
