import Clif.ReportBack

/-!
# ClaimEffect — the verdict on a mined claim

A mined claim counts by its effect: a `RewardClaimed` log with an amount above zero in the receipt
of that transaction.  `submit_claims` reads the receipt a second time and looks at the emitting
address only; `effectClassified_iff` says for which answers its verdict is still right.
-/

namespace Clif

open Effect

/-! ## The effect of a claim -/

/-- The event of the vendored `IRewardManager.json`. -/
def rewardClaimedSignature : String :=
  "RewardClaimed(address,address,address,uint24,uint8,uint120)"

def rewardClaimedTopic : String :=
  "0x" ++ Py.toHex (keccak256 rewardClaimedSignature.toUTF8.data.toList)

section

variable [External]

/-- The amount of a `RewardClaimed` log; the three addresses are indexed, the data are the epoch,
the claim type and the amount. -/
def LogEntry.rewardAmount (lg : LogEntry) : Option Int :=
  if lg.topics.head?.map Py.lower = some rewardClaimedTopic then
    match Py.fromHex (Py.removePrefix lg.data "0x") with
    | none => none
    | some data =>
      match abiDecode [.uint 24, .uint 8, .uint 120] data with
      | .ok [_, _, .int amount] => some amount
      | _ => none
  else none

/-- An anonymous log is no event of the interface. -/
theorem LogEntry.rewardAmount_anonymous {lg : LogEntry} (h : lg.topics = []) :
    lg.rewardAmount = none := by
  unfold LogEntry.rewardAmount
  rw [h, if_neg (by simp)]

/-- The receipt shows a reward: a `RewardClaimed` log of the reward manager, above zero. -/
def Receipt.Rewards (receipt : Receipt) (rewardManager : String) : Prop :=
  ∃ lg ∈ receipt.logs, Py.lower lg.address = Py.lower rewardManager ∧
    ∃ amount, lg.rewardAmount = some amount ∧ 0 < amount

theorem Receipt.Rewards.hasLogOf {receipt : Receipt} {rm : String} (h : receipt.Rewards rm) :
    receipt.hasLogOf rm = true := by
  obtain ⟨lg, hlg, haddr, -⟩ := h
  exact List.any_eq_true.mpr ⟨lg, hlg, by simpa using haddr⟩

/-! ## The property -/

/-- The answer to the read of the receipt after it was found mined. -/
def effectReply (t : Trace) : Option (Reply (Option Receipt)) :=
  match settledReads t with
  | .result (some _) :: reply :: _ => some reply
  | _ => none

def EndsIn (status : OutcomeStatus) (r : Except Exc ClaimOutcome) : Prop :=
  ∃ o, r = .ok o ∧ o.status = status

structure EffectClassified (s : Settings) (t : Trace) (r : Except Exc ClaimOutcome) : Prop where
  /-- Only the receipt of the transaction that was broadcast is read. -/
  exact : ∀ h reply, (⟨.rpc (.getTransactionReceipt h), reply⟩ : Event sig) ∈ t →
    sendReply t = some (.result h)
  mined : EndsIn .submittedMined r ↔ ∃ polled receipt, minedReceipt t = some polled ∧
    receiptInt polled.status = .ok 1 ∧ effectReply t = some (.result (some receipt)) ∧
    receipt.Rewards s.net.rewardManager
  noop : EndsIn .minedNoop r → ∃ receipt, effectReply t = some (.result (some receipt)) ∧
    ¬ receipt.Rewards s.net.rewardManager
  /-- An effect that could not be read is neither success nor a no-op. -/
  unread : (∀ receipt, effectReply t ≠ some (.result (some receipt))) →
    ¬ EndsIn .submittedMined r ∧ ¬ EndsIn .minedNoop r

/-- The answer to the effect read does not mislead: it is a receipt, and a log of the reward
manager in it comes with a reward.  (An answer of another shape raises.) -/
def Telling (rewardManager : String) : Reply (Option Receipt) → Prop
  | .result (some receipt) => receipt.hasLogOf rewardManager = true → receipt.Rewards rewardManager
  | .malformed _ _ => True
  | _ => False

end

/-! ## What `submit_claims` makes of the effect read -/

/-- The verdict on the answer to the effect read. -/
def Judged (rewardManager : String) (reply : Reply (Option Receipt))
    (r : Except Exc ClaimOutcome) : Prop :=
  match rpcResult "eth_getTransactionReceipt" reply with
  | .ok (some receipt) =>
    EndsIn (if receipt.hasLogOf rewardManager then .submittedMined else .minedNoop) r
  | .ok none => EndsIn .minedNoop r
  | .error (.rpcError _) => EndsIn .minedNoop r
  | .error e => r = .error e

/-- The run ends neither as mined nor as a no-op. -/
def Unjudged (r : Except Exc ClaimOutcome) : Prop :=
  ¬ EndsIn .submittedMined r ∧ ¬ EndsIn .minedNoop r

theorem endsIn_ok {status : OutcomeStatus} {o : ClaimOutcome} :
    EndsIn status (.ok o) ↔ o.status = status := by
  simp [EndsIn]

theorem not_endsIn_error {status : OutcomeStatus} {e : Exc} : ¬ EndsIn status (.error e) := by
  simp [EndsIn]

/-- A run ends in one status. -/
theorem EndsIn.unique {st st' : OutcomeStatus} {r : Except Exc ClaimOutcome} (h : EndsIn st r)
    (h' : EndsIn st' r) : st = st' := by
  obtain ⟨o, rfl, rfl⟩ := h
  exact endsIn_ok.mp h'

theorem unjudged_error {e : Exc} : Unjudged (.error e) := ⟨not_endsIn_error, not_endsIn_error⟩

theorem unjudged_ok {o : ClaimOutcome} (h₁ : o.status ≠ .submittedMined)
    (h₂ : o.status ≠ .minedNoop) : Unjudged (.ok o) := by
  simp only [Unjudged, endsIn_ok]
  exact ⟨h₁, h₂⟩

/-- What `_claim_took_effect` makes of the answer. -/
def tookEffect (rewardManager : String) (reply : Reply (Option Receipt)) : Except Exc Bool :=
  match rpcResult "eth_getTransactionReceipt" reply with
  | .ok (some receipt) => .ok (receipt.hasLogOf rewardManager)
  | .ok none => .ok false
  | .error (.rpcError _) => .ok false
  | .error e => .error e

theorem runs_claimTookEffect {rm bh : String} {t : Trace} {r : Except Exc Bool}
    (h : Runs (claimTookEffect rm bh) t r) :
    ∃ reply, t = [⟨.rpc (.getTransactionReceipt bh), reply⟩] ∧ r = tookEffect rm reply := by
  obtain ⟨reply, t', rfl, h'⟩ := runs_attempt_rpc_bind.mp h
  refine ⟨reply, ?_⟩
  unfold tookEffect
  split at h'
  · rename_i receipt hr
    obtain ⟨rfl, rfl⟩ := runs_pure.mp h'
    rw [show rpcResult "eth_getTransactionReceipt" reply = _ from hr]
    exact ⟨rfl, rfl⟩
  · rename_i hr
    obtain ⟨rfl, rfl⟩ := runs_pure.mp h'
    rw [show rpcResult "eth_getTransactionReceipt" reply = _ from hr]
    exact ⟨rfl, rfl⟩
  · rename_i m hr
    obtain ⟨rfl, rfl⟩ := runs_pure.mp h'
    rw [show rpcResult "eth_getTransactionReceipt" reply = _ from hr]
    exact ⟨rfl, rfl⟩
  · rename_i e hne hr
    obtain ⟨rfl, rfl⟩ := runs_throw.mp h'
    rw [show rpcResult "eth_getTransactionReceipt" reply = _ from hr]
    cases e with
    | rpcError m => exact absurd rfl (hne m)
    | _ => exact ⟨rfl, rfl⟩

theorem judged_of_took {rm : String} {reply : Reply (Option Receipt)} {took : Bool}
    {o : ClaimOutcome} (h : tookEffect rm reply = .ok took)
    (ho : o.status = if took then .submittedMined else .minedNoop) :
    Judged rm reply (.ok o) := by
  unfold tookEffect at h
  unfold Judged
  split at h
  · cases h
    rwa [endsIn_ok]
  · cases h
    rwa [endsIn_ok]
  · cases h
    rwa [endsIn_ok]
  · cases h

theorem judged_of_raised {rm : String} {reply : Reply (Option Receipt)} {e : Exc}
    (h : tookEffect rm reply = .error e) : Judged rm reply (.error e) := by
  unfold tookEffect at h
  unfold Judged
  split at h
  · cases h
  · cases h
  · cases h
  · rename_i e' hne hr
    cases h
    cases e with
    | rpcError m => exact absurd rfl (hne m)
    | _ => rfl

/-- The reads of receipts in a confirmation: none, or one, whose answer is judged. -/
theorem confirmClaim_judged {s : Settings} {resp : SignTransactionResponse} {bh : String}
    {out : OutcomeStatus → String → ClaimOutcome} {receipt : Receipt} {t : Trace}
    {r : Except Exc ClaimOutcome} (hout : ∀ st d, (out st d).status = st)
    (h : Runs (confirmClaim s resp bh out receipt) t r) :
    ((∀ e ∈ t, e.op.kind = .report) ∧ Unjudged r) ∨
      ∃ e reply, t = [e, ⟨.rpc (.getTransactionReceipt bh), reply⟩] ∧ e.op.kind = .report ∧
        receiptInt receipt.status = .ok 1 ∧ Judged s.net.rewardManager reply r := by
  unfold confirmClaim at h
  rcases runs_fromExcept_bind.mp h with ⟨block, -, h⟩ | ⟨e, -, rfl, rfl⟩
  swap
  · exact Or.inl ⟨by simp, unjudged_error⟩
  rcases runs_fromExcept_bind.mp h with ⟨status, hst, h⟩ | ⟨e, -, rfl, rfl⟩
  swap
  · exact Or.inl ⟨by simp, unjudged_error⟩
  obtain ⟨ans, t', rfl, ⟨-, h⟩ | ⟨e, -, rfl, rfl⟩⟩ := runs_reportQuietly_bind.mp h
  swap
  · exact Or.inl ⟨by simp [Op.kind], unjudged_error⟩
  by_cases hone : status = 1
  · subst hone
    rw [if_neg (by decide)] at h
    rcases runs_bind.mp h with ⟨took, t₁, t₂, rfl, h₁, h₂⟩ | ⟨e, h₁, rfl⟩
    · obtain ⟨reply, rfl, htook⟩ := runs_claimTookEffect h₁
      have hend : t₂ = [] ∧ ∃ o, r = .ok o ∧
          o.status = if took then .submittedMined else .minedNoop := by
        split at h₂
        · obtain ⟨rfl, rfl⟩ := runs_pure.mp h₂
          exact ⟨rfl, _, rfl, by rw [hout]; simp [*]⟩
        · obtain ⟨rfl, rfl⟩ := runs_pure.mp h₂
          exact ⟨rfl, _, rfl, by rw [hout]; simp [*]⟩
      obtain ⟨rfl, o, rfl, ho⟩ := hend
      exact Or.inr ⟨_, reply, rfl, rfl, hst, judged_of_took htook.symm ho⟩
    · obtain ⟨reply, rfl, htook⟩ := runs_claimTookEffect h₁
      exact Or.inr ⟨_, reply, rfl, rfl, hst, judged_of_raised htook.symm⟩
  · rw [if_pos (by simpa using hone)] at h
    obtain ⟨rfl, rfl⟩ := runs_pure.mp h
    exact Or.inl ⟨by simp [Op.kind], unjudged_ok (by rw [hout]; decide) (by rw [hout]; decide)⟩

/-! ## The effect read of a whole run -/

/-- Only receipts of this transaction are read. -/
def ReadsOnly (bh : String) (t : Trace) : Prop :=
  ∀ h reply, (⟨.rpc (.getTransactionReceipt h), reply⟩ : Event sig) ∈ t → h = bh

/-- Where the verdict of a run comes from: no effect read and no verdict, or the effect read of a
transaction that was found mined with status 1. -/
inductive Verdict (rewardManager : String) (t : Trace) (r : Except Exc ClaimOutcome) : Prop where
  | unjudged (h : effectReply t = none) (hr : Unjudged r)
  | judged {polled : Receipt} {reply : Reply (Option Receipt)} (hm : minedReceipt t = some polled)
      (hst : receiptInt polled.status = .ok 1) (h : effectReply t = some reply)
      (hj : Judged rewardManager reply r)

theorem effectReply_append {t₁ t₂ : Trace} (h : receiptReads t₁ = []) :
    effectReply (t₁ ++ t₂) = effectReply t₂ := by
  have heq : settledReads (t₁ ++ t₂) = settledReads t₂ := by
    rw [settledReads, receiptReads_append, h, List.nil_append, settledReads]
  rw [effectReply, heq, effectReply]

theorem effectReply_nil {t : Trace} (h : receiptReads t = []) : effectReply t = none := by
  rw [effectReply, settledReads, h]
  rfl

/-- Exchanges that read no receipt before a run do not change where its verdict comes from. -/
theorem Verdict.prepend {rm : String} {t₁ t₂ : Trace} {r : Except Exc ClaimOutcome}
    (hv : Verdict rm t₂ r) (h : receiptReads t₁ = []) : Verdict rm (t₁ ++ t₂) r := by
  cases hv with
  | unjudged he hr => exact .unjudged (by rw [effectReply_append h, he]) hr
  | judged hm hst he hj =>
    exact .judged (by rw [minedReceipt_append h, hm]) hst (by rw [effectReply_append h, he]) hj

theorem Verdict.of_unread {rm : String} {t : Trace} {r : Except Exc ClaimOutcome}
    (h : receiptReads t = []) (hr : Unjudged r) : Verdict rm t r :=
  .unjudged (effectReply_nil h) hr

theorem receiptReads_report {t : Trace} (h : ∀ e ∈ t, e.op.kind = .report) :
    receiptReads t = [] := by
  refine List.filterMap_eq_nil_iff.mpr fun e he => ?_
  have hk := h e he
  obtain ⟨op, ans⟩ := e
  cases op with
  | rpc o => cases o <;> first | rfl | cases hk
  | _ => rfl

/-- Polling, and what follows it. -/
theorem followClaim_verdict {s : Settings} {wt : Nat} {resp : SignTransactionResponse}
    {out : String → OutcomeStatus → String → ClaimOutcome} {bh : String} {t : Trace}
    {r : Except Exc ClaimOutcome} (hout : ∀ h st d, (out h st d).status = st)
    (h : Runs (followClaim s wt resp out bh) t r) :
    ReadsOnly bh t ∧ Verdict s.net.rewardManager t r := by
  have hpolled : ∀ {t₁ : Trace} {x : Except Exc (Option Receipt)}, Polled bh t₁ x →
      ReadsOnly bh t₁ := by
    intro t₁ x hpoll h' reply hmem
    rcases hpoll.ops _ hmem with hop | hop
    · cases hop
      rfl
    · cases hop
  rcases runs_pollReceipt_bind h with ⟨e, hpoll, rfl⟩ | ⟨x, t₁, t₂, rfl, hpoll, h'⟩
  · refine ⟨hpolled hpoll, .unjudged ?_ unjudged_error⟩
    obtain ⟨reply, hset, he⟩ := hpoll.settled_error
    rw [effectReply, hset]
    split
    · rename_i heq
      cases heq
    · rfl
  cases x with
  | none =>
    obtain ⟨rfl, rfl⟩ := runs_pure.mp h'
    rw [List.append_nil]
    refine ⟨hpolled hpoll, .unjudged ?_ (unjudged_ok (by rw [hout]; decide) (by rw [hout]; decide))⟩
    rw [effectReply, hpoll.settled_none]
  | some receipt =>
    have hset := hpoll.settled_some (u := t₂)
    have hmined : minedReceipt (t₁ ++ t₂) = some receipt := by rw [minedReceipt, hset]
    rcases confirmClaim_judged (hout bh) h' with ⟨hrep, hr⟩ | ⟨e, reply, rfl, hk, hst, hj⟩
    · refine ⟨fun h'' reply hmem => ?_, .unjudged ?_ hr⟩
      · rcases List.mem_append.mp hmem with hmem | hmem
        · exact hpolled hpoll _ _ hmem
        · cases hrep _ hmem
      · rw [effectReply, hset, receiptReads_report hrep]
    · have hreads : receiptReads [e, ⟨.rpc (.getTransactionReceipt bh), reply⟩] = [reply] := by
        have hnil : receiptReads [e] = [] := receiptReads_report (by simpa using hk)
        have happ := receiptReads_append [e] [⟨.rpc (.getTransactionReceipt bh), reply⟩]
        rw [hnil] at happ
        exact happ
      refine ⟨fun h'' reply' hmem => ?_, .judged hmined hst ?_ hj⟩
      · rcases List.mem_append.mp hmem with hmem | hmem
        · exact hpolled hpoll _ _ hmem
        · rcases List.mem_cons.mp hmem with rfl | hmem
          · cases hk
          · rw [List.mem_singleton] at hmem
            cases hmem
            rfl
      · rw [effectReply, hset, hreads]

/-- The reads of receipts of a run, and its verdict. -/
structure EffectRun (s : Settings) (t : Trace) (r : Except Exc ClaimOutcome) : Prop where
  exact : ∀ h reply, (⟨.rpc (.getTransactionReceipt h), reply⟩ : Event sig) ∈ t →
    sendReply t = some (.result h)
  verdict : Verdict s.net.rewardManager t r

theorem mem_receiptReads {t : Trace} {h : String} {reply : Reply (Option Receipt)}
    (hmem : (⟨.rpc (.getTransactionReceipt h), reply⟩ : Event sig) ∈ t) :
    reply ∈ receiptReads t := List.mem_filterMap.mpr ⟨_, hmem, rfl⟩

/-- A run that reads no receipt. -/
theorem EffectRun.of_unread {s : Settings} {t : Trace} {r : Except Exc ClaimOutcome}
    (h : receiptReads t = []) (hr : Unjudged r) : EffectRun s t r where
  exact := by
    intro h' reply hmem
    have := mem_receiptReads hmem
    rw [h] at this
    cases this
  verdict := .of_unread h hr

theorem EffectRun.prepend {s : Settings} {t₁ t₂ : Trace} {r : Except Exc ClaimOutcome}
    (hrun : EffectRun s t₂ r) (h : receiptReads t₁ = []) (hs : ∀ e ∈ t₁, sendReplyOf e = none) :
    EffectRun s (t₁ ++ t₂) r where
  exact := by
    intro h' reply hmem
    rw [sendReply_append hs]
    rcases List.mem_append.mp hmem with hmem | hmem
    · have := mem_receiptReads hmem
      rw [h] at this
      cases this
    · exact hrun.exact h' reply hmem
  verdict := hrun.verdict.prepend h

theorem unjudged_of_unsent {o : ClaimOutcome} (ho : (o.sent).all OutcomeStatus.unsent = true) :
    Unjudged (.ok o) := by
  refine unjudged_ok (fun h => ?_) fun h => ?_ <;>
    · rw [ClaimOutcome.sent, h] at ho
      cases ho

theorem DeliversClaim.effectRun {s : Settings} {wt : Nat} {resp : SignTransactionResponse}
    {t : Trace} {r : Except Exc ClaimOutcome} (h : DeliversClaim s wt resp t r) :
    EffectRun s t r := by
  obtain ⟨out, hout, h⟩ := h
  cases h with
  | broken => exact .of_unread rfl unjudged_error
  | rejected hreply hans ho => exact .of_unread rfl (unjudged_of_unsent (unsent_of_rejected ho))
  | rejectedRaised hreply hans => exact .of_unread rfl unjudged_error
  | acceptedRaised hans => exact .of_unread rfl unjudged_error
  | @accepted bh ans t _ hans h =>
    obtain ⟨honly, hv⟩ := followClaim_verdict (fun h st d => (hout h st d).1) h
    refine ⟨fun h' reply hmem => ?_, ?_⟩
    · rcases List.mem_cons.mp hmem with hmem | hmem
      · cases hmem
      · rcases List.mem_cons.mp hmem with hmem | hmem
        · cases hmem
        · rw [honly h' reply hmem]
          rfl
    · exact @Verdict.prepend _ [⟨.rpc (.sendRawTransaction resp.signedRawTx), .result bh⟩,
        ⟨.fwd s.fwdCallerToken (.reportBroadcastResult resp.txId bh .accepted none), ans⟩] _ _ hv rfl

theorem Submission.effectRun [External] {s : Settings} {wt : Nat} {caught : Exc → Bool}
    {sends : Bool} {t : Trace} {r : Except Exc ClaimOutcome}
    (h : Submission ClaimOutcome.sent caught sends (DeliversClaim s wt) t r) :
    EffectRun s t r := by
  have hearly : ∀ {pre : Trace}, (∀ e ∈ pre, Early e) → ∀ e ∈ pre, sendReplyOf e = none :=
    fun hpre e he => sendReplyOf_eq_none (hpre e he).send
  have hsign : ∀ {e : Event sig}, e.op.kind = .sign → receiptReadOf e = none := by
    rintro ⟨op, ans⟩ hk
    cases op with
    | rpc o => cases o <;> first | rfl | cases hk
    | _ => rfl
  have hsigned : ∀ {e : Event sig} {resp : SignTransactionResponse}, signedOf e = some resp →
      e.op.kind = .sign := by
    intro e resp he
    unfold signedOf at he
    split at he <;> first | rfl | cases he
  cases h with
  | early ht hok herr =>
    refine .of_unread (receiptReads_early ht) ?_
    cases r with
    | ok o => exact unjudged_of_unsent (hok o rfl)
    | error e => exact unjudged_error
  | @refused pre e exc _ hpre he hk hok herr =>
    refine .of_unread ?_ ?_
    · rw [receiptReads_append, receiptReads_early hpre]
      simp [receiptReads, hsign hk]
    · cases r with
      | ok o => exact unjudged_of_unsent (hok o rfl).2
      | error e => exact unjudged_error
  | @kept pre e resp o hpre he hsends ho =>
    refine .of_unread ?_ ?_
    · rw [receiptReads_append, receiptReads_early hpre]
      simp [receiptReads, hsign (hsigned he)]
    · have hst : o.status = .submittedPending := Option.some.inj ho
      exact unjudged_ok (by rw [hst]; decide) (by rw [hst]; decide)
  | @sent pre t e resp _ hpre he hsends h =>
    refine @EffectRun.prepend _ pre _ _ ?_ (receiptReads_early hpre) (hearly hpre)
    refine @EffectRun.prepend _ [e] _ _ h.effectRun ?_ ?_
    · simp [receiptReads, hsign (hsigned he)]
    · simpa using sendReplyOf_eq_none (e := e) (by rw [hsigned he]; decide)

section

variable [External]

/-! ## The verdict against the effect -/

theorem effectClassified_of_telling {s : Settings} {t : Trace} {r : Except Exc ClaimOutcome}
    (h : EffectRun s t r)
    (htell : ∀ reply, effectReply t = some reply → Telling s.net.rewardManager reply) :
    EffectClassified s t r := by
  cases h.verdict with
  | unjudged he hr =>
    refine ⟨h.exact, ⟨fun hend => absurd hend hr.1, ?_⟩, fun hend => absurd hend hr.2, fun _ => hr⟩
    rintro ⟨polled, receipt, -, -, he', -⟩
    rw [he] at he'
    cases he'
  | @judged polled reply hm hst he hj =>
    have ht := htell reply he
    cases reply with
    | result found =>
      cases found with
      | none => exact ht.elim
      | some receipt =>
        have hread : effectReply t = some (.result (some receipt)) := he
        have heff : ∀ rc, effectReply t = some (.result (some rc)) → rc = receipt := by
          intro rc hrc
          rw [hread] at hrc
          cases hrc
          rfl
        simp only [Judged, rpcResult] at hj
        cases hl : receipt.hasLogOf s.net.rewardManager with
        | true =>
          rw [hl, if_pos rfl] at hj
          have hrew := ht hl
          refine ⟨h.exact, ⟨fun _ => ⟨polled, receipt, hm, hst, hread, hrew⟩, fun _ => hj⟩, ?_, ?_⟩
          · intro hnoop
            cases hj.unique hnoop
          · intro hun
            exact absurd hread (hun receipt)
        | false =>
          rw [hl, if_neg (by decide)] at hj
          have hrew : ¬ receipt.Rewards s.net.rewardManager := fun hrew => by
            rw [hrew.hasLogOf] at hl
            cases hl
          refine ⟨h.exact, ⟨fun hmined => ?_, ?_⟩, fun _ => ⟨receipt, hread, hrew⟩, fun hun => ?_⟩
          · cases hj.unique hmined
          · rintro ⟨-, rc, -, -, hrc, hr⟩
            rw [heff rc hrc] at hr
            exact absurd hr hrew
          · exact absurd hread (hun receipt)
    | malformed c m =>
      simp only [Judged, rpcResult] at hj
      subst hj
      refine ⟨h.exact, ⟨fun hend => absurd hend not_endsIn_error, ?_⟩,
        fun hend => absurd hend not_endsIn_error, fun _ => unjudged_error⟩
      rintro ⟨-, rc, -, -, hrc, -⟩
      rw [he] at hrc
      cases hrc
    | _ => exact ht.elim

theorem telling_of_effectClassified {s : Settings} {t : Trace} {r : Except Exc ClaimOutcome}
    (h : EffectRun s t r) (hc : EffectClassified s t r) {reply : Reply (Option Receipt)}
    (he : effectReply t = some reply) : Telling s.net.rewardManager reply := by
  cases h.verdict with
  | unjudged he' hr =>
    rw [he] at he'
    cases he'
  | judged hm hst he' hj =>
    obtain rfl := Option.some.inj (he.symm.trans he')
    -- an answer that is no receipt is judged a no-op
    have hnone : (∀ rc, reply ≠ .result (some rc)) → EndsIn .minedNoop r → False := by
      intro hne hnoop
      refine (hc.unread fun rc hrc => hne rc ?_).2 hnoop
      exact Option.some.inj (he.symm.trans hrc)
    cases reply with
    | result found =>
      cases found with
      | none => exact (hnone (fun _ hrc => by cases hrc) hj).elim
      | some receipt =>
        intro hl
        simp only [Judged, rpcResult, hl, if_true] at hj
        obtain ⟨-, rc, -, -, hrc, hr⟩ := hc.mined.mp hj
        rw [he] at hrc
        cases hrc
        exact hr
    | malformed c m => trivial
    | error m => exact (hnone (fun _ hrc => by cases hrc) hj).elim
    | _ => exact (hnone (fun _ hrc => by cases hrc) hj).elim

/-- The verdict on a claim is that of its effect, exactly if the answer to the effect read does not
mislead. -/
theorem effectClassified_iff {s : Settings} {ct : Int} {b : String}
    {claims : List RewardClaimWithProof} {wait : Bool} {wt : Nat} {retry : Option String}
    {hasRpc : Bool} {t : Trace} {r : Except Exc ClaimOutcome}
    (h : Runs (submitClaims s ct b claims wait wt retry hasRpc) t r) :
    EffectClassified s t r ↔
      ∀ reply, effectReply t = some reply → Telling s.net.rewardManager reply := by
  have hrun := (submitClaims_submission h).effectRun
  exact ⟨fun hc reply he => telling_of_effectClassified hrun hc he,
    fun ht => effectClassified_of_telling hrun ht⟩

end

/-! ## An effect that is not read, and a log that is no reward -/

/-- A claim of epoch 400. -/
def sampleClaims : List RewardClaimWithProof :=
  [⟨[], 400, "0x00000000000000000000000000000000000000bb", 5, 2⟩]

/-- The receipt of a claim that was mined with status 1. -/
def minedClaim (logs : List LogEntry) : Receipt := ⟨some "0x10", some "0x1", logs⟩

/-- `fwd` signs, the node accepts, and the second read of the receipt is answered by `effect`. -/
def claimWorld (logs : List LogEntry) (effect : Reply (Option Receipt)) (n : Nat) :
    (op : Op) → op.Ans
  | .rpc (.sendRawTransaction _) => .result "0xaa"
  | .rpc (.getTransactionReceipt _) =>
    if n < 7 then .result (some (minedClaim logs)) else effect
  | op => signingWorld op

/-- `submit_claims` in that world. -/
def claimRun (s : Settings) (claims : List RewardClaimWithProof) (logs : List LogEntry)
    (effect : Reply (Option Receipt)) : Trace × Except Exc ClaimOutcome :=
  execFrom (claimWorld logs effect) (@submitClaims External.standard s 2
    "0x00000000000000000000000000000000000000bb" claims true 120 none true) 0

theorem claimRun_runs (s : Settings) (claims : List RewardClaimWithProof) (logs : List LogEntry)
    (effect : Reply (Option Receipt)) :
    Runs (@submitClaims External.standard s 2 "0x00000000000000000000000000000000000000bb" claims
      true 120 none true) (claimRun s claims logs effect).1 (claimRun s claims logs effect).2 :=
  execFrom_runs _ _ _

/-- The effect read times out. -/
def unreadClaim : Trace × Except Exc ClaimOutcome :=
  claimRun sampleSettings sampleClaims [] (.error "timed out")

/-- A log of the reward manager without topics: no event of its interface. -/
def foreignLog : LogEntry := ⟨sampleSettings.net.rewardManager, [], ""⟩

/-- The receipt has that log and no other. -/
def foreignLogClaim : Trace × Except Exc ClaimOutcome :=
  claimRun sampleSettings sampleClaims [foreignLog] (.result (some (minedClaim [foreignLog])))

/-- An effect that was not read is called a no-op, and a log that is no reward is called mined. -/
theorem claimRun_misjudged :
    (EndsIn .minedNoop unreadClaim.2 ∧
      ¬ @EffectClassified External.standard sampleSettings unreadClaim.1 unreadClaim.2) ∧
    (EndsIn .submittedMined foreignLogClaim.2 ∧
      ¬ @EffectClassified External.standard sampleSettings foreignLogClaim.1
        foreignLogClaim.2) := by
  have hnoop : unreadClaim.2.toOption.map (fun o => o.status) = some .minedNoop := by
    decide +kernel
  have hmined : foreignLogClaim.2.toOption.map (fun o => o.status) = some .submittedMined := by
    decide +kernel
  have hends : ∀ {st : OutcomeStatus} {r : Except Exc ClaimOutcome},
      r.toOption.map (fun o => o.status) = some st → EndsIn st r := by
    intro st r hr
    cases r with
    | ok o => exact endsIn_ok.mpr (Option.some.inj hr)
    | error e => cases hr
  have hread₁ : effectReply unreadClaim.1 = some (.error "timed out") := by decide +kernel
  have hread₂ : effectReply foreignLogClaim.1 =
      some (.result (some (minedClaim [foreignLog]))) := by
    decide +kernel
  refine ⟨⟨hends hnoop, fun hc => ?_⟩, hends hmined, fun hc => ?_⟩
  · refine (@EffectClassified.unread External.standard _ _ _ hc fun receipt hrc =>
      ?_).2 (hends hnoop)
    rw [hread₁] at hrc
    cases hrc
  · obtain ⟨-, receipt, -, -, hrc, lg, hlg, -, amount, hamount, -⟩ :=
      (@EffectClassified.mined External.standard _ _ _ hc).mp (hends hmined)
    rw [hread₂] at hrc
    cases hrc
    obtain rfl := List.mem_singleton.mp hlg
    rw [@LogEntry.rewardAmount_anonymous External.standard foreignLog rfl] at hamount
    exact nomatch hamount

theorem effectClassified_iff_unread :
    @EffectClassified External.standard sampleSettings unreadClaim.1 unreadClaim.2 ↔
      ∀ reply, effectReply unreadClaim.1 = some reply →
        @Telling External.standard sampleSettings.net.rewardManager reply :=
  have hiff (s : Settings) (claims : List RewardClaimWithProof) :=
    @effectClassified_iff External.standard _ _ _ _ _ _ _ _ _ _
      (claimRun_runs s claims [] (.error "timed out"))
  hiff sampleSettings sampleClaims

end Clif
