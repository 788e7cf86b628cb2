import Clif.ClaimEffect
import Clif.FwdContract

/-!
# ClaimRepeat — a claim that is attempted again

Attempts at one claim share an idempotency key, so `fwd` knows an attempt from an earlier one.
`deduplicated_iff` says for which runs of attempts none of them fails for good because of an
earlier one.
-/

namespace Clif

open Effect

/-! ## Attempts -/

/-- The arguments of a call of `submit_claims` that may change from one attempt to the next. -/
structure ClaimCall where
  settings : Settings
  wait : Bool
  waitTimeout : Nat
  retry : Option String
  hasRpc : Bool

/-- One call, with what `fwd` had on record before it. -/
structure Attempt where
  call : ClaimCall
  before : FwdMemory
  trace : Trace
  result : Except Exc ClaimOutcome

/-- The call is about this network and carries this retry token. -/
structure ClaimCall.For (c : ClaimCall) (network : Network) (token : Option String) : Prop where
  network : c.settings.network = network
  token : retryToken c.retry c.settings.idempotencyRetry = token

section

variable [External]

/-- Attempts at one claim, one after the other, with `fwd` keeping its contract. -/
inductive Attempts (network : Network) (ct : Int) (b : String) (claims : List RewardClaimWithProof)
    (token : Option String) : FwdMemory → List Attempt → FwdMemory → Prop
  | nil {m : FwdMemory} : Attempts network ct b claims token m [] m
  | snoc {m₀ m m' : FwdMemory} {earlier : List Attempt} {a : Attempt}
      (h : Attempts network ct b claims token m₀ earlier m) (hm : a.before = m)
      (hfor : a.call.For network token)
      (hrun : Runs (submitClaims a.call.settings ct b claims a.call.wait a.call.waitTimeout
        a.call.retry a.call.hasRpc) a.trace a.result)
      (hserves : FwdServes m a.trace m') :
      Attempts network ct b claims token m₀ (earlier ++ [a]) m'

end

/-! ## The property -/

/-- Some attempt is to be repeated: it ended as retryable or pending. -/
def Open (earlier : List Attempt) : Prop :=
  ∃ a ∈ earlier, EndsIn .failedRetryable a.result ∨ EndsIn .submittedPending a.result

/-- The exchange failed because of an earlier attempt: `fwd` has another body under the key, or the
node holds the transaction since then. -/
def OwnDoing (earlier : List Attempt) (t : Trace) : Prop :=
  (∃ c body key e, (⟨.fwd c (.signTransaction body key), .error e⟩ : Event sig) ∈ t ∧
    e.isConflict = true) ∨
  ∃ a ∈ earlier, ∃ raw bh err,
    (⟨.rpc (.sendRawTransaction raw), .result bh⟩ : Event sig) ∈ a.trace ∧
    (⟨.rpc (.sendRawTransaction raw), .error err⟩ : Event sig) ∈ t ∧ alreadyKnown err = true

structure Deduplicated (earlier : List Attempt) (a : Attempt) : Prop where
  notEscalated : EndsIn .failedTerminal a.result → ¬ OwnDoing earlier a.trace
  /-- A caller gets the transaction it got before. -/
  replayed : ∀ c body key resp,
    (⟨.fwd c (.signTransaction body key), .ok resp⟩ : Event sig) ∈ a.trace →
    ∀ a' ∈ earlier, ∀ body' resp',
      (⟨.fwd c (.signTransaction body' key), .ok resp'⟩ : Event sig) ∈ a'.trace → resp' = resp

/-- A call of `fwd` raised something that is no `FwdError`. -/
def Raised (t : Trace) : Prop :=
  ∃ (c : Option String) (o : FwdOp) (e : Exc), (⟨.fwd c o, .error e⟩ : Event sig) ∈ t ∧
    e.isFwd = false

/-- The attempt asks for the body on record, or `fwd` fails before it compares; and where the node
says that it knows a transaction it accepted before, it also says that the nonce is too low (or the
report raises). -/
structure Steady (earlier : List Attempt) (a : Attempt) : Prop where
  body : ∀ c body key ans first resp,
    (⟨.fwd c (.signTransaction body key), ans⟩ : Event sig) ∈ a.trace →
    a.before (c, key) = some (first, resp) → first ≠ body → answerOf ans = .failed
  known : ∀ a' ∈ earlier, ∀ raw bh err,
    (⟨.rpc (.sendRawTransaction raw), .result bh⟩ : Event sig) ∈ a'.trace →
    (⟨.rpc (.sendRawTransaction raw), .error err⟩ : Event sig) ∈ a.trace →
    alreadyKnown err = true →
    classifyBroadcastError (sendErrorText err) = .rejectedNonceTooLow ∨ Raised a.trace

/-! ## One attempt -/

/-- A conflict is an exception of a signing request. -/
theorem conflict_of_request {t : Trace} {e : Event sig}
    {x : CallerKey × TxBody × Answer SignTransactionResponse} (he : e ∈ t)
    (h : signRequest e = some x) (hx : x.2.2 = .conflict) :
    ∃ c body key exc, (⟨.fwd c (.signTransaction body key), .error exc⟩ : Event sig) ∈ t ∧
      exc.isConflict = true := by
  unfold signRequest at h
  split at h
  · rename_i c body key ans
    cases h
    cases ans with
    | ok resp => cases hx
    | error exc =>
      refine ⟨c, body, key, exc, he, ?_⟩
      by_contra hno
      simp [answerOf, hno] at hx
  · cases h

/-- No call of `fwd` that comes early fails. -/
theorem Early.fwd_ok {c : Option String} {o : FwdOp} {e : Exc}
    (h : Early ⟨.fwd c o, .error e⟩) : False := by
  cases o with
  | signTransaction body key => exact absurd h.unrefused nofun
  | signFspMessage req => exact absurd h.unrefused nofun
  | reportBroadcastResult i x oc cls => exact h.report rfl
  | reportReceipt i x oc n => exact h.report rfl

theorem emits_answeredClaim (s : Settings) (wait : Bool) (wt : Nat) (hasRpc : Bool)
    (out : OutcomeStatus → String → ClaimOutcome) (x : Except Exc SignTransactionResponse) :
    Emits (answeredClaim s wait wt hasRpc out x) fun e => e.op.kind ≠ .sign := by
  unfold answeredClaim
  split
  · exact emits_pure _
  · exact emits_pure _
  · exact emits_throw _
  · split
    · exact emits_pure _
    · split
      · exact emits_pure _
      · exact emits_broadcastClaim (AllOf.ne (by decide)) (AllOf.ne (by decide))
          (AllOf.ne (by decide)) _ _ _ _

/-- A conflict ends an attempt for good. -/
theorem answeredClaim_conflict {s : Settings} {wait : Bool} {wt : Nat} {hasRpc : Bool}
    {out : OutcomeStatus → String → ClaimOutcome} {e : Exc} {t : Trace}
    {r : Except Exc ClaimOutcome} (hout : ∀ st d, (out st d).status = st)
    (he : e.isConflict = true) (h : Runs (answeredClaim s wait wt hasRpc out (.error e)) t r) :
    EndsIn .failedTerminal r := by
  cases e with
  | fwdTerminal st code text =>
    obtain ⟨rfl, rfl⟩ := runs_pure.mp h
    exact endsIn_ok.mpr (hout _ _)
  | _ => cases he

/-- What a rejected broadcast leads to: an outcome by its text, and nothing raised; or the report of
the rejection raised. -/
theorem answeredClaim_rejected {s : Settings} {wait : Bool} {wt : Nat} {hasRpc : Bool}
    {out : OutcomeStatus → String → ClaimOutcome} {x : Except Exc SignTransactionResponse}
    {t : Trace} {r : Except Exc ClaimOutcome} {raw err : String}
    (hout : ∀ st d, (out st d).status = st)
    (h : Runs (answeredClaim s wait wt hasRpc out x) t r)
    (he : (⟨.rpc (.sendRawTransaction raw), .error err⟩ : Event sig) ∈ t) :
    (∃ resp, x = .ok resp) ∧
      ((EndsIn (classifyBroadcastError (sendErrorText err)).status r ∧ ¬ Raised t) ∨
        ((∃ e, r = .error e) ∧ Raised t)) := by
  have hnil : t ≠ [] := by
    rintro rfl
    cases he
  cases x with
  | error e =>
    refine absurd ?_ hnil
    cases e with
    | fwdTerminal st code text => exact (runs_pure.mp h).1
    | fwdRetryable st code text => exact (runs_pure.mp h).1
    | _ => exact (runs_throw.mp h).1
  | ok resp =>
    refine ⟨⟨resp, rfl⟩, ?_⟩
    have hsend : hasRpc = true ∧ wait = true := by
      by_contra hno
      refine hnil ?_
      unfold answeredClaim at h
      dsimp only at h
      split at h
      · exact (runs_pure.mp h).1
      · split at h
        · exact (runs_pure.mp h).1
        · simp_all
    obtain ⟨rfl, rfl⟩ := hsend
    have hst : ∀ st d, ClaimOutcome.sent (signedOut out resp resp.hash st d) = some st :=
      fun st d => congrArg some (hout st d)
    have hdel := broadcastSigned_delivery hst (show Runs (broadcastSigned s.fwdCallerToken resp
      (signedOut out resp resp.hash) (followClaim s wt resp (signedOut out resp))) t r from h)
    cases hdel with
    | broken =>
      rw [List.mem_singleton] at he
      cases he
    | @rejected reply msg ans o hreply hans ho =>
      have hsent : reply = .error err := by
        rcases List.mem_cons.mp he with he | he
        · cases he
          rfl
        · rw [List.mem_singleton] at he
          cases he
      subst hsent
      cases hreply
      refine Or.inl ⟨endsIn_ok.mpr (ho _ rfl), ?_⟩
      rintro ⟨c, fo, e, hmem, hfwd⟩
      rcases List.mem_cons.mp hmem with hmem | hmem
      · cases hmem
      · rw [List.mem_singleton] at hmem
        cases hmem
        simp [swallow, hfwd] at hans
    | @rejectedRaised reply msg ans e hreply hans =>
      cases ans with
      | ok u => cases hans
      | error e' =>
        have hfwd : e'.isFwd = false := by
          by_contra hno
          have hyes : e'.isFwd = true := by simpa using hno
          simp [swallow, hyes] at hans
        exact Or.inr ⟨⟨e, rfl⟩, _, _, e', List.mem_cons_of_mem _ (List.mem_singleton_self _), hfwd⟩
    | acceptedRaised hans =>
      rcases List.mem_cons.mp he with he | he
      · cases he
      · rw [List.mem_singleton] at he
        cases he
    | @accepted bh ans t _ hans h' =>
      have hnone : Emits (followClaim s wt resp (signedOut out resp) bh) fun e =>
          e.op.kind ≠ .send :=
        emits_followClaim (AllOf.ne (by decide)) (AllOf.ne (by decide)) wt resp _ bh
      rcases List.mem_cons.mp he with he | he
      · cases he
      · rcases List.mem_cons.mp he with he | he
        · cases he
        · exact absurd rfl (hnone _ _ h' _ he)

/-! ## Every attempt -/

section

variable [External]

/-- An attempt, taken apart: it asks for nothing, or asks once. -/
theorem Attempts.cases_last {network : Network} {ct : Int} {b : String}
    {claims : List RewardClaimWithProof} {token : Option String} {m₀ m' : FwdMemory}
    {earlier : List Attempt} {a : Attempt}
    (h : Attempts network ct b claims token m₀ (earlier ++ [a]) m') :
    Attempts network ct b claims token m₀ earlier a.before ∧
      Runs (submitClaims a.call.settings ct b claims a.call.wait a.call.waitTimeout a.call.retry
        a.call.hasRpc) a.trace a.result ∧ FwdServes a.before a.trace m' := by
  generalize hl : earlier ++ [a] = l at h
  cases h with
  | nil => simp at hl
  | snoc h hm hfor hrun hserves =>
    obtain ⟨rfl, hlast⟩ := List.append_inj' hl rfl
    obtain rfl := List.singleton_inj.mp hlast
    subst hm
    exact ⟨h, hrun, hserves⟩

/-- A transaction an earlier attempt got is on record. -/
theorem Attempts.recorded {network : Network} {ct : Int} {b : String}
    {claims : List RewardClaimWithProof} {token : Option String} {m₀ m : FwdMemory}
    {as : List Attempt} (h : Attempts network ct b claims token m₀ as m) {a : Attempt}
    (ha : a ∈ as) {c : Option String} {body : TxBody} {key : String}
    {resp : SignTransactionResponse}
    (he : (⟨.fwd c (.signTransaction body key), .ok resp⟩ : Event sig) ∈ a.trace) :
    m (c, key) = some (body, resp) := by
  induction h with
  | nil => cases ha
  | snoc h hm hfor hrun hserves ih =>
    rcases List.mem_append.mp ha with ha | ha
    · exact hserves.le _ _ (ih ha)
    · obtain rfl := List.mem_singleton.mp ha
      exact hserves.recorded he

/-- A conflict ends an attempt for good, and is about another body. -/
theorem submitClaims_conflict {s : Settings} {ct : Int} {b : String}
    {claims : List RewardClaimWithProof} {wait : Bool} {wt : Nat} {retry : Option String}
    {hasRpc : Bool} {m m' : FwdMemory} {t : Trace} {r : Except Exc ClaimOutcome}
    (h : Runs (submitClaims s ct b claims wait wt retry hasRpc) t r) (hserves : FwdServes m t m')
    {c : Option String} {body : TxBody} {key : String} {e : Exc}
    (he : (⟨.fwd c (.signTransaction body key), .error e⟩ : Event sig) ∈ t)
    (hconf : e.isConflict = true) :
    EndsIn .failedTerminal r ∧ ∃ first resp, m (c, key) = some (first, resp) ∧ first ≠ body := by
  cases submitClaims_request h with
  | early ht hok herr => exact absurd (ht _ he).unrefused nofun
  | @asked pre t lastEpoch data fees out x r hpre hlast hdata hout h =>
    rcases List.mem_append.mp he with he | he
    · exact absurd (hpre _ he).unrefused nofun
    rcases List.mem_cons.mp he with he | he
    · cases he
      refine ⟨answeredClaim_conflict hout hconf h, ?_⟩
      obtain ⟨m₁, h₁, h₂⟩ := hserves.append
      obtain rfl := h₁.quiet fun e' he' => (hpre e' he').unasked
      cases h₂ with
      | other hnone ht => cases hnone
      | request hsome hs ht =>
        have hans : answerOf (.error e) = .conflict := by simp [answerOf, hconf]
        rw [signRequest, hans] at hsome
        cases hsome
        exact hs.other
    · exact absurd rfl (emits_answeredClaim _ _ _ _ _ _ _ _ h _ he)

/-- What a rejected broadcast leads to. -/
theorem submitClaims_rejected {s : Settings} {ct : Int} {b : String}
    {claims : List RewardClaimWithProof} {wait : Bool} {wt : Nat} {retry : Option String}
    {hasRpc : Bool} {t : Trace} {r : Except Exc ClaimOutcome} {raw err : String}
    (h : Runs (submitClaims s ct b claims wait wt retry hasRpc) t r)
    (he : (⟨.rpc (.sendRawTransaction raw), .error err⟩ : Event sig) ∈ t) :
    (EndsIn (classifyBroadcastError (sendErrorText err)).status r ∧ ¬ Raised t) ∨
      ((∃ e, r = .error e) ∧ Raised t) := by
  cases submitClaims_request h with
  | early ht hok herr => exact absurd rfl (ht _ he).send
  | @asked pre t lastEpoch data fees out x r hpre hlast hdata hout h =>
    rcases List.mem_append.mp he with he | he
    · exact absurd rfl (hpre _ he).send
    rcases List.mem_cons.mp he with he | he
    · cases he
    obtain ⟨⟨resp, rfl⟩, hcase⟩ := answeredClaim_rejected hout h he
    refine hcase.imp (fun hend => ⟨hend.1, ?_⟩) fun hraised => ⟨hraised.1, ?_⟩
    · rintro ⟨c, o, e, hmem, hfwd⟩
      rcases List.mem_append.mp hmem with hmem | hmem
      · exact (hpre _ hmem).fwd_ok
      rcases List.mem_cons.mp hmem with hmem | hmem
      · cases hmem
      · exact hend.2 ⟨c, o, e, hmem, hfwd⟩
    · obtain ⟨c, o, e, hmem, hfwd⟩ := hraised.2
      exact ⟨c, o, e, List.mem_append_right _ (List.mem_cons_of_mem _ hmem), hfwd⟩

variable {network : Network} {ct : Int} {b : String} {claims : List RewardClaimWithProof}
  {token : Option String} {m₀ m' : FwdMemory} {earlier : List Attempt} {a : Attempt}

/-- An attempt that neither finds another body under its key nor resends what the node knows. -/
theorem deduplicated_of_steady (h : Attempts network ct b claims token m₀ (earlier ++ [a]) m')
    (hs : Steady earlier a) : Deduplicated earlier a := by
  obtain ⟨hbefore, hrun, hserves⟩ := h.cases_last
  refine ⟨?_, ?_⟩
  · rintro hend (⟨c, body, key, e, he, hconf⟩ | ⟨a', ha', raw, bh, err, hacc, hrej, hknown⟩)
    · obtain ⟨-, first, resp, hm, hne⟩ := submitClaims_conflict hrun hserves he hconf
      have hfailed := hs.body c body key _ first resp he hm hne
      simp [answerOf, hconf] at hfailed
    · rcases submitClaims_rejected hrun hrej with ⟨hend', hraised⟩ | ⟨⟨e, hr⟩, -⟩
      · rcases hs.known a' ha' raw bh err hacc hrej hknown with hlow | hyes
        · rw [hlow] at hend'
          cases hend.unique hend'
        · exact hraised hyes
      · rw [hr] at hend
        exact not_endsIn_error hend
  · intro c body key resp he a' ha' body' resp' he'
    exact (hserves.replayed he (hbefore.recorded ha' he')).2

theorem steady_of_deduplicated (h : Attempts network ct b claims token m₀ (earlier ++ [a]) m')
    (hd : Deduplicated earlier a) : Steady earlier a := by
  obtain ⟨-, hrun, hserves⟩ := h.cases_last
  refine ⟨?_, ?_⟩
  · intro c body key ans first resp he hm hne
    cases ans with
    | ok resp' => exact absurd (hserves.replayed he hm).1 hne
    | error e =>
      by_cases hconf : e.isConflict = true
      · have hend := (submitClaims_conflict hrun hserves he hconf).1
        exact absurd (Or.inl ⟨c, body, key, e, he, hconf⟩) (hd.notEscalated hend)
      · simp [answerOf, hconf]
  · intro a' ha' raw bh err hacc hrej hknown
    rcases submitClaims_rejected hrun hrej with ⟨hend, -⟩ | ⟨-, hraised⟩
    · rcases classifyBroadcastError_cases (sendErrorText err) with hc | hc
      · exact Or.inl hc
      · rw [hc] at hend
        exact absurd (Or.inr ⟨a', ha', raw, bh, err, hacc, hrej, hknown⟩) (hd.notEscalated hend)
    · exact Or.inr hraised

/-- A prefix of a run is a run. -/
theorem Attempts.take {later : List Attempt}
    (h : Attempts network ct b claims token m₀ (earlier ++ a :: later) m') :
    ∃ m, Attempts network ct b claims token m₀ (earlier ++ [a]) m := by
  induction later using List.reverseRecOn generalizing m' with
  | nil => exact ⟨m', h⟩
  | append_singleton later last ih =>
    rw [← List.cons_append, ← List.append_assoc] at h
    exact ih h.cases_last.1

/-- In every run of attempts at a claim: each attempt made while an earlier one is open is
deduplicated exactly if each such attempt is steady. -/
theorem deduplicated_iff {as : List Attempt} (h : Attempts network ct b claims token m₀ as m') :
    (∀ earlier a later, as = earlier ++ a :: later → Open earlier → Deduplicated earlier a) ↔
      ∀ earlier a later, as = earlier ++ a :: later → Open earlier → Steady earlier a := by
  constructor
  · rintro hd earlier a later rfl hopen
    obtain ⟨m, htake⟩ := h.take
    exact steady_of_deduplicated htake (hd earlier a later rfl hopen)
  · rintro hs earlier a later rfl hopen
    obtain ⟨m, htake⟩ := h.take
    exact deduplicated_of_steady htake (hs earlier a later rfl hopen)

end

/-! ## Fees that drifted -/

/-- The base fee is `baseFee`, `fwd` answers a signing request with `signed`, and the node accepts
what it is sent but does not mine it. -/
def pendingWorld (baseFee : Int) (signed : Except Exc SignTransactionResponse) :
    (op : Op) → op.Ans
  | .rpc .feeHistory => .result [baseFee]
  | .rpc (.sendRawTransaction _) => .result "0xaa"
  | .rpc (.getTransactionReceipt _) => .result none
  | .fwd _ (.signTransaction _ _) => signed
  | op => deafWorld op

/-- An attempt at the sample claim in that world. -/
def pendingRun (s : Settings) (claims : List RewardClaimWithProof) (baseFee : Int)
    (signed : Except Exc SignTransactionResponse) : Trace × Except Exc ClaimOutcome :=
  exec (pendingWorld baseFee signed) (@submitClaims External.standard s 2
    "0x00000000000000000000000000000000000000bb" claims true 120 none true)

theorem pendingRun_runs (s : Settings) (claims : List RewardClaimWithProof) (baseFee : Int)
    (signed : Except Exc SignTransactionResponse) :
    Runs (@submitClaims External.standard s 2 "0x00000000000000000000000000000000000000bb" claims
      true 120 none true) (pendingRun s claims baseFee signed).1
      (pendingRun s claims baseFee signed).2 := exec_runs _ _

def conflictAnswer : Exc := .fwdTerminal 409 "idempotency_conflict" "reused with different body"

/-- An attempt with this base fee, which `fwd` answers with `signed`. -/
def pendingAttempt (s : Settings) (claims : List RewardClaimWithProof) (baseFee : Int)
    (signed : Except Exc SignTransactionResponse) (before : FwdMemory) : Attempt :=
  ⟨⟨s, true, 120, none, true⟩, before, (pendingRun s claims baseFee signed).1,
    (pendingRun s claims baseFee signed).2⟩

theorem pendingAttempt_result (s : Settings) (claims : List RewardClaimWithProof) (baseFee : Int)
    (signed : Except Exc SignTransactionResponse) (before : FwdMemory) :
    (pendingAttempt s claims baseFee signed before).result =
      (pendingRun s claims baseFee signed).2 := rfl

theorem pendingAttempt_trace (s : Settings) (claims : List RewardClaimWithProof) (baseFee : Int)
    (signed : Except Exc SignTransactionResponse) (before : FwdMemory) :
    (pendingAttempt s claims baseFee signed before).trace =
      (pendingRun s claims baseFee signed).1 := rfl

theorem attempts_pending {s : Settings} {claims : List RewardClaimWithProof}
    {m₀ m m' : FwdMemory} {fee₁ fee₂ : Int} {x₁ x₂ : Except Exc SignTransactionResponse}
    (h₁ : FwdServes m₀ (pendingRun s claims fee₁ x₁).1 m)
    (h₂ : FwdServes m (pendingRun s claims fee₂ x₂).1 m') :
    @Attempts External.standard s.network 2 "0x00000000000000000000000000000000000000bb" claims
      (retryToken none s.idempotencyRetry) m₀
      [pendingAttempt s claims fee₁ x₁ m₀, pendingAttempt s claims fee₂ x₂ m] m' := by
  let _ := External.standard
  have hfirst : Attempts s.network 2 "0x00000000000000000000000000000000000000bb" claims
      (retryToken none s.idempotencyRetry) m₀ ([] ++ [pendingAttempt s claims fee₁ x₁ m₀]) m :=
    .snoc .nil rfl ⟨rfl, rfl⟩ (pendingRun_runs s claims fee₁ x₁) h₁
  exact .snoc hfirst rfl ⟨rfl, rfl⟩ (pendingRun_runs s claims fee₂ x₂) h₂

/-- What is compared of a request: its key, its fee and its answer. -/
def requestView (x : CallerKey × TxBody × Answer SignTransactionResponse) :
    CallerKey × Int × Answer SignTransactionResponse := (x.1, x.2.1.maxFeePerGas, x.2.2)

def sampleKey : CallerKey :=
  (some "claim", "clif:flare:2:0x00000000000000000000000000000000000000bb:400")

/-- What `fwd` answers to the two attempts keeps its contract. -/
theorem drifted_served : ∃ m m',
    FwdServes (fun _ => none) (pendingRun sampleSettings sampleClaims 25000000000
      (.ok ⟨"tx-1", "0xaa", "0x02f8"⟩)).1 m ∧
    FwdServes m (pendingRun sampleSettings sampleClaims 30000000000 (.error conflictAnswer)).1 m' := by
  have hfirst : ((pendingRun sampleSettings sampleClaims 25000000000
      (.ok ⟨"tx-1", "0xaa", "0x02f8"⟩)).1.filterMap signRequest).map requestView =
      [(sampleKey, 51000000000, .served ⟨"tx-1", "0xaa", "0x02f8"⟩)] := by decide +kernel
  have hsecond : ((pendingRun sampleSettings sampleClaims 30000000000
      (.error conflictAnswer)).1.filterMap signRequest).map requestView =
      [(sampleKey, 61000000000, .conflict)] := by decide +kernel
  generalize (pendingRun sampleSettings sampleClaims 25000000000
    (.ok ⟨"tx-1", "0xaa", "0x02f8"⟩)).1 = t₁ at hfirst ⊢
  generalize (pendingRun sampleSettings sampleClaims 30000000000
    (.error conflictAnswer)).1 = t₂ at hsecond ⊢
  obtain ⟨⟨key₁, body₁, answer₁⟩, hreq₁, hview₁⟩ := List.map_eq_singleton_iff.mp hfirst
  obtain ⟨⟨key₂, body₂, answer₂⟩, hreq₂, hview₂⟩ := List.map_eq_singleton_iff.mp hsecond
  simp only [requestView, Prod.mk.injEq] at hview₁ hview₂
  obtain ⟨rfl, hfee₁, rfl⟩ := hview₁
  obtain ⟨rfl, hfee₂, rfl⟩ := hview₂
  have hne : body₁ ≠ body₂ := by
    rintro rfl
    omega
  exact ⟨_, _, fwdServes_one hreq₁ (.serve rfl),
    fwdServes_one hreq₂ (.conflict (Function.update_self ..) hne)⟩

/-- The sample's first attempt. -/
def firstAttempt : Attempt :=
  pendingAttempt sampleSettings sampleClaims 25000000000 (.ok ⟨"tx-1", "0xaa", "0x02f8"⟩)
    fun _ => none

/-- Its second, with another base fee. -/
def secondAttempt (before : FwdMemory) : Attempt :=
  pendingAttempt sampleSettings sampleClaims 30000000000 (.error conflictAnswer) before

theorem driftedAttempts : ∃ m m', @Attempts External.standard sampleSettings.network 2
    "0x00000000000000000000000000000000000000bb" sampleClaims
    (retryToken none sampleSettings.idempotencyRetry) (fun _ => none)
    [firstAttempt, secondAttempt m] m' := by
  obtain ⟨m, m', h₁, h₂⟩ := drifted_served
  exact ⟨m, m', attempts_pending h₁ h₂⟩

/-- The second attempt finds the first one's body under its key, and ends for good while the
first one's transaction is pending. -/
theorem driftedAttempts_escalate : ∃ m m',
    @Attempts External.standard sampleSettings.network 2
      "0x00000000000000000000000000000000000000bb" sampleClaims
      (retryToken none sampleSettings.idempotencyRetry) (fun _ => none)
      [firstAttempt, secondAttempt m] m' ∧
    EndsIn .submittedPending firstAttempt.result ∧
    EndsIn .failedTerminal (secondAttempt m).result ∧
    ¬ Deduplicated [firstAttempt] (secondAttempt m) := by
  obtain ⟨m, m', h⟩ := driftedAttempts
  have hends : ∀ {st : OutcomeStatus} {r : Except Exc ClaimOutcome},
      r.toOption.map (fun o => o.status) = some st → EndsIn st r := by
    intro st r hr
    cases r with
    | ok o => exact endsIn_ok.mpr (Option.some.inj hr)
    | error e => cases hr
  have hpending : (pendingRun sampleSettings sampleClaims 25000000000
      (.ok ⟨"tx-1", "0xaa", "0x02f8"⟩)).2.toOption.map (fun o => o.status) =
      some .submittedPending := by decide +kernel
  have hterminal : (pendingRun sampleSettings sampleClaims 30000000000
      (.error conflictAnswer)).2.toOption.map (fun o => o.status) = some .failedTerminal := by
    decide +kernel
  have hasked : ((pendingRun sampleSettings sampleClaims 30000000000
      (.error conflictAnswer)).1.filterMap signRequest).map (fun x => x.2.2) = [.conflict] := by
    decide +kernel
  have hfirst : EndsIn .submittedPending firstAttempt.result := by
    rw [firstAttempt, pendingAttempt_result]
    exact hends hpending
  have hend : EndsIn .failedTerminal (secondAttempt m).result := by
    rw [secondAttempt, pendingAttempt_result]
    exact hends hterminal
  refine ⟨m, m', h, hfirst, hend, fun hd => hd.notEscalated hend (Or.inl ?_)⟩
  rw [secondAttempt, pendingAttempt_trace]
  obtain ⟨x, hx, hans⟩ := List.mem_map.mp (hasked ▸ List.mem_singleton_self Answer.conflict)
  obtain ⟨e, he, hreq⟩ := List.mem_filterMap.mp hx
  exact conflict_of_request he hreq hans

theorem deduplicated_iff_drifted : ∃ m,
    (∀ earlier a later, [firstAttempt, secondAttempt m] = earlier ++ a :: later → Open earlier →
      Deduplicated earlier a) ↔
      ∀ earlier a later, [firstAttempt, secondAttempt m] = earlier ++ a :: later → Open earlier →
        Steady earlier a := by
  obtain ⟨m, m', h⟩ := driftedAttempts
  exact ⟨m, @deduplicated_iff External.standard _ _ _ _ _ _ _ _ h⟩

end Clif
