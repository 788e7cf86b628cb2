import Clif.ClaimRepeat
import Clif.ReportBack
import Clif.VoteRun

/-!
# VoteInFlight — one reward vote at a time

The drives of one epoch share a count of retries, and a new count is a new discriminator for `fwd`,
hence a new transaction.  `oneInFlight` says in which runs no vote is asked for under a new
discriminator while one signed under another may still be in flight.
-/

namespace Clif

open Effect

/-! ## In flight -/

/-- A receipt of the transaction was found: it was mined, or reverted. -/
def Mined (raw : String) (h : Trace) : Prop :=
  ∃ bh receipt, (⟨.rpc (.sendRawTransaction raw), .result bh⟩ : Event sig) ∈ h ∧
    (⟨.rpc (.getTransactionReceipt bh), .result (some receipt)⟩ : Event sig) ∈ h

/-- Its last broadcast was rejected by the node. -/
def Rejected (raw : String) (h : Trace) : Prop :=
  ∃ h₁ reply h₂, h = h₁ ++ ⟨.rpc (.sendRawTransaction raw), reply⟩ :: h₂ ∧
    (∀ reply', (⟨.rpc (.sendRawTransaction raw), reply'⟩ : Event sig) ∉ h₂) ∧ SaysRejected reply

/-- Broadcast, and not known to be rejected, mined or reverted. -/
structure InFlight (raw : String) (h : Trace) : Prop where
  sent : ∃ reply, (⟨.rpc (.sendRawTransaction raw), reply⟩ : Event sig) ∈ h
  unmined : ¬ Mined raw h
  unrejected : ¬ Rejected raw h

/-- Exchanges that do not send it do not put it in flight. -/
theorem InFlight.of_append {raw : String} {h u : Trace} (hf : InFlight raw (h ++ u))
    (hu : ∀ reply, (⟨.rpc (.sendRawTransaction raw), reply⟩ : Event sig) ∉ u) : InFlight raw h := by
  refine ⟨?_, fun hm => hf.unmined ?_, fun hr => hf.unrejected ?_⟩
  · obtain ⟨reply, hmem⟩ := hf.sent
    rcases List.mem_append.mp hmem with hmem | hmem
    · exact ⟨reply, hmem⟩
    · exact absurd hmem (hu reply)
  · obtain ⟨bh, receipt, hsent, hread⟩ := hm
    exact ⟨bh, receipt, List.mem_append_left _ hsent, List.mem_append_left _ hread⟩
  · obtain ⟨h₁, reply, h₂, rfl, hlast, hrej⟩ := hr
    refine ⟨h₁, reply, h₂ ++ u, by simp, fun reply' hmem => ?_, hrej⟩
    rcases List.mem_append.mp hmem with hmem | hmem
    · exact hlast reply' hmem
    · exact hu reply' hmem

/-- A vote whose last broadcast was rejected is not in flight. -/
theorem EndsRejected.landed {h u : Trace} (hu : EndsRejected u) :
    ∃ resp, (∃ e ∈ u, signedOf e = some resp) ∧ ¬ InFlight resp.signedRawTx (h ++ u) := by
  obtain ⟨t₁, resp, reply, t₂, rfl, hsend, hrej, hsigned⟩ := hu
  refine ⟨resp, hsigned, fun hf => hf.unrejected ⟨h ++ t₁, reply, t₂, by simp, ?_, hrej⟩⟩
  exact fun reply' hmem => hsend _ hmem rfl

/-! ## The drives of one epoch -/

/-- One drive of the epoch, with the daemon's maps before it and what `fwd` had on record. -/
structure VoteDrive where
  args : DriveArgs
  mem : Mem
  before : FwdMemory
  trace : Trace
  result : Except Exc EpochObs

def VoteDrive.token (epoch : Int) (d : VoteDrive) : Option String := driveToken d.args d.mem epoch

/-- The exchanges of its reward vote. -/
def VoteDrive.vote (epoch : Int) (d : VoteDrive) : Trace := voteOf epoch d.trace

/-- The votes of all drives, one after the other. -/
def votes (epoch : Int) (ds : List VoteDrive) : Trace := ds.flatMap fun d => d.vote epoch

/-- `fwd` signed this transaction in the drive's vote. -/
def VoteDrive.Signed (epoch : Int) (d : VoteDrive) (resp : SignTransactionResponse) : Prop :=
  ∃ e ∈ d.vote epoch, signedOf e = some resp

/-- Leg 2 was requested in the drive. -/
def VoteDrive.Requests (epoch : Int) (d : VoteDrive) : Prop :=
  ∃ e ∈ d.vote epoch, signRequest e ≠ none

/-- A new key is a new transaction. -/
def FwdMemory.Distinct (m : FwdMemory) : Prop :=
  ∀ k k' body resp body' resp', m k = some (body, resp) → m k' = some (body', resp') →
    resp.signedRawTx = resp'.signedRawTx → k = k'

/-- Distinct discriminators have distinct keys; an empty one is none. -/
def KeysDistinct [External] : Prop :=
  ∀ part retry retry', External.makeIdempotencyKey part retry =
    External.makeIdempotencyKey part retry' →
    retry = retry' ∨ (Py.truthy retry = false ∧ Py.truthy retry' = false)

section

variable [External]

/-- Drives of one epoch that share their count of retries, with `fwd` keeping its contract.  What
happens between them may add to the record of `fwd` and leaves the count alone. -/
inductive VoteRun (s : Settings) (epoch : Int) : Int → List VoteDrive → Int → FwdMemory → Prop
  | nil {n : Int} {m : FwdMemory} : VoteRun s epoch n [] n m
  | snoc {n₀ n : Int} {m m' : FwdMemory} {mem' : Mem} {earlier : List VoteDrive} {d : VoteDrive}
      (h : VoteRun s epoch n₀ earlier n m) (hs : d.args.settings = s) (hw : d.args.Watches)
      (hn : d.mem.retries epoch = n) (hm : m.Le d.before)
      (hrun : RunsOn (driveEpoch d.args epoch) d.mem d.trace d.result mem')
      (hserves : FwdServes d.before d.trace m') (hdist : m'.Distinct) :
      VoteRun s epoch n₀ (earlier ++ [d]) (mem'.retries epoch) m'

end

/-! ## The property -/

structure OneInFlight (epoch : Int) (ds : List VoteDrive) : Prop where
  /-- Leg 2 is requested under a discriminator only while no vote signed under another one is in
  flight. -/
  exclusive : ∀ earlier d later, ds = earlier ++ d :: later → d.Requests epoch →
    ∀ d' ∈ earlier, d'.token epoch ≠ d.token epoch → ∀ resp, d'.Signed epoch resp →
      ¬ InFlight resp.signedRawTx (votes epoch earlier)
  /-- Two votes in flight are one. -/
  single : ∀ earlier later, ds = earlier ++ later → ∀ d ∈ earlier, ∀ d' ∈ earlier, ∀ resp resp',
    d.Signed epoch resp → d'.Signed epoch resp' →
    InFlight resp.signedRawTx (votes epoch earlier) →
    InFlight resp'.signedRawTx (votes epoch earlier) → resp = resp'

/-- A vote under this discriminator may be in flight. -/
def Pending (epoch : Int) (earlier : List VoteDrive) (token : Option String) : Prop :=
  ∃ d ∈ earlier, d.token epoch = token ∧ ∃ resp, d.Signed epoch resp ∧
    InFlight resp.signedRawTx (votes epoch earlier)

/-- A drive that starts with a vote of its discriminator in flight does not stall. -/
def Unstalled (epoch : Int) (ds : List VoteDrive) : Prop :=
  ∀ earlier d later, ds = earlier ++ d :: later → Pending epoch earlier (d.token epoch) →
    ¬ Stalled (d.vote epoch)

/-! ## Keys and discriminators -/

/-- A discriminator is the configured one, or a text that is not empty. -/
theorem signRetryToken_cases (base : Option String) (n : Int) :
    signRetryToken base n = base ∨
      ∃ text, signRetryToken base n = some text ∧ Py.truthy (some text) = true := by
  unfold signRetryToken
  by_cases hn : n ≤ 0
  · rw [if_pos hn]
    exact Or.inl rfl
  · rw [if_neg hn]
    refine Or.inr ?_
    split
    · refine ⟨_, rfl, ?_⟩
      have hne : toString "-r" ≠ "" := by decide
      simp [Py.truthy, hne]
    · refine ⟨_, rfl, ?_⟩
      have hne : toString "r" ≠ "" := by decide
      simp [Py.truthy, hne]

theorem truthy_signRetryToken {base : Option String} {n : Int}
    (h : Py.truthy (signRetryToken base n) = false) : signRetryToken base n = base := by
  rcases signRetryToken_cases base n with heq | ⟨text, heq, htext⟩
  · exact heq
  · rw [heq, htext] at h
    cases h

theorem retryToken_signRetryToken (base : Option String) (n : Int) :
    retryToken (signRetryToken base n) base = signRetryToken base n := by
  rcases signRetryToken_cases base n with heq | ⟨text, heq, -⟩
  · rw [heq]
    cases base <;> rfl
  · rw [heq]
    rfl

theorem votes_append (epoch : Int) (ds : List VoteDrive) (d : VoteDrive) :
    votes epoch (ds ++ [d]) = votes epoch ds ++ d.vote epoch := by
  simp [votes]

section

variable [External] {s : Settings} {epoch n₀ n : Int} {m : FwdMemory} {ds earlier : List VoteDrive}
  {d : VoteDrive}

/-- Distinct discriminators of one epoch have distinct keys. -/
theorem voteKey_inj (hk : KeysDistinct) {n n' : Int}
    (h : voteKey s epoch (signRetryToken s.fspIdempotencyRetry n) =
      voteKey s epoch (signRetryToken s.fspIdempotencyRetry n')) :
    signRetryToken s.fspIdempotencyRetry n = signRetryToken s.fspIdempotencyRetry n' := by
  rcases hk _ _ _ (Prod.mk.inj h).2 with heq | ⟨hn, hn'⟩
  · exact heq
  · rw [truthy_signRetryToken hn, truthy_signRetryToken hn']

/-- A run of drives, taken apart at its last drive. -/
theorem VoteRun.last {m' : FwdMemory} {n' : Int} (h : VoteRun s epoch n₀ (earlier ++ [d]) n' m') :
    ∃ n m mem', VoteRun s epoch n₀ earlier n m ∧ d.args.settings = s ∧ d.args.Watches ∧
      d.mem.retries epoch = n ∧ m.Le d.before ∧
      RunsOn (driveEpoch d.args epoch) d.mem d.trace d.result mem' ∧
      FwdServes d.before d.trace m' ∧ m'.Distinct ∧ mem'.retries epoch = n' := by
  generalize hl : earlier ++ [d] = l at h
  cases h with
  | nil => simp at hl
  | snoc h hs hw hn hm hrun hserves hdist =>
    obtain ⟨rfl, hlast⟩ := List.append_inj' hl rfl
    obtain rfl := List.singleton_inj.mp hlast
    exact ⟨_, _, _, h, hs, hw, hn, hm, hrun, hserves, hdist, rfl⟩

/-- A prefix of a run is a run, up to the count its next drive starts with. -/
theorem VoteRun.take {later : List VoteDrive} (h : VoteRun s epoch n₀ (earlier ++ later) n m) :
    ∃ n₁ m₁, VoteRun s epoch n₀ earlier n₁ m₁ ∧
      ∀ d later', later = d :: later' → d.args.settings = s ∧ d.mem.retries epoch = n₁ := by
  induction later using List.reverseRecOn generalizing n m with
  | nil =>
    rw [List.append_nil] at h
    exact ⟨n, m, h, fun d later' hd => by cases hd⟩
  | append_singleton later d ih =>
    rw [← List.append_assoc] at h
    obtain ⟨n₁, m₁, mem', h₁, hs, -, hn, -⟩ := h.last
    obtain ⟨n₂, m₂, h₂, hnext⟩ := ih h₁
    cases later with
    | nil =>
      rw [List.append_nil] at h₁
      refine ⟨n₁, m₁, h₁, fun d' later' hd => ?_⟩
      cases hd
      exact ⟨hs, hn⟩
    | cons d₂ later =>
      refine ⟨n₂, m₂, h₂, fun d' later' hd => ?_⟩
      cases hd
      exact hnext d₂ later rfl

theorem VoteRun.settings (h : VoteRun s epoch n₀ ds n m) : ∀ d ∈ ds, d.args.settings = s := by
  induction h with
  | nil => simp
  | snoc h hs hw hn hm hrun hserves hdist ih =>
    intro d' hd'
    rcases List.mem_append.mp hd' with hd' | hd'
    · exact ih d' hd'
    · rw [List.mem_singleton.mp hd']
      exact hs

omit [External] in
theorem VoteDrive.token_eq (hs : d.args.settings = s) :
    d.token epoch = signRetryToken s.fspIdempotencyRetry (d.mem.retries epoch) := by
  rw [VoteDrive.token, driveToken, hs]

/-- What was signed in a drive is on record under the key of its discriminator. -/
theorem VoteRun.recorded (h : VoteRun s epoch n₀ ds n m) {d : VoteDrive} (hd : d ∈ ds)
    {resp : SignTransactionResponse} (hr : d.Signed epoch resp) :
    ∃ body, m (voteKey s epoch (d.token epoch)) = some (body, resp) := by
  induction h with
  | nil => cases hd
  | @snoc n m m' mem' earlier d' h hs hw hn hm hrun hserves hdist ih =>
    rcases List.mem_append.mp hd with hd | hd
    · obtain ⟨body, hb⟩ := ih hd
      exact ⟨body, hserves.le _ _ (hm _ _ hb)⟩
    · obtain rfl := List.mem_singleton.mp hd
      obtain ⟨hfacts, x, z, ht⟩ := driveEpoch_vote hw hrun
      obtain ⟨e, he, hresp⟩ := hr
      obtain ⟨op, ans⟩ := e
      unfold signedOf at hresp
      split at hresp
      · rename_i c body key resp' heq
        cases heq
        cases hresp
        have hkey := hfacts.keyed _ he c body key _ rfl
        refine ⟨body, ?_⟩
        have hmem : (⟨.fwd c (.signTransaction body key), .ok resp⟩ : Event sig) ∈ d.trace := by
          rw [ht]
          exact List.mem_append_right _ (List.mem_append_left _ he)
        have hrec := hserves.recorded hmem
        rw [hkey] at hrec
        rw [VoteDrive.token_eq hs, ← retryToken_signRetryToken]
        rw [driveToken, hs] at hrec
        exact hrec
      · cases hresp

/-- No vote of another discriminator than the current one is in flight. -/
theorem VoteRun.landed (hk : KeysDistinct) (h : VoteRun s epoch n₀ ds n m)
    (hst : Unstalled epoch ds) : ∀ d ∈ ds,
      d.token epoch ≠ signRetryToken s.fspIdempotencyRetry n → ∀ resp, d.Signed epoch resp →
      ¬ InFlight resp.signedRawTx (votes epoch ds) := by
  have hrun := h
  induction h with
  | nil => simp
  | @snoc n m m' mem' earlier d h hs hw hn hm hdrive hserves hdist ih =>
    intro d' hd' hne resp hr hf
    have hprev : Unstalled epoch earlier := by
      rintro e₁ d₁ later rfl
      exact hst e₁ d₁ (later ++ [d]) (by simp)
    obtain ⟨hfacts, -⟩ := driveEpoch_vote hw hdrive
    have htok : d.token epoch = signRetryToken s.fspIdempotencyRetry n := by
      rw [VoteDrive.token_eq hs, hn]
    obtain ⟨body, hrec⟩ := hrun.recorded hd' hr
    rw [votes_append] at hf
    by_cases htd : d'.token epoch = d.token epoch
    · -- the count was raised, so the vote of `d` stalled or was rejected
      have hcount : mem'.retries epoch ≠ d.mem.retries epoch := by
        rw [hn]
        intro heq
        exact hne (by rw [htd, htok, heq])
      rcases hfacts.counts hcount with ⟨hstall, hun⟩ | hrej
      · have hunsent : ∀ reply,
            (⟨.rpc (.sendRawTransaction resp.signedRawTx), reply⟩ : Event sig) ∉ d.vote epoch := by
          intro reply hmem
          obtain ⟨e, he, resp', hresp', -⟩ := hfacts.sends _ _ hmem
          rw [hun e he] at hresp'
          cases hresp'
        have hold : d' ∈ earlier := by
          rcases List.mem_append.mp hd' with hd' | hd'
          · exact hd'
          · rw [List.mem_singleton.mp hd'] at hr
            obtain ⟨e, he, hresp⟩ := hr
            rw [hun e he] at hresp
            cases hresp
        exact hst earlier d [] rfl ⟨d', hold, htd, resp, hr, hf.of_append hunsent⟩ hstall
      · obtain ⟨resp', hsigned, hlanded⟩ := hrej.landed (h := votes epoch earlier)
        obtain ⟨body', hrec'⟩ := hrun.recorded (List.mem_append_right _ (List.mem_singleton_self d))
          hsigned
        rw [htd, hrec'] at hrec
        cases hrec
        exact hlanded hf
    · have hold : d' ∈ earlier := by
        rcases List.mem_append.mp hd' with hd' | hd'
        · exact hd'
        · rw [List.mem_singleton.mp hd'] at htd
          exact absurd rfl htd
      refine ih hprev h d' hold (by rw [← htok]; exact htd) resp hr (hf.of_append ?_)
      intro reply hmem
      obtain ⟨e, he, resp', hresp', hraw⟩ := hfacts.sends _ _ hmem
      obtain ⟨body', hrec'⟩ := hrun.recorded (List.mem_append_right _ (List.mem_singleton_self d))
        ⟨e, he, hresp'⟩
      have hkey := hdist _ _ _ _ _ _ hrec' hrec hraw
      rw [VoteDrive.token_eq hs, VoteDrive.token_eq (hrun.settings d' hd')] at hkey
      have heq := voteKey_inj hk hkey
      rw [← VoteDrive.token_eq hs, ← VoteDrive.token_eq (hrun.settings d' hd')] at heq
      exact htd heq.symm

end

/-! ## Fees that drifted while a vote is pending -/

/-- The epoch is not finalized and not signed by us, the file is published, the base fee is
`baseFee`, `fwd` answers leg 2 with `signed`, and the node accepts what it is sent but does not mine
it. -/
def votingWorld (baseFee : Int) (signed : Except Exc SignTransactionResponse) :
    (op : Op) → op.Ans
  | .rpc (.rewardsHash _ _) => .result zeroBytes32
  | .rpc (.voterRewardsSignInfo _ _ _) => .result (0, 0)
  | .rpc .feeHistory => .result [baseFee]
  | .rpc (.sendRawTransaction _) => .result "0xaa"
  | .rpc (.getTransactionReceipt _) => .result none
  | .readRewardDistributionData _ _ => some rootOnlyFile.fields
  | .fwd _ (.signFspMessage _) => .ok legOneSig
  | .fwd _ (.signTransaction _ _) => signed
  | op => deafWorld op

/-- A drive of epoch 5 in that world. -/
def votingExec (a : DriveArgs) (m : Mem) (baseFee : Int)
    (signed : Except Exc SignTransactionResponse) : Trace × Except Exc EpochObs × Mem :=
  execOn (S := sig) (votingWorld baseFee signed) (@driveEpoch External.standard a 5) m

def votingDrive (a : DriveArgs) (m : Mem) (baseFee : Int)
    (signed : Except Exc SignTransactionResponse) (before : FwdMemory) : VoteDrive :=
  ⟨a, m, before, (votingExec a m baseFee signed).1, (votingExec a m baseFee signed).2.1⟩

theorem votingRun_snoc {a : DriveArgs} (hw : a.Watches) {n₀ n n' : Int} {f f' : FwdMemory}
    {earlier : List VoteDrive} {m : Mem} {baseFee : Int}
    {signed : Except Exc SignTransactionResponse}
    (h : @VoteRun External.standard a.settings 5 n₀ earlier n f) (hn : m.retries 5 = n)
    (hserves : FwdServes f (votingExec a m baseFee signed).1 f') (hdist : f'.Distinct)
    (hn' : (votingExec a m baseFee signed).2.2.retries 5 = n') :
    @VoteRun External.standard a.settings 5 n₀ (earlier ++ [votingDrive a m baseFee signed f]) n'
      f' := by
  let _ := External.standard
  rw [← hn']
  exact .snoc h rfl hw hn (.refl f) (execOn_runs (S := sig) _ _ _) hserves hdist

def votingArgs : DriveArgs := { bareArgs with settings := sampleSettings }

theorem votingArgs_watches : votingArgs.Watches where
  keyless := fun f hf => by cases hf
  counts := fun f hf => by cases hf

theorem FwdMemory.Distinct.update {m : FwdMemory} (h : m.Distinct) {key : CallerKey}
    {body : TxBody} {resp : SignTransactionResponse}
    (hnew : ∀ k b r, m k = some (b, r) → r.signedRawTx ≠ resp.signedRawTx) :
    FwdMemory.Distinct (Function.update m key (some (body, resp))) := by
  intro k k' b r b' r' hk hk' hraw
  by_cases h₁ : k = key
  · subst h₁
    rw [Function.update_self] at hk
    cases hk
    by_contra hne
    rw [Function.update_of_ne (Ne.symm hne)] at hk'
    exact hnew _ _ _ hk' hraw.symm
  · rw [Function.update_of_ne h₁] at hk
    by_cases h₂ : k' = key
    · subst h₂
      rw [Function.update_self] at hk'
      cases hk'
      exact absurd hraw (hnew _ _ _ hk)
    · rw [Function.update_of_ne h₂] at hk'
      exact h _ _ _ _ _ _ hk hk' hraw

/-- The raw transaction that the node took. -/
def takenOf : Event sig → List String
  | ⟨.rpc (.sendRawTransaction raw), .result _⟩ => [raw]
  | _ => []

/-- Replies by which a transaction that was broadcast is not in flight any more. -/
def settles : Event sig → Bool
  | ⟨.rpc (.sendRawTransaction _), .result _⟩ => false
  | ⟨.rpc (.sendRawTransaction _), _⟩ => true
  | ⟨.rpc (.getTransactionReceipt _), .result none⟩ => false
  | ⟨.rpc (.getTransactionReceipt _), _⟩ => true
  | _ => false

/-- The node took it, and no reply to anything settled. -/
theorem InFlight.of_taken {raw : String} {h : Trace} (hsent : raw ∈ h.flatMap takenOf)
    (hquiet : h.filter settles = []) : InFlight raw h := by
  have hno : ∀ e ∈ h, settles e = false := by simpa [List.filter_eq_nil_iff] using hquiet
  refine ⟨?_, ?_, ?_⟩
  · obtain ⟨e, he, hraw⟩ := List.mem_flatMap.mp hsent
    unfold takenOf at hraw
    split at hraw
    · rw [List.mem_singleton.mp hraw]
      exact ⟨_, he⟩
    · cases hraw
  · rintro ⟨bh, receipt, -, hread⟩
    cases hno _ hread
  · rintro ⟨h₁, reply, h₂, rfl, -, hrej⟩
    have hset := hno _ (List.mem_append_right _ List.mem_cons_self)
    cases reply with
    | result bh =>
      rcases hrej with ⟨err, herr, -⟩ | ⟨msg, hmsg, -⟩
      · cases herr
      · cases hmsg
    | error err => cases hset
    | _ => cases hset

def firstTx : SignTransactionResponse := ⟨"tx-1", "0xaa", "0x02f8"⟩

def secondTx : SignTransactionResponse := ⟨"tx-2", "0xab", "0x02f9"⟩

/-- The keys of the sample's votes. -/
def sampleVoteKey (retry : String) : CallerKey :=
  (some "submit", "clif-fsp:flare:REWARD_DISTRIBUTION:5:submit" ++ retry)

/-- A vote that stays pending. -/
theorem pendingVote :
    let r := votingExec votingArgs {} 25000000000 (.ok firstTx)
    (r.1.filterMap signRequest).map requestView =
        [(sampleVoteKey "", 51000000000, .served firstTx)] ∧
      r.2.2.retries 5 = 0 ∧
      ((voteOf 5 r.1).filterMap signRequest).map requestView =
        [(sampleVoteKey "", 51000000000, .served firstTx)] ∧
      (voteOf 5 r.1).filterMap signedOf = [firstTx] ∧
      (voteOf 5 r.1).filterMap refusalOf = [] ∧
      (voteOf 5 r.1).flatMap takenOf = ["0x02f8"] ∧ (voteOf 5 r.1).filter settles = [] := by
  decide +kernel

/-- The next one conflicts with it. -/
theorem conflictedVote :
    let r := votingExec votingArgs {} 30000000000 (.error conflictAnswer)
    (r.1.filterMap signRequest).map requestView =
        [(sampleVoteKey "", 61000000000, .conflict)] ∧
      r.2.2.retries 5 = 1 ∧
      (voteOf 5 r.1).flatMap takenOf = [] ∧ (voteOf 5 r.1).filter settles = [] := by
  decide +kernel

/-- The one after that has a new key. -/
theorem rekeyedVote :
    let r := votingExec votingArgs (({} : Mem).bump 5) 30000000000 (.ok secondTx)
    (r.1.filterMap signRequest).map requestView =
        [(sampleVoteKey "#r1", 61000000000, .served secondTx)] ∧
      r.2.2.retries 5 = 1 ∧
      ((voteOf 5 r.1).filterMap signRequest).map requestView =
        [(sampleVoteKey "#r1", 61000000000, .served secondTx)] := by
  decide +kernel

/-- Three drives: a vote that stays pending, a conflict, and a vote under a new key. -/
theorem driftedVotes : ∃ f₁ f₂, @VoteRun External.standard votingArgs.settings 5 0
    [votingDrive votingArgs {} 25000000000 (.ok firstTx) (fun _ => none),
      votingDrive votingArgs {} 30000000000 (.error conflictAnswer) f₁,
      votingDrive votingArgs (({} : Mem).bump 5) 30000000000 (.ok secondTx) f₁] 1 f₂ := by
  obtain ⟨hreq₁, hn₁, -⟩ := pendingVote
  obtain ⟨hreq₂, hn₂, -⟩ := conflictedVote
  obtain ⟨hreq₃, hn₃, -⟩ := rekeyedVote
  obtain ⟨⟨key₁, body₁, answer₁⟩, hone₁, hview₁⟩ := List.map_eq_singleton_iff.mp hreq₁
  obtain ⟨⟨key₂, body₂, answer₂⟩, hone₂, hview₂⟩ := List.map_eq_singleton_iff.mp hreq₂
  obtain ⟨⟨key₃, body₃, answer₃⟩, hone₃, hview₃⟩ := List.map_eq_singleton_iff.mp hreq₃
  simp only [requestView, Prod.mk.injEq] at hview₁ hview₂ hview₃
  obtain ⟨rfl, hfee₁, rfl⟩ := hview₁
  obtain ⟨rfl, hfee₂, rfl⟩ := hview₂
  obtain ⟨rfl, hfee₃, rfl⟩ := hview₃
  have hbody : body₁ ≠ body₂ := by
    rintro rfl
    omega
  have hkey : sampleVoteKey "#r1" ≠ sampleVoteKey "" := by decide
  have hdist₁ : FwdMemory.Distinct
      (Function.update (fun _ => none) (sampleVoteKey "") (some (body₁, firstTx))) :=
    FwdMemory.Distinct.update (fun k k' b r b' r' hk => by cases hk) fun k b r hk => by cases hk
  have hdist₂ : FwdMemory.Distinct (Function.update
      (Function.update (fun _ => none) (sampleVoteKey "") (some (body₁, firstTx)))
      (sampleVoteKey "#r1") (some (body₃, secondTx))) := by
    refine hdist₁.update fun k b r hk => ?_
    by_cases hk' : k = sampleVoteKey ""
    · subst hk'
      rw [Function.update_self] at hk
      cases hk
      decide
    · rw [Function.update_of_ne hk'] at hk
      cases hk
  have hrun₁ := votingRun_snoc votingArgs_watches (m := {})
    (@VoteRun.nil External.standard _ _ _ _) rfl
    (fwdServes_one hone₁ (.serve rfl)) hdist₁ hn₁
  have hrun₂ := votingRun_snoc votingArgs_watches hrun₁ (m := {}) rfl
    (fwdServes_one hone₂ (.conflict (Function.update_self ..) hbody)) hdist₁ hn₂
  have hrun₃ := votingRun_snoc votingArgs_watches hrun₂ (m := ({} : Mem).bump 5) rfl
    (fwdServes_one hone₃ (.serve (Function.update_of_ne hkey ..))) hdist₂ hn₃
  exact ⟨_, _, hrun₃⟩

theorem plainKey_distinct : @KeysDistinct External.standard := by
  have hlen : ∀ part retry : String, part ≠ part ++ "#" ++ retry := by
    intro part retry heq
    have hl := congrArg String.length heq
    rw [String.append_assoc, String.length_append, String.length_append] at hl
    have hone : ("#" : String).length = 1 := by decide
    omega
  intro part retry retry' heq
  cases retry with
  | none =>
    cases retry' with
    | none => exact .inl rfl
    | some r' => exact absurd heq (hlen part r')
  | some r =>
    cases retry' with
    | none => exact absurd heq.symm (hlen part r)
    | some r' => exact .inl (congrArg some (String.append_right_inj (part ++ "#") |>.mp heq))

end Clif
