import Clif.Asks

/-!
# SignedRoot — which reward roots reach the signer

`run_sign_rewards` checks the file's own epoch id and, for a file with claims, the root recomputed
from them.  The two theorems say for which files these checks bind what is signed: the root to the
claims (`verifiedOnly_iff`), and the claims to the epoch (`epochBound_iff`).
-/

namespace Clif

open Effect

/-! ## What a run asks `fwd` for -/

/-- A leg-1 signature was requested. -/
def Signs (t : Trace) : Prop := ∃ e ∈ t, ∃ c req, e.op = .fwd c (.signFspMessage req)

def CallsFwd (t : Trace) : Prop := ∃ e ∈ t, ∃ c o, e.op = .fwd c o

/-- The reward file of the epoch, wherever it was read, is the accepted file `rdd`. -/
def ReadsFile (s : Settings) (epoch : Int) (rdd : RewardDistributionData) (t : Trace) : Prop :=
  ∀ f, (⟨.readRewardDistributionData s.network epoch, f⟩ : Event sig) ∈ t →
    f.bind RewardDistributionFields.validate = some rdd

section

variable [External]

/-- The file's root is the one recomputed from its claims, in any spelling. -/
def RootVerified (rdd : RewardDistributionData) : Prop :=
  ∃ root, buildRewardMerkleRoot (rdd.rewardClaims.map fun c => c.body) = .ok root ∧
    Py.lower root = Py.lower rdd.merkleRoot

/-- A transaction put to `fwd` carries the calldata of this epoch, chain, weight and root. -/
def LegTwoBound (s : Settings) (epoch : Int) (rdd : RewardDistributionData) (e : Event sig) : Prop :=
  ∀ c body key, e.op = .fwd c (.signTransaction body key) →
    ∃ v r s', buildSignRewardsCalldata epoch s.net.chainId rdd.noOfWeightBasedClaims rdd.merkleRoot
      v r s' = .ok body.data

/-- Only a verified root is signed. -/
structure VerifiedOnly (s : Settings) (epoch : Int) (rdd : RewardDistributionData) (t : Trace)
    (r : Except Exc FspOutcome) : Prop where
  signed : Signs t → rdd.rewardEpochId = epoch ∧ RootVerified rdd
  legTwo : ∀ e ∈ t, LegTwoBound s epoch rdd e
  /-- In every other case the call returns without a call of `fwd`. -/
  refused : ¬ (rdd.rewardEpochId = epoch ∧ RootVerified rdd) → ¬ CallsFwd t ∧ ∃ o, r = .ok o

/-! ## The guards -/

/-- The call returned a refusal for good. -/
def RefusedForGood (r : Except Exc FspOutcome) : Prop := ∃ o, r = .ok o ∧ o.status = .failedTerminal

omit [External] in
theorem RefusedForGood.returned {r : Except Exc FspOutcome} (h : RefusedForGood r) :
    ∃ o, r = .ok o := by
  obtain ⟨o, ho, -⟩ := h
  exact ⟨o, ho⟩

/-- What a run does up to the end of the checks of the file. -/
theorem runSignRewards_cases {s : Settings} {epoch : Int} {wait : Bool} {wt : Nat}
    {retry : Option String} {hasRpc : Bool} {t : Trace} {r : Except Exc FspOutcome}
    (h : Runs (runSignRewards s epoch wait wt retry hasRpc) t r) :
    (t = [⟨.called (.runSignRewards epoch), ()⟩] ∧ RefusedForGood r) ∨
      ∃ f t', t = ⟨.called (.runSignRewards epoch), ()⟩ ::
          ⟨.readRewardDistributionData s.network epoch, f⟩ :: t' ∧
        missingFspConfig s .rewardDistribution = [] ∧
        ((f.bind RewardDistributionFields.validate = none ∧ t' = [] ∧ RefusedForGood r) ∨
          ∃ rdd, f.bind RewardDistributionFields.validate = some rdd ∧
            ((rdd.rewardEpochId ≠ epoch ∧ t' = [] ∧ RefusedForGood r) ∨
              (rdd.rewardEpochId = epoch ∧
                ((∃ e, rootRefusal rdd = .error e ∧ t' = [] ∧ r = .error e) ∨
                  (∃ x, rootRefusal rdd = .ok (some x) ∧ t' = [] ∧ RefusedForGood r) ∨
                  (rootRefusal rdd = .ok none ∧
                    Runs (signCheckedRewards s epoch rdd wait wt retry hasRpc) t' r))))) := by
  obtain ⟨t₁, rfl, h₁⟩ := runs_enter_bind.mp h
  dsimp only at h₁
  split at h₁
  · rename_i o hcfg
    obtain ⟨rfl, rfl⟩ := runs_pure.mp h₁
    exact Or.inl ⟨rfl, _, rfl, checkFspConfig_status hcfg⟩
  rename_i hcfg
  have hmissing : missingFspConfig s .rewardDistribution = [] := by
    unfold checkFspConfig at hcfg
    split at hcfg
    · rename_i hempty
      exact List.isEmpty_iff.mp hempty
    · cases hcfg
  unfold getRewardDistributionData at h₁
  rw [bind_assoc] at h₁
  obtain ⟨f, t₂, rfl, h₂⟩ := runs_ask_bind.mp h₁
  rw [pure_bind] at h₂
  refine Or.inr ⟨f, t₂, rfl, hmissing, ?_⟩
  split at h₂
  · rename_i hf
    obtain ⟨rfl, rfl⟩ := runs_pure.mp h₂
    exact Or.inl ⟨hf, rfl, _, rfl, rfl⟩
  rename_i rdd hf
  refine Or.inr ⟨rdd, hf, ?_⟩
  split at h₂
  · rename_i hne
    obtain ⟨rfl, rfl⟩ := runs_pure.mp h₂
    exact Or.inl ⟨hne, rfl, _, rfl, rfl⟩
  rename_i heq
  refine Or.inr ⟨not_not.mp heq, ?_⟩
  rcases runs_fromExcept_bind.mp h₂ with ⟨x, hx, h₃⟩ | ⟨e, he, rfl, rfl⟩
  · split at h₃
    · obtain ⟨rfl, rfl⟩ := runs_pure.mp h₃
      exact Or.inr (Or.inl ⟨_, hx, rfl, _, rfl, rfl⟩)
    · exact Or.inr (Or.inr ⟨hx, h₃⟩)
  · exact Or.inl ⟨e, he, rfl, rfl⟩

/-- Runs that pass the checks, put together again. -/
theorem runSignRewards_checked {s : Settings} {epoch : Int} {wait : Bool} {wt : Nat}
    {retry : Option String} {hasRpc : Bool} {t : Trace} {r : Except Exc FspOutcome}
    {rdd : RewardDistributionData} (hcfg : missingFspConfig s .rewardDistribution = [])
    (hepoch : rdd.rewardEpochId = epoch)
    (h : Runs (do
      match ← fromExcept (rootRefusal rdd) with
      | some refusal =>
        return { messageType := .rewardDistribution, rewardEpochId := epoch,
                 status := .failedTerminal, detail := refusal }
      | none => signCheckedRewards s epoch rdd wait wt retry hasRpc) t r) :
    Runs (runSignRewards s epoch wait wt retry hasRpc)
      (⟨.called (.runSignRewards epoch), ()⟩ ::
        ⟨.readRewardDistributionData s.network epoch, some rdd.fields⟩ :: t) r := by
  refine runs_enter_bind.mpr ⟨_, rfl, ?_⟩
  have hc : checkFspConfig s .rewardDistribution epoch = none := by
    simp [checkFspConfig, hcfg]
  dsimp only
  rw [hc]
  dsimp only
  unfold getRewardDistributionData
  rw [bind_assoc]
  refine runs_ask_bind.mpr ⟨some rdd.fields, _, rfl, ?_⟩
  rw [pure_bind]
  simp only [Option.bind_some, RewardDistributionData.validate_fields]
  rw [if_neg (not_not.mpr hepoch)]
  exact h

/-- The recomputation is skipped for a file without claims, and otherwise decides. -/
theorem rootRefusal_eq_none {rdd : RewardDistributionData} :
    rootRefusal rdd = .ok none ↔ rdd.rewardClaims = [] ∨ RootVerified rdd := by
  unfold rootRefusal RootVerified
  split
  · rename_i he
    simp [List.isEmpty_iff.mp he]
  · rename_i hne
    have hne' : rdd.rewardClaims ≠ [] := fun h => hne (List.isEmpty_iff.mpr h)
    simp only [hne', false_or]
    cases buildRewardMerkleRoot (rdd.rewardClaims.map fun c => c.body) with
    | error e => simp [bind, Except.bind]
    | ok root =>
      by_cases heq : Py.lower root = Py.lower rdd.merkleRoot <;>
        simp [bind, Except.bind, pure, Except.pure, heq]

theorem rootRefusal_eq_error {rdd : RewardDistributionData} {e : Exc} :
    rootRefusal rdd = .error e ↔ rdd.rewardClaims ≠ [] ∧
      buildRewardMerkleRoot (rdd.rewardClaims.map fun c => c.body) = .error e := by
  unfold rootRefusal
  split
  · rename_i he
    simp [List.isEmpty_iff.mp he]
  · rename_i hne
    have hne' : rdd.rewardClaims ≠ [] := fun h => hne (List.isEmpty_iff.mpr h)
    cases buildRewardMerkleRoot (rdd.rewardClaims.map fun c => c.body) with
    | error e' => simp [bind, Except.bind, hne']
    | ok root => simp [bind, Except.bind, pure, Except.pure]

/-! ## After the guards -/

theorem allOf_legTwoBound {s : Settings} {epoch : Int} {rdd : RewardDistributionData} {k : OpKind}
    (hk : k ≠ .sign) : AllOf k (LegTwoBound s epoch rdd) := by
  rintro e he c body key hop
  rw [hop] at he
  exact absurd he.symm hk

theorem legTwoBound_checked {s : Settings} {epoch : Int} {rdd : RewardDistributionData}
    {wait : Bool} {wt : Nat} {retry : Option String} {hasRpc : Bool} :
    Emits (signCheckedRewards s epoch rdd wait wt retry hasRpc) (LegTwoBound s epoch rdd) := by
  refine emits_signCheckedRewards (allOf_legTwoBound (by decide)) (allOf_legTwoBound (by decide))
    (allOf_legTwoBound (by decide))
    (allOf_legTwoBound (by decide)) _ _ _ _ _ _ _ ?_ ?_
  · intro key a c body key' hop
    cases hop
  · intro sig' data fees key a hdata c body key' hop
    cases hop
    exact ⟨sig'.v, sig'.r, sig'.s, hdata⟩

/-- Past the checks, some world lets the run request the leg-1 signature. -/
theorem exists_signing_run (s : Settings) (epoch : Int) (rdd : RewardDistributionData) :
    ∃ t r, Runs (signCheckedRewards s epoch rdd true 0 none false) t r ∧ Signs t ∧
      ∀ e ∈ t, ∃ c o, e.op = .fwd c o := by
  have hfinal : Runs (finalizedAlready false
      (rpc (.rewardsHash s.net.flareSystemsManager epoch))) [] (.ok false) :=
    runs_pure.mpr ⟨rfl, rfl⟩
  refine ⟨[⟨.fwd s.fspRewardSignCallerToken (.signFspMessage ((rewardsPlan s epoch rdd).request
      (makeFspIdempotencyKey s.network .rewardDistribution epoch .sign
        (retryToken none s.fspIdempotencyRetry)))),
      .error (.fwdRetryable 503 "unavailable" "fwd unavailable")⟩], _,
    runs_bind_ok hfinal (runs_attempt_fwd_bind.mpr ⟨_, [], rfl, runs_pure.mpr ⟨rfl, rfl⟩⟩),
    ⟨_, List.mem_singleton_self _, _, _, rfl⟩, ?_⟩
  intro e he
  rw [List.mem_singleton.mp he]
  exact ⟨_, _, rfl⟩

omit [External] in
/-- The file's own read is the only one of a run that ends in `fwd` calls after the checks. -/
theorem readsFile_checked {s : Settings} {epoch : Int} {rdd : RewardDistributionData} {t : Trace}
    (ht : ∀ e ∈ t, ∃ c o, e.op = .fwd c o) :
    ReadsFile s epoch rdd (⟨.called (.runSignRewards epoch), ()⟩ ::
      ⟨.readRewardDistributionData s.network epoch, some rdd.fields⟩ :: t) := by
  intro f hf
  rcases List.mem_cons.mp hf with heq | hf
  · cases heq
  rcases List.mem_cons.mp hf with heq | hf
  · cases heq
    simp
  · obtain ⟨c, o, hop⟩ := ht _ hf
    cases hop

/-- A file that passes the checks can get its root signed. -/
theorem exists_signed_run {s : Settings} {epoch : Int} {rdd : RewardDistributionData}
    (hcfg : missingFspConfig s .rewardDistribution = []) (hepoch : rdd.rewardEpochId = epoch)
    (hnone : rootRefusal rdd = .ok none) :
    ∃ t r, Runs (runSignRewards s epoch true 0 none false) t r ∧ ReadsFile s epoch rdd t ∧
      Signs t := by
  obtain ⟨t, r, hrun, ⟨e, he, hop⟩, hfwd⟩ := exists_signing_run s epoch rdd
  exact ⟨_, r, runSignRewards_checked hcfg hepoch
    (runs_fromExcept_bind.mpr (Or.inl ⟨none, hnone, hrun⟩)), readsFile_checked hfwd,
    e, List.mem_cons_of_mem _ (List.mem_cons_of_mem _ he), hop⟩

/-! ## The root -/

/-- The files for which the checks suffice. -/
def FileSafe (s : Settings) (epoch : Int) (rdd : RewardDistributionData) : Prop :=
  missingFspConfig s .rewardDistribution ≠ [] ∨ rdd.rewardEpochId ≠ epoch ∨
    (rdd.rewardClaims ≠ [] ∧
      ∃ root, buildRewardMerkleRoot (rdd.rewardClaims.map fun c => c.body) = .ok root) ∨
    (rdd.rewardClaims = [] ∧ Py.lower zeroBytes32 = Py.lower rdd.merkleRoot)

theorem rootVerified_nil {rdd : RewardDistributionData} (h : rdd.rewardClaims = []) :
    RootVerified rdd ↔ Py.lower zeroBytes32 = Py.lower rdd.merkleRoot := by
  unfold RootVerified
  rw [h, List.map_nil, buildRewardMerkleRoot_nil]
  simp

omit [External] in
/-- A run that ends in the checks calls `fwd` for nothing. -/
theorem not_callsFwd_checks {s : Settings} {epoch : Int} {f : Option RewardDistributionFields} :
    ¬ CallsFwd [⟨.called (.runSignRewards epoch), ()⟩,
      ⟨.readRewardDistributionData s.network epoch, f⟩] := by
  rintro ⟨e, he, c, o, hop⟩
  rcases List.mem_cons.mp he with rfl | he
  · cases hop
  · rw [List.mem_singleton.mp he] at hop
    cases hop

omit [External] in
theorem Signs.callsFwd {t : Trace} (h : Signs t) : CallsFwd t := by
  obtain ⟨e, he, c, req, hop⟩ := h
  exact ⟨e, he, c, _, hop⟩

theorem verifiedOnly_of_quiet {s : Settings} {epoch : Int} {rdd : RewardDistributionData}
    {t : Trace} {r : Except Exc FspOutcome} (ht : ¬ CallsFwd t) (hr : RefusedForGood r) :
    VerifiedOnly s epoch rdd t r where
  signed h := absurd h.callsFwd ht
  legTwo e he c _ _ hop := absurd ⟨e, he, c, _, hop⟩ ht
  refused _ := ⟨ht, hr.returned⟩

theorem verifiedOnly_of_fileSafe {s : Settings} {epoch : Int} {rdd : RewardDistributionData}
    (hsafe : FileSafe s epoch rdd) {wait : Bool} {wt : Nat} {retry : Option String}
    {hasRpc : Bool} {t : Trace} {r : Except Exc FspOutcome}
    (h : Runs (runSignRewards s epoch wait wt retry hasRpc) t r)
    (hf : ReadsFile s epoch rdd t) : VerifiedOnly s epoch rdd t r := by
  rcases runSignRewards_cases h with ⟨rfl, ho⟩ | ⟨f, t', rfl, hcfg, hrun⟩
  · refine verifiedOnly_of_quiet ?_ ho
    rintro ⟨e, he, c, o, hop⟩
    rw [List.mem_singleton.mp he] at hop
    cases hop
  have hread := hf f (List.mem_cons_of_mem _ (List.mem_cons_self ..))
  rcases hrun with ⟨hnone, -⟩ | ⟨rdd', hsome, hrun⟩
  · rw [hread] at hnone
    cases hnone
  obtain rfl : rdd = rdd' := by
    rw [hread] at hsome
    exact Option.some.inj hsome
  rcases hrun with ⟨-, rfl, ho⟩ | ⟨hepoch, hrun⟩
  · exact verifiedOnly_of_quiet not_callsFwd_checks ho
  rcases hrun with ⟨e, herr, -⟩ | ⟨x, -, rfl, ho⟩ | ⟨hnone, hrun⟩
  · -- the recomputation raised, which a safe file excludes
    obtain ⟨hne, hbuild⟩ := rootRefusal_eq_error.mp herr
    rcases hsafe with hm | he | ⟨-, root, hroot⟩ | ⟨hnil, -⟩
    · exact absurd hcfg hm
    · exact absurd hepoch he
    · rw [hbuild] at hroot
      cases hroot
    · exact absurd hnil hne
  · exact verifiedOnly_of_quiet not_callsFwd_checks ho
  · have hver : RootVerified rdd := by
      rcases rootRefusal_eq_none.mp hnone with hnil | hver
      · rcases hsafe with hm | he | ⟨hne, -⟩ | ⟨-, hzero⟩
        · exact absurd hcfg hm
        · exact absurd hepoch he
        · exact absurd hnil hne
        · exact (rootVerified_nil hnil).mpr hzero
      · exact hver
    refine ⟨fun _ => ⟨hepoch, hver⟩, ?_, fun hn => absurd ⟨hepoch, hver⟩ hn⟩
    intro e he
    rcases List.mem_cons.mp he with rfl | he
    · exact fun c body key hop => by cases hop
    rcases List.mem_cons.mp he with rfl | he
    · exact fun c body key hop => by cases hop
    · exact legTwoBound_checked _ _ hrun e he

/-- Only a verified root is signed, with whatever the node and `fwd` do, exactly for the safe
files: an empty claim list is signed unverified unless its root is the zero root, and a claim that
cannot be encoded raises. -/
theorem verifiedOnly_iff (s : Settings) (epoch : Int) (rdd : RewardDistributionData) :
    (∀ (wait : Bool) (wt : Nat) (retry : Option String) (hasRpc : Bool) (t : Trace)
        (r : Except Exc FspOutcome), Runs (runSignRewards s epoch wait wt retry hasRpc) t r →
      ReadsFile s epoch rdd t → VerifiedOnly s epoch rdd t r) ↔
    FileSafe s epoch rdd := by
  refine ⟨fun hall => ?_, fun hsafe wait wt retry hasRpc t r h hf =>
    verifiedOnly_of_fileSafe hsafe h hf⟩
  by_contra hunsafe
  unfold FileSafe at hunsafe
  simp only [not_or, not_not, not_and] at hunsafe
  obtain ⟨hcfg, hepoch, hbuild, hzero⟩ := hunsafe
  by_cases hnil : rdd.rewardClaims = []
  · -- no claims: the run goes on to leg 1 over whatever root the file states
    obtain ⟨t, r, hrun, hread, hsigns⟩ :=
      exists_signed_run hcfg hepoch (rootRefusal_eq_none.mpr (Or.inl hnil))
    obtain ⟨-, hver⟩ := (hall true 0 none false t r hrun hread).signed hsigns
    exact hzero hnil ((rootVerified_nil hnil).mp hver)
  · -- a claim that cannot be encoded: the recomputation raises
    cases hroot : buildRewardMerkleRoot (rdd.rewardClaims.map fun c => c.body) with
    | ok root => exact hbuild hnil ⟨root, hroot⟩
    | error x =>
      have herr : rootRefusal rdd = .error x := rootRefusal_eq_error.mpr ⟨hnil, hroot⟩
      have hall' := hall true 0 none false _ (.error x) (runSignRewards_checked hcfg hepoch
        (runs_fromExcept_bind.mpr (Or.inr ⟨x, herr, rfl, rfl⟩))) (readsFile_checked (by simp))
      have hnver : ¬ RootVerified rdd := by
        rintro ⟨root, hok, -⟩
        rw [hroot] at hok
        cases hok
      obtain ⟨-, o, ho⟩ := hall'.refused fun hv => hnver hv.2
      cases ho

/-! ## The epoch of the claims -/

/-- Every claim hashed into the signed root is for the epoch signed. -/
def EpochBound (epoch : Int) (rdd : RewardDistributionData) (t : Trace) : Prop :=
  Signs t → ∀ c ∈ rdd.rewardClaims, c.body.rewardEpochId = epoch

/-- The checks of the file refuse it, or are not reached. -/
def Refused (s : Settings) (epoch : Int) (rdd : RewardDistributionData) : Prop :=
  missingFspConfig s .rewardDistribution ≠ [] ∨ rdd.rewardEpochId ≠ epoch ∨ ¬ RootVerified rdd

/-- A signature binds the claims to the epoch, for a file with claims, exactly when every claim
carries that epoch or another check refuses the file: the epoch ids inside the claims are hashed
into the root but never compared. -/
theorem epochBound_iff (s : Settings) (epoch : Int) (rdd : RewardDistributionData) :
    (∀ (wait : Bool) (wt : Nat) (retry : Option String) (hasRpc : Bool) (t : Trace)
        (r : Except Exc FspOutcome), Runs (runSignRewards s epoch wait wt retry hasRpc) t r →
      ReadsFile s epoch rdd t → EpochBound epoch rdd t) ↔
    (∀ c ∈ rdd.rewardClaims, c.body.rewardEpochId = epoch) ∨ Refused s epoch rdd := by
  constructor
  · intro hall
    by_contra hn
    unfold Refused at hn
    simp only [not_or, not_not] at hn
    obtain ⟨hbad, hcfg, hepoch, hver⟩ := hn
    obtain ⟨t, r, hrun, hread, hsigns⟩ :=
      exists_signed_run hcfg hepoch (rootRefusal_eq_none.mpr (Or.inr hver))
    exact hbad (hall true 0 none false t r hrun hread hsigns)
  · rintro hgood wait wt retry hasRpc t r h hf hsigns c hc
    rcases hgood with hgood | href
    · exact hgood c hc
    -- a refused file with a claim in it is not signed
    rcases runSignRewards_cases h with ⟨rfl, -⟩ | ⟨f, t', rfl, hcfg, hrun⟩
    · obtain ⟨e, he, c', req, hop⟩ := hsigns
      rw [List.mem_singleton.mp he] at hop
      cases hop
    have hread := hf f (List.mem_cons_of_mem _ (List.mem_cons_self ..))
    rcases hrun with ⟨hnone, -⟩ | ⟨rdd', hsome, hrun⟩
    · rw [hread] at hnone
      cases hnone
    obtain rfl : rdd = rdd' := by
      rw [hread] at hsome
      exact Option.some.inj hsome
    rcases hrun with ⟨-, rfl, -⟩ | ⟨hepoch, hrun⟩
    · exact absurd hsigns.callsFwd not_callsFwd_checks
    rcases hrun with ⟨e, -, rfl, -⟩ | ⟨x, -, rfl, -⟩ | ⟨hnone, -⟩
    · exact absurd hsigns.callsFwd not_callsFwd_checks
    · exact absurd hsigns.callsFwd not_callsFwd_checks
    · rcases href with hm | he | hver
      · exact absurd hcfg hm
      · exact absurd hepoch he
      · rcases rootRefusal_eq_none.mp hnone with hnil | hver'
        · rw [hnil] at hc
          cases hc
        · exact absurd hver' hver

end

/-! ## Two files that slip through -/

/-- A configured daemon. -/
def sampleSettings : Settings :=
  { network := .flare
    fwdWalletName := some "executor"
    fwdCallerToken := some "claim"
    claimRecipientAddress := some "0x0101010101010101010101010101010101010101"
    fspRewardSignCallerToken := some "sign"
    fspRewardSubmitCallerToken := some "submit"
    fspSigningWalletName := some "signer"
    fspSenderWalletName := some "sender" }

/-- A file for epoch 5 that states a root and no claims. -/
def rootOnlyFile : RewardDistributionData :=
  ⟨5, "0x" ++ String.ofList (List.replicate 64 '1'), 3, [], by decide, by decide⟩

/-- The root of a file without claims is signed without having been verified. -/
theorem rootOnlyFile_signed :
    ∃ t r, Runs (@runSignRewards External.static sampleSettings 5 true 0 none false) t r ∧
      ReadsFile sampleSettings 5 rootOnlyFile t ∧
      ¬ @VerifiedOnly External.static sampleSettings 5 rootOnlyFile t r := by
  have hcfg : missingFspConfig sampleSettings .rewardDistribution = [] := by decide
  have hepoch : rootOnlyFile.rewardEpochId = 5 := rfl
  have hnone := (@rootRefusal_eq_none External.static rootOnlyFile).mpr (Or.inl rfl)
  obtain ⟨t, r, hrun, hread, hsigns⟩ := @exists_signed_run External.static _ _ _ hcfg hepoch hnone
  refine ⟨t, r, hrun, hread, fun hv => ?_⟩
  have hver := (@VerifiedOnly.signed External.static _ _ _ _ _ hv hsigns).2
  exact absurd ((@rootVerified_nil External.static rootOnlyFile rfl).mp hver) (by decide)

/-- A claim for epoch 4. -/
def earlierClaim : RewardClaimWithProofDict :=
  ⟨[], ⟨4, "0x0202020202020202020202020202020202020202", "1000", 2⟩⟩

def earlierLeaf : String := "0x14e5560825416a3abea65bea0572420050b5a8aa162fdf0e92bad37ae2a7b79e"

/-- A file that says epoch 5 and holds the claim for epoch 4, with the root of that claim. -/
def wrongEpochFile : RewardDistributionData :=
  ⟨5, earlierLeaf, 1, [earlierClaim], by decide, by decide⟩

set_option maxRecDepth 10000 in
theorem leafFromClaim_earlier :
    @leafFromClaim External.static earlierClaim.body = .ok earlierLeaf := by
  decide +kernel

theorem wrongEpochFile_verified : @RootVerified External.static wrongEpochFile := by
  have hroot := @buildRewardMerkleRoot_singleton External.static _ _ leafFromClaim_earlier
  have hbodies : wrongEpochFile.rewardClaims.map (fun c => c.body) = [earlierClaim.body] := rfl
  refine ⟨earlierLeaf, ?_, ?_⟩
  · rw [hbodies, hroot]
  · rw [wrongEpochFile]

/-- The root over the claim for epoch 4 is signed for epoch 5. -/
theorem wrongEpochFile_signed :
    ∃ t r, Runs (@runSignRewards External.static sampleSettings 5 true 0 none false) t r ∧
      ReadsFile sampleSettings 5 wrongEpochFile t ∧ ¬ EpochBound 5 wrongEpochFile t := by
  have hcfg : missingFspConfig sampleSettings .rewardDistribution = [] := by decide
  have hepoch : wrongEpochFile.rewardEpochId = 5 := rfl
  have hnone := (@rootRefusal_eq_none External.static _).mpr (Or.inr wrongEpochFile_verified)
  obtain ⟨t, r, hrun, hread, hsigns⟩ := @exists_signed_run External.static _ _ _ hcfg hepoch hnone
  refine ⟨t, r, hrun, hread, fun hb => ?_⟩
  have hmem : earlierClaim ∈ wrongEpochFile.rewardClaims := List.mem_singleton_self _
  exact absurd (hb hsigns _ hmem) (by decide)

end Clif
