import Clif.SignedRoot
import Clif.Cooldown

/-!
# Malformed — reward files whose contents cannot be encoded

The pydantic models accept any text as a beneficiary, an amount or a proof element, and integers of
any size; what cannot be encoded shows only when a leaf, a node or the calldata is computed.
`malformedRefused_iff` says for which files the signing path and the claiming path refuse such
contents: nothing there catches the exception, so only a check that comes before the computation
does.
-/

namespace Clif

open Effect

section

variable [External]

/-! ## What cannot be encoded -/

/-- A claim of the file has no leaf, or no signature makes calldata of the file. -/
def Unsignable (s : Settings) (epoch : Int) (rdd : RewardDistributionData) : Prop :=
  (∃ c ∈ rdd.rewardClaims, ∃ e, leafFromClaim c.body = .error e) ∨
    ∀ v r s', ∃ e, buildSignRewardsCalldata epoch s.net.chainId rdd.noOfWeightBasedClaims
      rdd.merkleRoot v r s' = .error e

/-- The entry of a claim file has a leaf, its proof is hashed to a root, and what is proven can be
put into the calldata. -/
def EntryEncodable (root : String) (c : RawRewardClaim) : Prop :=
  ∃ x, provenClaim root c = .ok x ∧ ∀ rc ∈ x, ∃ v, encodeProof rc = .ok v

/-! ## Signing -/

/-- `run_sign_rewards` refuses: it returns, for good, and asks `fwd` for nothing. -/
def SigningRefused (t : Trace) (r : Except Exc FspOutcome) : Prop := RefusedForGood r ∧ ¬ CallsFwd t

/-- The root computed from the claims is another one than the file states. -/
def RootDiffers (rdd : RewardDistributionData) : Prop :=
  rdd.rewardClaims ≠ [] ∧
    ∃ root, buildRewardMerkleRoot (rdd.rewardClaims.map fun c => c.body) = .ok root ∧
      Py.lower root ≠ Py.lower rdd.merkleRoot

/-- A check before the computation refuses the file, or there is nothing to refuse. -/
def SigningSafe (s : Settings) (epoch : Int) (rdd : RewardDistributionData) : Prop :=
  missingFspConfig s .rewardDistribution ≠ [] ∨ rdd.rewardEpochId ≠ epoch ∨ RootDiffers rdd ∨
    ¬ Unsignable s epoch rdd

theorem rootRefusal_eq_some {rdd : RewardDistributionData} :
    (∃ x, rootRefusal rdd = .ok (some x)) ↔ RootDiffers rdd := by
  unfold rootRefusal RootDiffers
  by_cases hnil : rdd.rewardClaims = []
  · simp [hnil]
  · have hne : rdd.rewardClaims.isEmpty = false := by simpa using hnil
    rw [hne]
    cases buildRewardMerkleRoot (rdd.rewardClaims.map fun c => c.body) with
    | error e => simp [bind, Except.bind]
    | ok root =>
      by_cases heq : Py.lower root = Py.lower rdd.merkleRoot <;>
        simp [bind, Except.bind, pure, Except.pure, heq, hnil]

/-- Every run over the file is refused when the checks before the recomputation say so. -/
theorem signingRefused_of_safe {s : Settings} {epoch : Int} {rdd : RewardDistributionData}
    (hsafe : SigningSafe s epoch rdd) (hbad : Unsignable s epoch rdd) {wait : Bool} {wt : Nat}
    {retry : Option String} {hasRpc : Bool} {t : Trace} {r : Except Exc FspOutcome}
    (h : Runs (runSignRewards s epoch wait wt retry hasRpc) t r)
    (hf : ReadsFile s epoch rdd t) : SigningRefused t r := by
  rcases runSignRewards_cases h with ⟨rfl, hr⟩ | ⟨f, t', rfl, hcfg, hrun⟩
  · refine ⟨hr, ?_⟩
    rintro ⟨e, he, c, o, hop⟩
    rw [List.mem_singleton.mp he] at hop
    cases hop
  have hread := hf f (List.mem_cons_of_mem _ (List.mem_cons_self ..))
  rcases hrun with ⟨hnone, -⟩ | ⟨rdd', hsome, hrun⟩
  · rw [hread] at hnone
    cases hnone
  obtain rfl : rdd = rdd' := by
    rw [hread] at hsome
    exact Option.some.inj hsome
  rcases hrun with ⟨-, rfl, hr⟩ | ⟨hepoch, hrun⟩
  · exact ⟨hr, not_callsFwd_checks⟩
  have hdiff : ∃ x, rootRefusal rdd = .ok (some x) := by
    rcases hsafe with hm | he | hdiff | hgood
    · exact absurd hcfg hm
    · exact absurd hepoch he
    · exact rootRefusal_eq_some.mpr hdiff
    · exact absurd hbad hgood
  obtain ⟨x, hx⟩ := hdiff
  rcases hrun with ⟨e, herr, -⟩ | ⟨x', -, rfl, hr⟩ | ⟨hnone, -⟩
  · rw [hx] at herr
    cases herr
  · exact ⟨hr, not_callsFwd_checks⟩
  · rw [hx] at hnone
    cases hnone

/-- The run of a file whose recomputation raises: the exception leaves `run_sign_rewards`. -/
theorem runs_raising_file {s : Settings} {epoch : Int} {rdd : RewardDistributionData} {e : Exc}
    (hcfg : missingFspConfig s .rewardDistribution = []) (hepoch : rdd.rewardEpochId = epoch)
    (herr : rootRefusal rdd = .error e) :
    Runs (runSignRewards s epoch true 0 none false)
      [⟨.called (.runSignRewards epoch), ()⟩,
        ⟨.readRewardDistributionData s.network epoch, some rdd.fields⟩] (.error e) :=
  runSignRewards_checked hcfg hepoch (runs_fromExcept_bind.mpr (Or.inr ⟨e, herr, rfl, rfl⟩))

theorem signingSafe_of_refused {s : Settings} {epoch : Int} {rdd : RewardDistributionData}
    (hall : ∀ (wait : Bool) (wt : Nat) (retry : Option String) (hasRpc : Bool) (t : Trace)
      (r : Except Exc FspOutcome), Runs (runSignRewards s epoch wait wt retry hasRpc) t r →
        ReadsFile s epoch rdd t → Unsignable s epoch rdd → SigningRefused t r) :
    SigningSafe s epoch rdd := by
  by_contra hunsafe
  unfold SigningSafe at hunsafe
  simp only [not_or, not_not] at hunsafe
  obtain ⟨hcfg, hepoch, hsame, hbad⟩ := hunsafe
  cases hroot : rootRefusal rdd with
  | error e =>
    obtain ⟨⟨o, ho, -⟩, -⟩ := hall true 0 none false _ _ (runs_raising_file hcfg hepoch hroot)
      (readsFile_checked (by simp)) hbad
    cases ho
  | ok x =>
    cases x with
    | some x => exact hsame (rootRefusal_eq_some.mp ⟨x, hroot⟩)
    | none =>
      -- the root is right, so leg 1 is asked for before the calldata is tried
      obtain ⟨t, r, hrun, hread, hsigns⟩ := exists_signed_run hcfg hepoch hroot
      exact (hall true 0 none false t r hrun hread hbad).2 hsigns.callsFwd

/-! ## Claiming -/

/-- The file and the hash on chain, wherever the run reads them. -/
structure ReadsClaimFile (s : Settings) (epoch : Int) (d : RewardsData) (hash : String)
    (t : Trace) : Prop where
  file : ∀ f, (⟨.readRewardCalculationData s.network epoch, f⟩ : Event sig) ∈ t → f = some d
  hash : ∀ a, (⟨.rpc (.rewardsHash s.net.flareSystemsManager epoch), a⟩ : Event sig) ∈ t →
    a = .result hash

/-- The entry of the stream, if there is one, can be encoded. -/
def StreamEncodable (d : RewardsData) (b : String) (ct : Int) : Prop :=
  ∀ c, d.entryFor b ct = some c → EntryEncodable d.merkleRoot c

theorem rewardClaimFor_hashDiffers {s : Settings} {epoch : Int} {b : String} {ct : Int}
    {d : RewardsData} {hash : String} {t : Trace} {r : Except Exc (Option RewardClaimWithProof)}
    (hne : Py.lower d.merkleRoot ≠ Py.lower hash) (h : Runs (rewardClaimFor s epoch b ct) t r)
    (hread : ReadsClaimFile s epoch d hash t) : r = .ok none := by
  obtain ⟨f, t₁, rfl, h₁⟩ := runs_ask_bind.mp h
  obtain rfl := hread.file f (List.mem_cons_self ..)
  obtain ⟨a, t₂, rfl, hcase⟩ := runs_rpc_bind.mp h₁
  obtain rfl := hread.hash a (List.mem_cons_of_mem _ (List.mem_cons_self ..))
  rcases hcase with ⟨x, hx, h₂⟩ | ⟨e, he, -⟩
  · obtain rfl : hash = x := by
      rw [rpcResult] at hx
      exact Except.ok.inj hx
    rw [if_pos (by simpa using hne)] at h₂
    exact (runs_pure.mp h₂).2
  · cases he

/-- What a run does with an entry whose file has the hash on chain. -/
theorem runs_rewardClaimFor_entry {s : Settings} {epoch : Int} {b : String} {ct : Int}
    {d : RewardsData} {hash : String} {c : RawRewardClaim}
    (heq : Py.lower d.merkleRoot = Py.lower hash) (hc : d.entryFor b ct = some c) :
    Runs (rewardClaimFor s epoch b ct)
      [⟨.readRewardCalculationData s.network epoch, some d⟩,
        ⟨.rpc (.rewardsHash s.net.flareSystemsManager epoch), .result hash⟩]
      (provenClaim d.merkleRoot c) := by
  refine runs_ask_bind.mpr ⟨some d, _, rfl, ?_⟩
  refine runs_rpc_bind.mpr ⟨.result hash, [], rfl, Or.inl ⟨hash, rfl, ?_⟩⟩
  rw [if_neg (by simpa using heq)]
  simp only [hc]
  exact runs_fromExcept.mpr ⟨rfl, rfl⟩

omit [External] in
theorem readsClaimFile_entry {s : Settings} {epoch : Int} {d : RewardsData} {hash : String} :
    ReadsClaimFile s epoch d hash
      [⟨.readRewardCalculationData s.network epoch, some d⟩,
        ⟨.rpc (.rewardsHash s.net.flareSystemsManager epoch), .result hash⟩] where
  file f hf := by
    rcases List.mem_cons.mp hf with heq | hf
    · cases heq
      rfl
    · cases List.mem_singleton.mp hf
  hash a ha := by
    rcases List.mem_cons.mp ha with heq | ha
    · cases heq
    · cases List.mem_singleton.mp ha
      rfl

/-- An entry that cannot be encoded is not answered by `None`, once its file has passed. -/
theorem provenClaim_ne_none {root : String} {c : RawRewardClaim} (h : ¬ EntryEncodable root c) :
    provenClaim root c ≠ .ok none := by
  intro hnone
  exact h ⟨none, hnone, fun rc hrc => by cases hrc⟩

/-- A file whose contents cannot be encoded is refused, on the signing path exactly when a check
before the computation refuses it, and on the claiming path exactly when its root is not the one on
chain: in every other case the exception escapes, or `fwd` is asked, or the claim goes on to the
calldata. -/
theorem malformedRefused_iff (s : Settings) (epoch : Int) (rdd : RewardDistributionData)
    (d : RewardsData) (hash b : String) (ct : Int) :
    ((∀ (wait : Bool) (wt : Nat) (retry : Option String) (hasRpc : Bool) (t : Trace)
        (r : Except Exc FspOutcome), Runs (runSignRewards s epoch wait wt retry hasRpc) t r →
        ReadsFile s epoch rdd t → Unsignable s epoch rdd → SigningRefused t r) ↔
      SigningSafe s epoch rdd) ∧
    ((∀ (t : Trace) (r : Except Exc (Option RewardClaimWithProof)),
        Runs (rewardClaimFor s epoch b ct) t r → ReadsClaimFile s epoch d hash t →
        ¬ StreamEncodable d b ct → r = .ok none) ↔
      Py.lower d.merkleRoot ≠ Py.lower hash ∨ StreamEncodable d b ct) := by
  constructor
  · exact ⟨signingSafe_of_refused, fun hsafe _ _ _ _ _ _ h hf hbad =>
      signingRefused_of_safe hsafe hbad h hf⟩
  constructor
  · intro hall
    by_contra hn
    simp only [not_or, not_not] at hn
    obtain ⟨heq, hbad⟩ := hn
    have hentry : ∃ c, d.entryFor b ct = some c ∧ ¬ EntryEncodable d.merkleRoot c := by
      unfold StreamEncodable at hbad
      simpa only [not_forall, exists_prop] using hbad
    obtain ⟨c, hc, hbadc⟩ := hentry
    exact provenClaim_ne_none hbadc
      (hall _ _ (runs_rewardClaimFor_entry heq hc) readsClaimFile_entry hbad)
  · rintro (hne | hgood) t r h hread hbad
    · exact rewardClaimFor_hashDiffers hne h hread
    · exact absurd hgood hbad

end

/-! ## Two files that get through to the daemon -/

theorem merkleRootRe_ones :
    merkleRootRe ("0x" ++ String.ofList (List.replicate 64 '1')) = true := by decide

/-- A published file for epoch 5 whose only claim has a beneficiary that is no hex. -/
def badBeneficiaryFile : RewardDistributionData :=
  ⟨5, "0x" ++ String.ofList (List.replicate 64 '1'), 1, [⟨[], ⟨5, "0xzz", "1000", 2⟩⟩],
    merkleRootRe_ones, Int.one_nonneg⟩

def badBeneficiaryError : Exc := .valueError
  "compute_leaf: malformed beneficiary address 0xzz: non-hexadecimal number found"

def feeOwner : String := "0x0202020202020202020202020202020202020202"

/-- A cached file for epoch 5 whose only entry has an amount that is no number. -/
def badAmountFile : RewardsData := ⟨5, [⟨[], 5, feeOwner, "ten", 2⟩], "0x11"⟩

/-- Epoch 5 is due and its published file is the malformed one. -/
def badFileWorld : (op : Op) → op.Ans
  | .rpc (.currentRewardEpochId _) => .result 6
  | .rpc (.firstRewardEpochStartTs _) => .result 0
  | .rpc (.rewardEpochDurationSeconds _) => .result 1
  | .rpc (.rewardsHash _ _) => .result zeroBytes32
  | .rpc (.voterRewardsSignInfo ..) => .result (0, 0)
  | .readRewardDistributionData _ _ => some badBeneficiaryFile.fields
  | op => deafWorld op

def badFileExec : Trace × Except Exc Report × Process :=
  execOn (S := sig) badFileWorld
    (@daemonCycle External.static sampleSettings "0x03" [] 1800 10000 10001) { lastDone := some 4 }

theorem badBeneficiary_leaf :
    @leafFromClaim External.static ⟨5, "0xzz", "1000", 2⟩ = .error badBeneficiaryError := by
  decide +kernel

theorem badBeneficiary_root :
    @rootRefusal External.static badBeneficiaryFile = .error badBeneficiaryError := by
  decide +kernel

theorem badAmount_proven : @provenClaim External.static "0x11" ⟨[], 5, feeOwner, "ten", 2⟩ =
    .error (.valueError "invalid literal for int() with base 10: ten") := by
  decide +kernel

/-- The two files make the orchestrators raise `ValueError`, and the published one ends the
daemon. -/
theorem malformedFiles_escape :
    (∃ t r, Runs (@runSignRewards External.static sampleSettings 5 true 0 none false) t r ∧
      ReadsFile sampleSettings 5 badBeneficiaryFile t ∧
      @Unsignable External.static sampleSettings 5 badBeneficiaryFile ∧ ¬ SigningRefused t r) ∧
    (∃ t r, Runs (@rewardClaimFor External.static sampleSettings 5 feeOwner 2) t r ∧
      ReadsClaimFile sampleSettings 5 badAmountFile "0x11" t ∧
      ¬ @StreamEncodable External.static badAmountFile feeOwner 2 ∧ r ≠ .ok none) ∧
    ∃ t p', RunsOn (@daemonCycle External.static sampleSettings "0x03" [] 1800 10000 10001)
        { lastDone := some 4 } t (.error badBeneficiaryError) p' ∧
      ReadsFile sampleSettings 5 badBeneficiaryFile t := by
  refine ⟨?_, ?_, ?_⟩
  · refine ⟨_, _, @runs_raising_file External.static _ _ _ _ (by decide) rfl badBeneficiary_root,
      readsFile_checked (by simp), Or.inl ⟨_, List.mem_singleton_self _, _, badBeneficiary_leaf⟩, ?_⟩
    rintro ⟨⟨o, ho, -⟩, -⟩
    cases ho
  · have hc : badAmountFile.entryFor feeOwner 2 = some ⟨[], 5, feeOwner, "ten", 2⟩ := by decide
    refine ⟨_, _, @runs_rewardClaimFor_entry External.static sampleSettings 5 _ _ _ "0x11" _ rfl hc,
      readsClaimFile_entry, fun hgood => ?_, ?_⟩
    · obtain ⟨x, hx, -⟩ := hgood _ hc
      rw [show badAmountFile.merkleRoot = "0x11" from rfl, badAmount_proven] at hx
      cases hx
    · rw [show badAmountFile.merkleRoot = "0x11" from rfl, badAmount_proven]
      nofun
  · have h := execOn_runs (S := sig) badFileWorld
      (@daemonCycle External.static sampleSettings "0x03" [] 1800 10000 10001)
      { lastDone := some 4 }
    have hraise : badFileExec.2.1 = .error badBeneficiaryError := by
      with_unfolding_all rfl
    have hread : badFileExec.1.filterMap (fun e => match e with
        | ⟨.readRewardDistributionData _ _, f⟩ => some f
        | _ => none) = [some badBeneficiaryFile.fields, some badBeneficiaryFile.fields] := by
      with_unfolding_all rfl
    refine ⟨badFileExec.1, badFileExec.2.2, hraise ▸ h, fun f hf => ?_⟩
    have hmem : f ∈ [some badBeneficiaryFile.fields, some badBeneficiaryFile.fields] := by
      rw [← hread]
      exact List.mem_filterMap.mpr ⟨_, hf, rfl⟩
    have heq : f = some badBeneficiaryFile.fields := by simpa using hmem
    rw [heq]
    simp

end Clif
