import Clif.Discovery
import Clif.Effect.Fixed
import Clif.FundingPass
import Clif.MerkleProof

/-!
# Gates — the claimable window, four times

`claimable_epoch_ids`, the gate of `collect_reward_claims`, `unclaimable_reason` and
`classify_claim_frontier` against one view of the chain and the files (`gates_agree`).
-/

namespace Clif

open Effect

/-! ## The view -/

/-- What the two contracts and the published files say. -/
structure ClaimView where
  next : String → Int
  range : Int × Int
  rewardsHash : Int → String
  data : Int → Option RewardsData

/-- The world answers what the view says. -/
structure ClaimView.Shown (v : ClaimView) (s : Settings) (env : (op : Op) → op.Ans) : Prop where
  next : ∀ b, env (.rpc (.nextClaimableRewardEpochId s.net.rewardManager b)) = .result (v.next b)
  range : env (.rpc (.rewardEpochIdRange s.net.rewardManager)) = .result v.range
  rewardsHash : ∀ e,
    env (.rpc (.rewardsHash s.net.flareSystemsManager e)) = .result (v.rewardsHash e)
  data : ∀ e, env (.readRewardCalculationData s.network e) = v.data e

/-- The epoch is finalized, signed, and not claimed yet. -/
def ClaimView.Claimable (v : ClaimView) (b : String) (e : Int) : Prop :=
  v.next b ≤ e ∧ e ≤ v.range.2 ∧ v.rewardsHash e ≠ zeroBytes32

instance (v : ClaimView) (b : String) (e : Int) : Decidable (v.Claimable b e) :=
  inferInstanceAs (Decidable (_ ∧ _ ∧ _))

/-- The entry stands for a claim tuple, and its proof is made of hashes. -/
def RawRewardClaim.WellFormed (c : RawRewardClaim) : Prop :=
  (∃ amount t, Py.int? c.amount = some amount ∧
    ReadsAs c.epochId c.beneficiary amount c.claimType t) ∧
  ∀ p ∈ c.merkleProof, ∃ b, IsHash p b

def ClaimView.WellFormed (v : ClaimView) : Prop :=
  ∀ e d, v.data e = some d → ∀ c ∈ d.rewardClaims, c.WellFormed

/-- A program goes on with what the world answers. -/
theorem result_rpc_bind {α : Type} {env : (op : Op) → op.Ans} {o : RpcOp} {x : o.Res}
    {f : o.Res → Py α} (h : env (.rpc o) = .result x) :
    result env (rpc o >>= f) = result env (f x) := by
  have hrpc : result env (rpc o) = .ok x := by
    unfold rpc
    rw [result_bind]
    show rpcResult o.method (env (.rpc o)) = _
    rw [h]
    rfl
  rw [result_bind, hrpc]
  rfl

theorem result_ok_bind {α β : Type} {env : (op : Op) → op.Ans} {p : Py α} {a : α} {f : α → Py β}
    (h : result env p = .ok a) : result env (p >>= f) = result env (f a) := by
  rw [result_bind, h]
  rfl

section

variable {v : ClaimView} {s : Settings} {env : (op : Op) → op.Ans} {b : String} {e : Int}

/-! ## The window -/

theorem reasonFromState_none {nxt last : Int} {signed : Bool} :
    reasonFromState e b nxt last signed = none ↔ nxt ≤ e ∧ e ≤ last ∧ signed = true := by
  unfold reasonFromState
  by_cases hnxt : e < nxt
  · simp [hnxt]
  · by_cases hlast : last < e
    · simp [hnxt, hlast]
    · cases signed <;> simp [hnxt, hlast, not_lt.mp hnxt, not_lt.mp hlast]

theorem signedInRange_shown (hv : v.Shown s env) :
    result env (signedInRange s e v.range.2) =
      .ok (decide (e ≤ v.range.2 ∧ v.rewardsHash e ≠ zeroBytes32)) := by
  unfold signedInRange
  by_cases hle : e ≤ v.range.2
  · rw [if_pos hle]
    refine (result_rpc_bind (hv.rewardsHash e)).trans ?_
    by_cases hz : v.rewardsHash e = zeroBytes32
    · simp [hz]
    · simp [hz, hle]
  · rw [if_neg hle]
    simp [hle]

/-- Why the epoch is not claimable, in the view. -/
def ClaimView.reason (v : ClaimView) (b : String) (e : Int) : Option String :=
  reasonFromState e b (v.next b) v.range.2
    (decide (e ≤ v.range.2 ∧ v.rewardsHash e ≠ zeroBytes32))

theorem ClaimView.reason_none : v.reason b e = none ↔ v.Claimable b e := by
  unfold ClaimView.reason ClaimView.Claimable
  rw [reasonFromState_none, decide_eq_true_eq]
  constructor
  · rintro ⟨hnext, hlast, -, hsigned⟩
    exact ⟨hnext, hlast, hsigned⟩
  · rintro ⟨hnext, hlast, hsigned⟩
    exact ⟨hnext, hlast, hlast, hsigned⟩

theorem unclaimableReason_shown (hv : v.Shown s env) :
    result env (unclaimableReason s b e) = .ok (v.reason b e) := by
  unfold unclaimableReason
  refine (result_rpc_bind (hv.next b)).trans ?_
  refine (result_rpc_bind hv.range).trans ?_
  exact result_ok_bind (signedInRange_shown hv)

theorem signedEpochs_shown (hv : v.Shown s env) {n : Nat} {start : Int} :
    ∃ ids, result env (signedEpochs s start n) = .ok ids ∧
      ∀ e, e ∈ ids ↔ start ≤ e ∧ e < start + n ∧ v.rewardsHash e ≠ zeroBytes32 := by
  induction n generalizing start with
  | zero => exact ⟨[], rfl, fun e => by simp; omega⟩
  | succ n ih =>
    obtain ⟨ids, hids, hmem⟩ := @ih (start + 1)
    refine ⟨if v.rewardsHash start != zeroBytes32 then start :: ids else ids, ?_, fun e => ?_⟩
    · unfold signedEpochs
      refine (result_rpc_bind (hv.rewardsHash start)).trans ?_
      exact result_ok_bind hids
    · by_cases hz : v.rewardsHash start = zeroBytes32
      · rw [if_neg (by simpa using hz), hmem]
        constructor
        · rintro ⟨h₁, h₂, h₃⟩
          exact ⟨by omega, by push_cast; omega, h₃⟩
        · rintro ⟨h₁, h₂, h₃⟩
          have hes : e ≠ start := by
            rintro rfl
            exact h₃ hz
          push_cast at h₂
          exact ⟨by omega, by omega, h₃⟩
      · rw [if_pos (by simpa using hz), List.mem_cons, hmem]
        constructor
        · rintro (rfl | ⟨h₁, h₂, h₃⟩)
          · exact ⟨le_rfl, by push_cast; omega, hz⟩
          · exact ⟨by omega, by push_cast; omega, h₃⟩
        · rintro ⟨h₁, h₂, h₃⟩
          push_cast at h₂
          by_cases hes : e = start
          · exact Or.inl hes
          · exact Or.inr ⟨by omega, by omega, h₃⟩

theorem claimableEpochIds_shown (hv : v.Shown s env) :
    ∃ ids, result env (claimableEpochIds s b) = .ok ids ∧ ∀ e, e ∈ ids ↔ v.Claimable b e := by
  unfold claimableEpochIds ClaimView.Claimable
  by_cases hempty : v.range.2 < v.next b
  · refine ⟨[], ?_, fun e => by simp; omega⟩
    refine (result_rpc_bind (hv.next b)).trans ?_
    refine (result_rpc_bind hv.range).trans ?_
    rw [if_pos hempty]
    rfl
  · obtain ⟨ids, hids, hmem⟩ := @signedEpochs_shown v s env hv (v.range.2 + 1 - v.next b).toNat
      (v.next b)
    refine ⟨ids, ?_, fun e => (hmem e).trans ?_⟩
    · refine (result_rpc_bind (hv.next b)).trans ?_
      refine (result_rpc_bind hv.range).trans ?_
      rw [if_neg hempty]
      exact hids
    · have hlast : v.next b + ((v.range.2 + 1 - v.next b).toNat : Int) = v.range.2 + 1 := by omega
      rw [hlast, Int.lt_add_one_iff]

theorem epochsToCollect_shown (hv : v.Shown s env) :
    result env (epochsToCollect s b (some e)) = .ok (if v.Claimable b e then [e] else []) := by
  unfold epochsToCollect
  refine (result_rpc_bind (hv.next b)).trans ?_
  refine (result_rpc_bind hv.range).trans ?_
  by_cases hin : v.next b ≤ e ∧ e ≤ v.range.2
  · rw [if_neg (not_not.mpr hin)]
    refine (result_rpc_bind (hv.rewardsHash e)).trans ?_
    by_cases hz : v.rewardsHash e = zeroBytes32
    · have hc : ¬ v.Claimable b e := fun h => h.2.2 hz
      simp [hz, hc]
    · have hc : v.Claimable b e := ⟨hin.1, hin.2, hz⟩
      simp [hz, hc]
  · have hc : ¬ v.Claimable b e := fun h => hin ⟨h.1, h.2.1⟩
    rw [if_pos hin, if_neg hc]
    rfl

/-! ## The claim of one epoch -/

variable [External] (h : LawfulAbi)

include h in
theorem provenClaim_wellFormed {c : RawRewardClaim} (hc : c.WellFormed) {root : String} :
    ∃ rc, provenClaim root c = .ok rc := by
  obtain ⟨⟨amount, t, hamount, hreads⟩, hproof⟩ := hc
  obtain ⟨y, hy, -⟩ := foldlM_node h (isHash_leaf t) hproof
  unfold provenClaim verifyProof
  simp only [hamount, computeLeaf_reads h hreads, bind, Except.bind, hy, pure, Except.pure]
  split <;> exact ⟨_, rfl⟩

/-- A proven claim is the entry, and its proof verifies against the root. -/
theorem provenClaim_some {root : String} {c : RawRewardClaim} {rc : RewardClaimWithProof}
    (hrc : provenClaim root c = .ok (some rc)) :
    rc.body.beneficiary = c.beneficiary ∧ rc.body.claimType = c.claimType ∧
      ∃ leaf, computeLeaf rc.body.rewardEpochId rc.body.beneficiary rc.body.amount
          rc.body.claimType = .ok leaf ∧ verifyProof leaf rc.merkleProof root = .ok true := by
  unfold provenClaim at hrc
  cases hamount : Py.int? c.amount with
  | none => simp [hamount] at hrc
  | some amount =>
    simp only [hamount] at hrc
    cases hleaf : computeLeaf c.epochId c.beneficiary amount c.claimType with
    | error e => simp [hleaf, bind, Except.bind] at hrc
    | ok leaf =>
      simp only [hleaf, bind, Except.bind] at hrc
      cases hverify : verifyProof leaf c.merkleProof root with
      | error e => simp [hverify] at hrc
      | ok verified =>
        cases verified with
        | false => simp [hverify, pure, Except.pure] at hrc
        | true =>
          simp only [hverify, if_true, pure, Except.pure, Except.ok.injEq, Option.some.injEq]
            at hrc
          subst hrc
          exact ⟨rfl, rfl, leaf, hleaf, hverify⟩

theorem verifyProof_congr {leaf root root' : String} {proof : List String}
    (heq : Py.lower root = Py.lower root') :
    verifyProof leaf proof root = verifyProof leaf proof root' := by
  unfold verifyProof
  rw [heq]

/-- What a claim for the stream that was found in the file of the epoch is like. -/
structure ClaimView.Proven (v : ClaimView) (b : String) (claimType e : Int)
    (rc : RewardClaimWithProof) : Prop where
  beneficiary : Py.lower rc.body.beneficiary = Py.lower b
  claimType : rc.body.claimType = claimType
  proof : ∃ leaf, computeLeaf rc.body.rewardEpochId rc.body.beneficiary rc.body.amount
    rc.body.claimType = .ok leaf ∧ verifyProof leaf rc.merkleProof (v.rewardsHash e) = .ok true

include h in
theorem rewardClaimFor_shown (hv : v.Shown s env) (hdata : v.WellFormed) {claimType : Int} :
    ∃ rc, result env (rewardClaimFor s e b claimType) = .ok rc ∧
      ∀ c, rc = some c → v.Proven b claimType e c := by
  unfold rewardClaimFor
  have hfile : result env (getRewardCalculationData s e) = .ok (v.data e) := by
    show Except.ok (env (.readRewardCalculationData s.network e)) = _
    rw [hv.data]
  rw [result_ok_bind hfile]
  cases hd : v.data e with
  | none => exact ⟨none, rfl, fun c hc => by cases hc⟩
  | some d =>
    by_cases hroot : Py.lower d.merkleRoot = Py.lower (v.rewardsHash e)
    · have hsame : ¬ (Py.lower d.merkleRoot != Py.lower (v.rewardsHash e)) = true := by
        simpa using hroot
      cases hentry : d.entryFor b claimType with
      | none =>
        refine ⟨none, (result_rpc_bind (hv.rewardsHash e)).trans ?_, fun c hc => by cases hc⟩
        simp only [if_neg hsame, hentry]
        rfl
      | some c =>
        have hmem : c ∈ d.rewardClaims := List.mem_of_find?_eq_some hentry
        have hfor : c.isFor b claimType = true := List.find?_some hentry
        obtain ⟨rc, hrc⟩ := @provenClaim_wellFormed _ h c (hdata e d hd c hmem) d.merkleRoot
        refine ⟨rc, (result_rpc_bind (hv.rewardsHash e)).trans ?_, fun c' hc' => ?_⟩
        · simp only [if_neg hsame, hentry]
          exact hrc
        · subst hc'
          obtain ⟨hben, htype, leaf, hleaf, hverify⟩ := provenClaim_some hrc
          simp only [RawRewardClaim.isFor, Bool.and_eq_true, beq_iff_eq] at hfor
          refine ⟨by rw [hben, hfor.1], by rw [htype, hfor.2], leaf, hleaf, ?_⟩
          rw [← verifyProof_congr hroot]
          exact hverify
    · have hne : (Py.lower d.merkleRoot != Py.lower (v.rewardsHash e)) = true := by
        simpa using hroot
      refine ⟨none, (result_rpc_bind (hv.rewardsHash e)).trans ?_, fun c hc => by cases hc⟩
      simp only [if_pos hne]
      rfl

/-! ## The claims of several epochs -/

theorem claimsOf_shown {claimType : Int} {rcAt : Int → Option RewardClaimWithProof}
    (hrc : ∀ e, result env (rewardClaimFor s e b claimType) = .ok (rcAt e)) (es : List Int) :
    result env (claimsOf s b claimType es) = .ok (es.flatMap fun e => (rcAt e).toList) := by
  induction es with
  | nil => rfl
  | cons e es ih =>
    unfold claimsOf
    refine (result_ok_bind (hrc e)).trans ?_
    exact result_ok_bind ih

/-- The text for an epoch of the frontier. -/
def ClaimView.frontierText (v : ClaimView) (b : String)
    (rcAt : Int → Option RewardClaimWithProof) (e : Int) : String :=
  match v.reason b e with
  | some reason => reason
  | none =>
    match rcAt e with
    | some rc => s!"claimable: {rc.body.amount} wei"
    | none => "no rewards accrued for this beneficiary"

theorem frontierReason_shown (hv : v.Shown s env) {claimType : Int}
    {rcAt : Int → Option RewardClaimWithProof}
    (hrc : ∀ e, result env (rewardClaimFor s e b claimType) = .ok (rcAt e)) :
    result env (frontierReason s b claimType (v.next b) v.range.2 e) =
      .ok (v.frontierText b rcAt e) := by
  unfold frontierReason ClaimView.frontierText
  refine (result_ok_bind (signedInRange_shown hv)).trans ?_
  show result env (match v.reason b e with
    | some reason => pure reason
    | none => rewardClaimFor s e b claimType >>= fun rc => match rc with
      | some rc => pure s!"claimable: {rc.body.amount} wei"
      | none => pure "no rewards accrued for this beneficiary") = _
  cases v.reason b e with
  | some reason => rfl
  | none =>
    refine (result_ok_bind (hrc e)).trans ?_
    cases rcAt e <;> rfl

theorem frontierReasons_shown (hv : v.Shown s env) {claimType : Int}
    {rcAt : Int → Option RewardClaimWithProof}
    (hrc : ∀ e, result env (rewardClaimFor s e b claimType) = .ok (rcAt e)) (es : List Int) :
    result env (frontierReasons s b claimType (v.next b) v.range.2 es) =
      .ok (es.map fun e => (e, v.frontierText b rcAt e)) := by
  induction es with
  | nil => rfl
  | cons e es ih =>
    unfold frontierReasons
    refine (result_ok_bind (frontierReason_shown hv hrc)).trans ?_
    exact result_ok_bind ih

omit [External] in
theorem head_append {x y : String} {c : Char} (hx : x.toList.head? = some c) :
    (x ++ y).toList.head? = some c := by
  rw [String.toList_append, List.head?_append, hx]
  rfl

omit [External] in
theorem claimable_head {a : Int} : (s!"claimable: {a} wei").toList.head? = some 'c' :=
  head_append (head_append (by decide))

omit [External] in
theorem claimable_inj {a b : Int} (heq : s!"claimable: {a} wei" = s!"claimable: {b} wei") :
    a = b := by
  have h₁ : "claimable: " ++ (toString a ++ " wei") = "claimable: " ++ (toString b ++ " wei") := by
    rw [← String.append_assoc, ← String.append_assoc]
    exact heq
  exact intToString_inj ((String.append_left_inj " wei").mp ((String.append_right_inj _).mp h₁))

omit [External] in
/-- No reason reads like a claimable epoch. -/
theorem reasonFromState_head {nxt last : Int} {signed : Bool} {reason : String}
    (hr : reasonFromState e b nxt last signed = some reason) : reason.toList.head? ≠ some 'c' := by
  unfold reasonFromState at hr
  split at hr
  · cases hr
    rw [@head_append _ _ 'a' (head_append (head_append (head_append (by decide))))]
    decide
  · split at hr
    · cases hr
      rw [@head_append _ _ 'n' (head_append (by decide))]
      decide
    · split at hr
      · cases hr
        decide
      · cases hr

omit [External] in
/-- An epoch is shown as claimable exactly if it is, and the stream has a claim in it. -/
theorem frontierText_claimable {rcAt : Int → Option RewardClaimWithProof} {a : Int} :
    v.frontierText b rcAt e = s!"claimable: {a} wei" ↔
      v.Claimable b e ∧ ∃ rc, rcAt e = some rc ∧ rc.body.amount = a := by
  unfold ClaimView.frontierText
  cases hr : v.reason b e with
  | some reason =>
    have hnot : ¬ v.Claimable b e := fun hc => by
      rw [ClaimView.reason_none.mpr hc] at hr
      cases hr
    refine iff_of_false (fun heq => ?_) fun hc => hnot hc.1
    exact reasonFromState_head hr (by rw [show reason = _ from heq, claimable_head])
  | none =>
    have hc := ClaimView.reason_none.mp hr
    cases hrc : rcAt e with
    | none =>
      refine iff_of_false (fun heq => ?_) (fun ⟨_, _, hsome, _⟩ => by cases hsome)
      have hhead := @claimable_head a
      rw [← show "no rewards accrued for this beneficiary" = _ from heq] at hhead
      exact absurd hhead (by decide)
    | some rc =>
      constructor
      · exact fun heq => ⟨hc, rc, rfl, claimable_inj heq⟩
      · rintro ⟨-, rc', hrc', rfl⟩
        cases hrc'
        rfl

/-- What is collected where the epochs `ids` are claimable, and `rcAt` finds the claims. -/
def ClaimView.collected (v : ClaimView) (b : String) (ids : List Int)
    (rcAt : Int → Option RewardClaimWithProof) : Option Int → List RewardClaimWithProof
  | some e => if v.Claimable b e then (rcAt e).toList else []
  | none => ids.flatMap fun e => (rcAt e).toList

include h in
/-- The four windows agree on every view of the chain and the files. -/
theorem gates_agree (hv : v.Shown s env) (hdata : v.WellFormed) (b : String) (claimType : Int) :
    ∃ (ids : List Int) (reasonOf : Int → Option String)
      (collected : Option Int → List RewardClaimWithProof) (frontier : List (Int × String)),
      result env (claimableEpochIds s b) = .ok ids ∧
      (∀ e, result env (unclaimableReason s b e) = .ok (reasonOf e)) ∧
      (∀ only, result env (collectRewardClaims s b claimType only) = .ok (collected only)) ∧
      result env (classifyClaimFrontier s b claimType) = .ok frontier ∧
      (∀ e, (e ∈ ids ↔ reasonOf e = none) ∧
        (e ∈ ids ↔ result env (epochsToCollect s b (some e)) = .ok [e])) ∧
      collected none = ids.flatMap (fun e => collected (some e)) ∧
      (∀ e reason, (e, reason) ∈ frontier → ∀ a, reason = s!"claimable: {a} wei" ↔
        ∃ rc, collected (some e) = [rc] ∧ rc.body.amount = a) ∧
      (∀ only, ∀ rc ∈ collected only,
        ∃ e ∈ ids, (∀ e', only = some e' → e' = e) ∧ v.Proven b claimType e rc) := by
  choose rcAt hrc hproven using fun e => @rewardClaimFor_shown v s env b e _ h hv hdata claimType
  obtain ⟨ids, hids, hmem⟩ := @claimableEpochIds_shown v s env b hv
  have hcollect : ∀ only, result env (collectRewardClaims s b claimType only) =
      .ok (v.collected b ids rcAt only) := by
    intro only
    unfold collectRewardClaims
    cases only with
    | none =>
      refine (result_ok_bind hids).trans ?_
      exact claimsOf_shown hrc ids
    | some e =>
      refine (result_ok_bind (epochsToCollect_shown hv)).trans ?_
      rw [claimsOf_shown hrc]
      by_cases hc : v.Claimable b e
      · simp [ClaimView.collected, hc]
      · simp [ClaimView.collected, hc]
  have hin : ∀ e ∈ ids, v.collected b ids rcAt (some e) = (rcAt e).toList := fun e he =>
    if_pos ((hmem e).mp he)
  refine ⟨ids, v.reason b, v.collected b ids rcAt,
    (frontierCandidates (v.next b) v.range.1 v.range.2).map fun e => (e, v.frontierText b rcAt e),
    hids, fun e => unclaimableReason_shown hv, hcollect, ?_, fun e => ⟨?_, ?_⟩, ?_, ?_, ?_⟩
  · unfold classifyClaimFrontier
    refine (result_rpc_bind (hv.next b)).trans ?_
    refine (result_rpc_bind hv.range).trans ?_
    exact frontierReasons_shown hv hrc _
  · rw [hmem, ClaimView.reason_none]
  · rw [hmem, epochsToCollect_shown hv]
    by_cases hc : v.Claimable b e
    · simp [hc]
    · simp [hc]
  · exact (List.flatMap_congr hin).symm
  · intro e reason he a
    obtain ⟨e', -, heq⟩ := List.mem_map.mp he
    cases heq
    rw [frontierText_claimable]
    by_cases hc : v.Claimable b e
    · simp only [ClaimView.collected, hc, if_true, true_and]
      cases rcAt e <;> simp
    · simp [ClaimView.collected, hc]
  · intro only rc hrc'
    cases only with
    | none =>
      obtain ⟨e, he, hrc''⟩ := List.mem_flatMap.mp hrc'
      exact ⟨e, he, fun e' he' => (by cases he'), hproven e rc (by simpa using hrc'')⟩
    | some e =>
      by_cases hc : v.Claimable b e
      · have hrc'' : rc ∈ (rcAt e).toList := by simpa [ClaimView.collected, hc] using hrc'
        refine ⟨e, (hmem e).mpr hc, fun e' he' => (Option.some.inj he').symm, ?_⟩
        exact hproven e rc (by simpa using hrc'')
      · simp [ClaimView.collected, hc] at hrc'

end

/-! ### One published epoch -/

/-- The epochs 1 and 2 are finalized, and 1 is signed, with a claim of 5 wei in its file. -/
def oneEpochView : ClaimView where
  next _ := 1
  range := (0, 2)
  rewardsHash e := if e = 1 then hashHex firstLeaf else zeroBytes32
  data e := if e = 1 then
    some ⟨1, [⟨[], 1, firstClaim.beneficiary, "5", 1⟩], hashHex firstLeaf⟩ else none

def oneEpochWorld : (op : Op) → op.Ans
  | .rpc (.nextClaimableRewardEpochId _ b) => .result (oneEpochView.next b)
  | .rpc (.rewardEpochIdRange _) => .result oneEpochView.range
  | .rpc (.rewardsHash _ e) => .result (oneEpochView.rewardsHash e)
  | .readRewardCalculationData _ e => oneEpochView.data e
  | op => deafWorld op

theorem oneEpoch_shown : oneEpochView.Shown {} oneEpochWorld :=
  ⟨fun _ => rfl, rfl, fun _ => rfl, fun _ => rfl⟩

theorem oneEpoch_wellFormed : oneEpochView.WellFormed := by
  intro e d hd c hc
  by_cases he : e = 1
  · rw [show oneEpochView.data e = _ from if_pos he] at hd
    cases hd
    cases List.mem_singleton.mp hc
    refine ⟨⟨5, firstTuple, by decide +kernel, rfl, by decide +kernel, rfl, rfl⟩, fun p hp => ?_⟩
    cases hp
  · rw [show oneEpochView.data e = _ from if_neg he] at hd
    cases hd

/-- The claim of that epoch, by every way to it. -/
theorem oneEpoch_agrees :
    let _ := External.static
    ∃ (ids : List Int) (collected : Option Int → List RewardClaimWithProof),
      result oneEpochWorld (claimableEpochIds {} firstClaim.beneficiary) = .ok ids ∧
      (∀ only, result oneEpochWorld (collectRewardClaims {} firstClaim.beneficiary 1 only) =
        .ok (collected only)) ∧
      collected none = ids.flatMap fun e => collected (some e) := by
  intro _
  obtain ⟨ids, _, collected, _, hids, -, hcollect, -, -, hall, -⟩ :=
    gates_agree lawfulAbi_static oneEpoch_shown oneEpoch_wellFormed firstClaim.beneficiary 1
  exact ⟨ids, collected, hids, hcollect, hall⟩

end Clif
