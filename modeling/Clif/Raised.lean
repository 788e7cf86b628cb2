import Clif.Asks
import Clif.Merkle

/-!
# Raised — which exceptions leave a function

The calls of the node raise `RpcError`, those of `fwd` one of the three `Fwd*Error`; everything else
(a bad literal, a reply of another shape, a value that does not encode) raises some other Python
exception.  `raises_f` says what a function lets through, for an encoder that raises only the
latter.
-/

namespace Clif

open Effect

/-- `RpcError` or one of the `Fwd*Error`. -/
def Exc.ofCall : Exc → Bool
  | .other .. => false
  | _ => true

theorem rpcResult_error {α : Type} {method : String} {reply : Reply α} {e : Exc}
    (h : rpcResult method reply = .error e) : e.isFwd = false := by
  cases reply <;> cases h <;> rfl

theorem raises_rpc {o : RpcOp} : Raises (rpc o) fun e => e.isFwd = false := by
  intro t e hr
  obtain ⟨a, -, he⟩ := runs_rpc.mp hr
  exact rpcResult_error he.symm

/-- An exception that is neither of `fwd` nor an `RpcError` is of no call. -/
theorem Exc.ofCall_eq_false {e : Exc} (h : e.isFwd = false) (hrpc : ∀ m, e ≠ .rpcError m) :
    e.ofCall = false := by
  cases e with
  | rpcError m => exact absurd rfl (hrpc m)
  | other c m => rfl
  | _ => cases h

/-! ## Pure computations -/

/-- What `x` fails with satisfies `φ`. -/
def Fails {α : Type} (x : Except Exc α) (φ : Exc → Prop) : Prop := ∀ e, x = .error e → φ e

section

variable {α β : Type} {φ : Exc → Prop} {x : Except Exc α} {f : α → Except Exc β}

theorem fails_ok {a : α} : Fails (.ok a) φ := fun e he => by cases he

theorem fails_error {e : Exc} (h : φ e) : Fails (.error e : Except Exc α) φ := fun e' he => by
  cases he
  exact h

theorem fails_bind (hx : Fails x φ) (hf : ∀ a, Fails (f a) φ) : Fails (x >>= f) φ := by
  intro e he
  cases x with
  | ok a => exact hf a e he
  | error e' =>
    cases he
    exact hx e rfl

theorem fails_mapM {f : α → Except Exc β} (hf : ∀ a, Fails (f a) φ) :
    ∀ l : List α, Fails (l.mapM f) φ
  | [] => fails_ok
  | a :: l => by
    rw [List.mapM_cons]
    exact fails_bind (hf a) fun b => fails_bind (fails_mapM hf l) fun bs => fails_ok

theorem fails_foldlM {f : β → α → Except Exc β} (hf : ∀ b a, Fails (f b a) φ) :
    ∀ (l : List α) (b : β), Fails (l.foldlM f b) φ
  | [], _ => fails_ok
  | a :: l, b => by
    rw [List.foldlM_cons]
    exact fails_bind (hf b a) fun b' => fails_foldlM hf l b'

end

/-- Not an exception of a call. -/
def Foreign (e : Exc) : Prop := e.ofCall = false

theorem fails_claimTypeOf (n : Int) : Fails (claimTypeOf n) Foreign := by
  unfold claimTypeOf
  split_ifs <;> first | exact fails_ok | exact fails_error rfl

theorem fails_receiptInt (field : Option String) : Fails (receiptInt field) Foreign := by
  unfold receiptInt
  dsimp only
  split
  · exact fails_ok
  · exact fails_error rfl

theorem fails_fixedBytes (text : String) (n : Nat) : Fails (fixedBytes text n) Foreign := by
  unfold fixedBytes
  dsimp only
  split
  · exact fails_error rfl
  · split
    · exact fails_error rfl
    · exact fails_ok

theorem fails_hexTail (x : String) : Fails (hexTail x) Foreign := by
  unfold hexTail
  split
  · exact fails_ok
  · exact fails_error rfl

section

variable [External]

/-- The encoder raises exceptions of its own. -/
structure QuietAbi : Prop where
  encode : ∀ types values, Fails (abiEncode types values) Foreign

omit [External] in
mutual

theorem fails_encodeStatic : ∀ t v, Fails (External.encodeStatic t v) Foreign := by
  intro t v
  unfold External.encodeStatic
  split
  · split
    · exact fails_ok
    · exact fails_error rfl
  · split
    · exact fails_ok
    · exact fails_error rfl
  · exact fails_ok
  · exact fails_encodeStatics _ _
  · exact fails_error rfl

theorem fails_encodeStatics : ∀ ts vs, Fails (External.encodeStatics ts vs) Foreign := by
  intro ts vs
  unfold External.encodeStatics
  split
  · exact fails_ok
  · split
    · exact fails_ok
    · rename_i e he
      exact fails_error (fails_encodeStatic _ _ e he)
    · rename_i e he _
      exact fails_error (fails_encodeStatics _ _ e he)
  · exact fails_error rfl

end

omit [External] in
theorem quietAbi_static : @QuietAbi External.static :=
  @QuietAbi.mk External.static fails_encodeStatics

theorem fails_computeLeaf (hq : QuietAbi) (epoch : Int) (b : String) (amount ct : Int) :
    Fails (computeLeaf epoch b amount ct) Foreign := by
  unfold computeLeaf
  split
  · exact fails_error rfl
  · split
    · exact fails_error rfl
    · exact fails_bind (hq.encode _ _) fun _ => fails_ok

theorem fails_node (hq : QuietAbi) (x y : String) : Fails (node x y) Foreign := by
  unfold node
  refine fails_bind (fails_hexTail _) fun a => ?_
  refine fails_bind (fails_hexTail _) fun b => ?_
  exact fails_bind (hq.encode _ _) fun _ => fails_ok

theorem fails_verifyProof (hq : QuietAbi) (leaf : String) (proof : List String) (root : String) :
    Fails (verifyProof leaf proof root) Foreign :=
  fails_bind (fails_foldlM (fun h p => fails_node hq p h) proof leaf) fun _ => fails_ok

theorem fails_leavesOf (hq : QuietAbi) : ∀ bodies, Fails (leavesOf bodies) Foreign
  | [] => fails_ok
  | b :: bs => by
    have hleaf : Fails (leafFromClaim b) Foreign := by
      unfold leafFromClaim
      split
      · exact fails_error rfl
      · exact fails_computeLeaf hq _ _ _ _
    exact fails_bind hleaf fun leaf => fails_bind (fails_leavesOf hq bs) fun _ => fails_ok

theorem fails_buildRewardMerkleRoot (hq : QuietAbi) (bodies : List RewardClaimBodyDict) :
    Fails (buildRewardMerkleRoot bodies) Foreign := by
  unfold buildRewardMerkleRoot
  refine fails_bind (fails_leavesOf hq bodies) fun leaves => ?_
  dsimp only
  split
  · exact fails_ok
  · exact fails_ok
  · refine fails_bind ?_ fun _ => fails_ok
    exact fails_foldlM (fun tree i => fails_bind (fails_node hq _ _) fun _ => fails_ok) _ _

theorem fails_buildClaimCalldata (hq : QuietAbi) (owner recipient : String) (last : Int)
    (wrap : Bool) (proofs : List RewardClaimWithProof) :
    Fails (buildClaimCalldata owner recipient last wrap proofs) Foreign := by
  unfold buildClaimCalldata
  refine fails_bind (fails_mapM (fun p => ?_) proofs) fun encoded => ?_
  · refine fails_bind (fails_mapM (fun q => fails_fixedBytes q 32) _) fun siblings => ?_
    exact fails_bind (fails_fixedBytes _ _) fun _ => fails_ok
  · exact fails_bind (hq.encode _ _) fun _ => fails_ok

theorem fails_buildSignUptimeCalldata (hq : QuietAbi) (epoch v : Int) (r s : String) :
    Fails (buildSignUptimeCalldata epoch v r s) Foreign := by
  unfold buildSignUptimeCalldata
  refine fails_bind (fails_fixedBytes _ _) fun _ => ?_
  refine fails_bind (fails_fixedBytes _ _) fun _ => ?_
  refine fails_bind (fails_fixedBytes _ _) fun _ => ?_
  exact fails_bind (hq.encode _ _) fun _ => fails_ok

theorem fails_buildSignRewardsCalldata (hq : QuietAbi) (epoch rmId n : Int) (hash : String)
    (v : Int) (r s : String) :
    Fails (buildSignRewardsCalldata epoch rmId n hash v r s) Foreign := by
  unfold buildSignRewardsCalldata
  refine fails_bind (fails_fixedBytes _ _) fun _ => ?_
  refine fails_bind (fails_fixedBytes _ _) fun _ => ?_
  refine fails_bind (fails_fixedBytes _ _) fun _ => ?_
  exact fails_bind (hq.encode _ _) fun _ => fails_ok

theorem fails_provenClaim (hq : QuietAbi) (root : String) (c : RawRewardClaim) :
    Fails (provenClaim root c) Foreign := by
  unfold provenClaim
  split
  · exact fails_error rfl
  · refine fails_bind (fails_computeLeaf hq _ _ _ _) fun leaf => ?_
    refine fails_bind (fails_verifyProof hq _ _ _) fun ok => ?_
    split <;> exact fails_ok

theorem fails_rootRefusal (hq : QuietAbi) (rdd : RewardDistributionData) :
    Fails (rootRefusal rdd) Foreign := by
  unfold rootRefusal
  split
  · exact fails_ok
  · exact fails_bind (fails_buildRewardMerkleRoot hq _) fun _ => fails_ok

end

/-! ## Reads -/

theorem Foreign.not_isFwd {e : Exc} (h : Foreign e) : e.isFwd = false := by
  cases e <;> first | rfl | cases h

theorem raises_suggestFees : Raises suggestFees fun e => e.isFwd = false := by
  unfold suggestFees maxFeeCapWei
  refine raises_bind raises_rpc fun baseFees => ?_
  refine raises_bind (raises_bind raises_ask fun raw => ?_) fun cap => ?_
  · split
    · dsimp only
      split
      · exact raises_throw rfl
      · split
        · exact raises_throw rfl
        · exact raises_pure _
    · exact raises_pure _
  · split
    · exact raises_throw rfl
    · exact raises_pure _

theorem raises_feesOr (hasRpc : Bool) : Raises (feesOr hasRpc) Foreign := by
  unfold feesOr
  split
  · refine raises_attempt_bind raises_suggestFees (fun fees => raises_pure _) fun e he => ?_
    split
    · exact raises_pure _
    · exact raises_pure _
    · rename_i hne heq
      cases heq
      exact raises_throw (Exc.ofCall_eq_false he fun m hm => hne m (by rw [hm]))
  · exact raises_pure _

theorem raises_signedEpochs (s : Settings) :
    ∀ epoch n, Raises (signedEpochs s epoch n) fun e => e.isFwd = false
  | _, 0 => raises_pure _
  | epoch, n + 1 =>
    raises_bind raises_rpc fun _ =>
      raises_bind (raises_signedEpochs s (epoch + 1) n) fun _ => raises_pure _

theorem raises_epochsToCollect (s : Settings) (b : String) :
    ∀ o, Raises (epochsToCollect s b o) fun e => e.isFwd = false
  | some epoch => by
    unfold epochsToCollect
    refine raises_bind raises_rpc fun start => raises_bind raises_rpc fun range => ?_
    split
    · exact raises_pure _
    · refine raises_bind raises_rpc fun hash => ?_
      split <;> exact raises_pure _
  | none => by
    unfold epochsToCollect claimableEpochIds
    refine raises_bind raises_rpc fun start => raises_bind raises_rpc fun range => ?_
    split
    · exact raises_pure _
    · exact raises_signedEpochs s _ _

theorem raises_signedInRange (s : Settings) (epoch last : Int) :
    Raises (signedInRange s epoch last) fun e => e.isFwd = false := by
  unfold signedInRange
  split
  · exact raises_bind raises_rpc fun _ => raises_pure _
  · exact raises_pure _

theorem raises_preflight (s : Settings) (b : String) :
    ∀ o, Raises (preflight s b o) fun e => e.isFwd = false
  | none => raises_pure _
  | some _ =>
    raises_bind raises_rpc fun _ => raises_bind raises_rpc fun _ =>
      raises_bind (raises_signedInRange s _ _) fun _ => raises_pure _

theorem raises_finalizedAlready (hasRpc : Bool) {read : Py String}
    (hr : Raises read fun e => e.isFwd = false) :
    Raises (finalizedAlready hasRpc read) Foreign := by
  unfold finalizedAlready
  split
  · refine raises_attempt_bind hr (fun h => raises_pure _) fun e he => ?_
    split
    · exact raises_pure _
    · exact raises_pure _
    · rename_i hne heq
      cases heq
      exact raises_throw (Exc.ofCall_eq_false he fun m hm => hne m (by rw [hm]))
  · exact raises_pure _

section

variable [External]

theorem raises_rewardClaimFor (hq : QuietAbi) (s : Settings) (epoch : Int) (b : String) (ct : Int) :
    Raises (rewardClaimFor s epoch b ct) fun e => e.isFwd = false := by
  unfold rewardClaimFor getRewardCalculationData
  refine raises_bind raises_ask fun data => ?_
  split
  · exact raises_pure _
  · refine raises_bind raises_rpc fun hash => ?_
    split
    · exact raises_pure _
    · split
      · exact raises_pure _
      · exact raises_fromExcept fun e he => (fails_provenClaim hq _ _ e he).not_isFwd

theorem raises_claimsOf (hq : QuietAbi) (s : Settings) (b : String) (ct : Int) :
    ∀ epochs, Raises (claimsOf s b ct epochs) fun e => e.isFwd = false
  | [] => raises_pure _
  | epoch :: epochs =>
    raises_bind (raises_rewardClaimFor hq s epoch b ct) fun _ =>
      raises_bind (raises_claimsOf hq s b ct epochs) fun _ => raises_pure _

theorem raises_collectRewardClaims (hq : QuietAbi) (s : Settings) (b : String) (ct : Int)
    (o : Option Int) : Raises (collectRewardClaims s b ct o) fun e => e.isFwd = false :=
  raises_bind (raises_epochsToCollect s b o) fun epochs => raises_claimsOf hq s b ct epochs

theorem raises_frontierReason (hq : QuietAbi) (s : Settings) (b : String)
    (ct nxt last epoch : Int) :
    Raises (frontierReason s b ct nxt last epoch) fun e => e.isFwd = false := by
  unfold frontierReason
  refine raises_bind (raises_signedInRange s _ _) fun signed => ?_
  split
  · exact raises_pure _
  · refine raises_bind (raises_rewardClaimFor hq s _ _ _) fun rc => ?_
    split <;> exact raises_pure _

theorem raises_frontierReasons (hq : QuietAbi) (s : Settings) (b : String) (ct nxt last : Int) :
    ∀ epochs, Raises (frontierReasons s b ct nxt last epochs) fun e => e.isFwd = false
  | [] => raises_pure _
  | epoch :: epochs =>
    raises_bind (raises_frontierReason hq s b ct nxt last epoch) fun _ =>
      raises_bind (raises_frontierReasons hq s b ct nxt last epochs) fun _ => raises_pure _

theorem raises_classifyClaimFrontier (hq : QuietAbi) (s : Settings) (b : String) (ct : Int) :
    Raises (classifyClaimFrontier s b ct) fun e => e.isFwd = false :=
  raises_bind raises_rpc fun _ => raises_bind raises_rpc fun _ =>
    raises_frontierReasons hq s b ct _ _ _

/-! ## The scan of the signing events -/

theorem fails_decodeSignedLog (kind : SigningKind) (entry : RawLog) :
    Fails (decodeSignedLog kind entry) fun e => e.isFwd = false := by
  unfold decodeSignedLog
  split
  · split
    · exact fails_error rfl
    · split
      · exact fails_error rfl
      · split
        · exact fails_ok
        · exact fails_error rfl
        · exact fails_error rfl
  · exact fails_ok

theorem fails_decodeSignedLogs (kind : SigningKind) :
    ∀ entries, Fails (decodeSignedLogs kind entries) fun e => e.isFwd = false
  | [] => fails_ok
  | entry :: entries =>
    fails_bind (fails_decodeSignedLog kind entry) fun _ =>
      fails_bind (fails_decodeSignedLogs kind entries) fun _ => fails_ok

omit [External] in
theorem fails_parseBlockCapChars :
    ∀ cs, Fails (parseBlockCapChars cs) fun e => e.isFwd = false
  | [] => fails_ok
  | c :: cs => by
    unfold parseBlockCapChars
    generalize (if blockCapText.isPrefixOf (c :: cs) then _ else _) = digits
    dsimp only
    split
    · exact fails_parseBlockCapChars cs
    · split
      · exact fails_error rfl
      · exact fails_ok

theorem raises_signedLogs (fsm : String) (epoch lo hi : Int) (kind : SigningKind) :
    Raises (signedLogs fsm epoch lo hi kind) fun e => e.isFwd = false :=
  raises_bind raises_rpc fun _ => raises_fromExcept (fails_decodeSignedLogs kind _)

theorem raises_fetchSlice (fsm : String) (epoch : Int) (kind : SigningKind)
    (slice : Nat → Int × Int) : ∀ n chunk,
    Raises (fetchSlice fsm epoch kind slice n chunk) fun e => e.isFwd = false
  | 0, chunk => raises_bind (raises_signedLogs fsm epoch _ _ kind) fun _ => raises_pure _
  | n + 1, chunk => by
    unfold fetchSlice
    refine raises_attempt_bind (raises_signedLogs fsm epoch _ _ kind) (fun logs => raises_pure _)
      fun e he => ?_
    split
    · rename_i heq
      cases heq
    · refine raises_bind (raises_fromExcept (fails_parseBlockCapChars _)) fun cap => ?_
      dsimp only
      split
      · exact raises_fetchSlice fsm epoch kind slice n _
      · exact raises_throw rfl
    · rename_i heq
      cases heq
      exact raises_throw he

omit [External] in
theorem raises_blockTimestamp (block : Int) :
    Raises (blockTimestamp block) fun e => e.isFwd = false := by
  unfold blockTimestamp
  refine raises_bind raises_rpc fun ts => ?_
  split
  · exact raises_pure _
  · exact raises_throw rfl

theorem raises_scanBack (fsm : String) (epoch : Int) (kind : SigningKind) (target : Int) :
    ∀ reqs chunk hi byHash scannedFrom,
      Raises (scanBack fsm epoch kind target reqs chunk hi byHash scannedFrom)
        fun e => e.isFwd = false
  | 0, _, _, _, _ => raises_pure _
  | reqs + 1, chunk, hi, byHash, scannedFrom => by
    unfold scanBack
    split
    · exact raises_pure _
    · refine raises_bind (raises_fetchSlice fsm epoch kind _ _ _) fun fetched => ?_
      dsimp only
      split
      · exact raises_pure _
      · refine raises_bind (raises_blockTimestamp _) fun ts => ?_
        split
        · exact raises_pure _
        · exact raises_scanBack fsm epoch kind target reqs _ _ _ _

theorem raises_scanBase (net : NetworkConfig) (epoch : Int) (kind : SigningKind)
    (latest epochEndTs : Int) :
    Raises (scanBase net epoch kind latest epochEndTs) fun e => e.isFwd = false :=
  raises_bind (raises_scanBack _ epoch kind epochEndTs _ _ _ _ _) fun _ =>
    raises_bind raises_rpc fun _ => raises_bind raises_rpc fun _ => raises_pure _

theorem raisesOn_scanOn (fsm : String) (epoch : Int) (kind : SigningKind) (hi : Int) :
    ∀ reqs chunk cur, RaisesOn (scanOn fsm epoch kind hi reqs chunk cur) fun e => e.isFwd = false
  | 0, _, _ => raisesOn_pure _
  | reqs + 1, chunk, cur => by
    unfold scanOn
    split
    · exact raisesOn_pure _
    · exact raisesOn_bind (raisesOn_lift (raises_fetchSlice fsm epoch kind _ _ _)) fun fetched =>
        raisesOn_bind (raisesOn_modify _) fun _ => raisesOn_scanOn fsm epoch kind hi reqs _ _

omit [External] in
theorem raisesOn_lookupEach (vr : String) (epoch : Int) :
    ∀ spas, RaisesOn (lookupEach vr epoch spas) fun e => e.isFwd = false
  | [] => raisesOn_pure _
  | spa :: spas => by
    unfold lookupEach
    refine raisesOn_bind raisesOn_get fun w => ?_
    split
    · exact raisesOn_lookupEach vr epoch spas
    · exact raisesOn_bind (raisesOn_lift raises_rpc) fun vw =>
        raisesOn_bind (raisesOn_modify _) fun _ => raisesOn_lookupEach vr epoch spas

theorem raisesOn_refreshEntry (net : NetworkConfig) (epoch : Int) (kind : SigningKind)
    (latest epochEndTs : Int) :
    RaisesOn (refreshEntry net epoch kind latest epochEndTs) fun e => e.isFwd = false := by
  have hbase := raises_scanBase net epoch kind latest epochEndTs
  unfold refreshEntry
  refine raisesOn_bind raisesOn_get fun cache => ?_
  split
  · split
    · exact raisesOn_bind (raisesOn_focus (raisesOn_bind raisesOn_get fun st =>
        raisesOn_bind (raisesOn_focus (raisesOn_scanOn _ epoch kind _ _ _ _)) fun _ =>
          raisesOn_modify _)) fun _ => raisesOn_pure _
    · exact raisesOn_bind (raisesOn_lift hbase) fun st =>
        raisesOn_bind (raisesOn_modify _) fun _ => raisesOn_pure _
  · exact raisesOn_bind (raisesOn_lift hbase) fun st =>
      raisesOn_bind (raisesOn_modify _) fun _ => raisesOn_pure _

theorem raisesOn_refreshSigningProgress (net : NetworkConfig) (epoch : Int)
    (ourSpa : Option String) (epochEndTs : Int) (kind : SigningKind) :
    RaisesOn (refreshSigningProgress net epoch ourSpa epochEndTs kind)
      fun e => e.isFwd = false := by
  unfold refreshSigningProgress
  split
  · exact raisesOn_throw rfl
  · exact raisesOn_bind (raisesOn_lift raises_rpc) fun latest =>
      raisesOn_bind (raisesOn_refreshEntry net epoch kind latest epochEndTs) fun st =>
        raisesOn_bind (raisesOn_focus (raisesOn_bind raisesOn_get fun st =>
          raisesOn_focus (raisesOn_lookupEach _ epoch _))) fun _ =>
            raisesOn_bind raisesOn_get fun cache => raisesOn_pure _

theorem raisesOn_narrateEach (s : Settings) (voter : String) (timing : Int × Int) :
    ∀ kinds, RaisesOn (narrateEach s voter timing kinds) fun e => e.isFwd = false
  | [] => raisesOn_pure _
  | (epoch, kind) :: rest =>
    raisesOn_bind (raisesOn_refreshSigningProgress s.net epoch (some voter) _ kind) fun _ =>
      raisesOn_narrateEach s voter timing rest

/-- The narration raises nothing that the loop of the daemon takes for a failed cycle. -/
theorem raisesOn_narrate (s : Settings) (voter : String) (timing : Int × Int)
    (active : List Int) : RaisesOn (narrate s voter timing active) Foreign := by
  unfold narrate
  split
  · refine raisesOn_attempt_bind (raisesOn_focus (raisesOn_narrateEach s voter timing _))
      (fun _ => raisesOn_pure _) fun e he => ?_
    split
    · exact raisesOn_pure _
    · exact raisesOn_pure _
    · rename_i hne heq
      cases heq
      exact raisesOn_throw (Exc.ofCall_eq_false he fun m hm => hne m (by rw [hm]))
  · exact raisesOn_pure _

end

end Clif
