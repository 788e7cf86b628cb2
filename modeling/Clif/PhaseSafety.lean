import Clif.Cycle
import Clif.Effect.Wp
import Clif.OurVote

/-!
# PhaseSafety — when a cycle may sign and when it may claim

`Allowed` says what must have been read in the drive of an epoch before `run_sign_rewards` or
`run_claim` is called for it.  Every call of every cycle is allowed (`phase_safety`), and an
`ALREADY_SIGNED` comes from a revert with the per-voter guard alone.
-/

namespace Clif

open Effect

/-! ## What must have been read -/

/-- `v` is what happened since the drive of the epoch began. -/
def Since (epoch : Int) (h v : Trace) : Prop :=
  ∃ u, h = u ++ ⟨.called (.driveEpoch epoch), ()⟩ :: v ∧ driven v = []

/-- The epoch was read as not finalized and not signed by us, or the views reverted and our vote
was not found. -/
inductive UnsignedRead [External] (a : DriveArgs) (epoch : Int) (v : Trace) : Prop where
  | views {info : Int × Int}
      (hash : (⟨.rpc (.rewardsHash a.settings.net.flareSystemsManager epoch),
        .result zeroBytes32⟩ : Event sig) ∈ v)
      (vote : (⟨.rpc (.voterRewardsSignInfo a.settings.net.flareSystemsManager epoch a.voter),
        .result info⟩ : Event sig) ∈ v)
      (unsigned : info.1 = 0)
  | reverted {o : RpcOp} {ans : Reply o.Res} {m : String}
      (view : o = .rewardsHash a.settings.net.flareSystemsManager epoch ∨
        o = .voterRewardsSignInfo a.settings.net.flareSystemsManager epoch a.voter)
      (read : (⟨.rpc o, ans⟩ : Event sig) ∈ v)
      (fails : rpcResult o.method ans = .error (.rpcError m))
      (text : Py.isIn "not signed yet" (Py.lower m) = true)
      (ours : ∀ f, a.ourSignedFn = some f → ∃ x y z s s', v = x ++ (y ++ z) ∧
        RunsOn (f epoch) s y (.ok false) s')

/-- What must precede a call of `run_sign_rewards`. -/
structure MaySign [External] (a : DriveArgs) (epoch : Int) (v : Trace) : Prop where
  unsigned : UnsignedRead a epoch v
  due : ¬ TooEarly a epoch
  published : ∃ f, (⟨.readRewardDistributionData a.settings.network epoch, f⟩ : Event sig) ∈ v ∧
    f.bind RewardDistributionFields.validate ≠ none

/-- The entry of the reward signature. -/
def signEntry (epoch : Int) : Op := .called (.runSignRewards epoch)

/-- What must precede a call of `run_claim`: the epoch was read as finalized and not signed in
this drive, or the only reward signature of the drive came back as `ALREADY_FINALIZED`. -/
inductive MayClaim [External] (a : DriveArgs) (epoch : Int) (v : Trace) : Prop where
  | finalized {hash : String} (nonzero : hash ≠ zeroBytes32)
      (read : (⟨.rpc (.rewardsHash a.settings.net.flareSystemsManager epoch),
        .result hash⟩ : Event sig) ∈ v)
      (unsigned : ∀ e ∈ v, e.op ≠ signEntry epoch)
  | tooLate {token : Option String} {x y z : Trace} {ro : FspOutcome} (split : v = x ++ (y ++ z))
      (before : ∀ e ∈ x, e.op ≠ signEntry epoch) (after : ∀ e ∈ z, e.op ≠ signEntry epoch)
      (run : Runs (runSignRewards a.settings epoch true 600 token true) y (.ok ro))
      (late : ro.status = .alreadyFinalized)

/-- What a history must hold for the next exchange. -/
structure Allowed [External] (a : DriveArgs) (h : Trace) (e : Event sig) : Prop where
  sign : ∀ epoch, e.op = .called (.runSignRewards epoch) →
    ∃ v, Since epoch h v ∧ MaySign a epoch v
  claim : ∀ ct b o, e.op = .called (.runClaim ct b o) →
    ∃ epoch v, o = some epoch ∧ Since epoch h v ∧ MayClaim a epoch v

/-- The exchanges that need no permission and begin no drive. -/
structure Quiet (e : Event sig) : Prop where
  drives : e.op.drives = none
  sign : ∀ epoch, e.op ≠ .called (.runSignRewards epoch)
  claim : ∀ ct b o, e.op ≠ .called (.runClaim ct b o)

theorem quiet_of_kind {e : Event sig} (h : e.op.kind ≠ .entry) : Quiet e := by
  refine ⟨?_, ?_, ?_⟩
  · cases hop : e.op with
    | called c =>
      rw [hop] at h
      exact absurd rfl h
    | _ => rfl
  · intro epoch hop
    rw [hop] at h
    exact h rfl
  · intro ct b o hop
    rw [hop] at h
    exact h rfl

theorem allOf_quiet {k : OpKind} (hk : k ≠ .entry) : AllOf k Quiet := by
  intro e he
  refine quiet_of_kind ?_
  rw [he]
  exact hk

theorem quiet_mark {c : Call} (hd : (Op.called c).drives = none)
    (hs : ∀ epoch, c ≠ .runSignRewards epoch) (hc : ∀ ct b o, c ≠ .runClaim ct b o) :
    Quiet (⟨.called c, ()⟩ : Event sig) := by
  refine ⟨hd, fun epoch heq => ?_, fun ct b o heq => ?_⟩
  · exact hs epoch (Op.called.inj heq)
  · exact hc ct b o (Op.called.inj heq)

theorem Since.append {epoch : Int} {h v w : Trace} (hs : Since epoch h v) (hw : driven w = []) :
    Since epoch (h ++ w) (v ++ w) := by
  obtain ⟨u, rfl, hv⟩ := hs
  refine ⟨u, by rw [List.append_assoc, List.cons_append], ?_⟩
  rw [driven_append, hv, hw]
  rfl

theorem driven_quiet {w : Trace} (hw : ∀ e ∈ w, Quiet e) : driven w = [] :=
  driven_eq_nil fun e he => (hw e he).drives

variable [External]

theorem Quiet.allowed {a : DriveArgs} {h : Trace} {e : Event sig} (he : Quiet e) :
    Allowed a h e :=
  ⟨fun epoch heq => absurd heq (he.sign epoch), fun ct b o heq => absurd heq (he.claim ct b o)⟩

theorem guarded_append_quiet {a : DriveArgs} {h w : Trace} (hg : Guarded (Allowed a) h)
    (hw : ∀ e ∈ w, Quiet e) : Guarded (Allowed a) (h ++ w) :=
  keep_append (fun _ _ hi he => guarded_snoc.mpr ⟨hi, he.allowed⟩) hw hg

theorem MayClaim.append {a : DriveArgs} {epoch : Int} {v w : Trace} (h : MayClaim a epoch v)
    (hw : ∀ e ∈ w, e.op ≠ signEntry epoch) : MayClaim a epoch (v ++ w) := by
  cases h with
  | finalized nonzero read unsigned =>
    refine .finalized nonzero (List.mem_append_left _ read) fun e he => ?_
    rcases List.mem_append.mp he with he | he
    · exact unsigned e he
    · exact hw e he
  | @tooLate token x y z ro split before after run late =>
    refine .tooLate (x := x) (y := y) (z := z ++ w) ?_ before (fun e he => ?_) run late
    · rw [split]
      simp
    · rcases List.mem_append.mp he with he | he
      · exact after e he
      · exact hw e he

/-! ## The phases of one drive -/

theorem quiet_uptimePhase (a : DriveArgs) (epoch : Int) : Emits (uptimePhase a epoch) Quiet := by
  refine emits_uptimePhase (allOf_quiet ?_) (allOf_quiet ?_) (allOf_quiet ?_) (allOf_quiet ?_) a
    epoch (quiet_mark rfl ?_ ?_)
  all_goals simp

omit [External] in
theorem quiet_callback {a : DriveArgs} (ha : a.Keyless) {f : Int → Daemon Bool}
    (hf : a.ourSignedFn = some f) (epoch : Int) : EmitsOn (f epoch) Quiet := by
  refine (ha f hf epoch).mono fun e he => ?_
  rcases he with hread | hop
  · exact allOf_quiet (by simp) e hread
  · obtain ⟨op, ans⟩ := e
    obtain rfl : op = .called (.ourSigned epoch) := hop
    exact quiet_mark rfl (by simp) (by simp)

omit [External] in
/-- The two views: what they returned was read, or the failing one was. -/
theorem rewardViews_read {a : DriveArgs} {epoch : Int} {t : Trace}
    {r : Except Exc (Bool × Bool)} (h : Runs (rewardViews a epoch) t r) :
    (∀ fin ours, r = .ok (fin, ours) → ∃ hash info,
      (⟨.rpc (.rewardsHash a.settings.net.flareSystemsManager epoch), .result hash⟩ : Event sig) ∈ t ∧
      (⟨.rpc (.voterRewardsSignInfo a.settings.net.flareSystemsManager epoch a.voter),
        .result info⟩ : Event sig) ∈ t ∧
      fin = (hash != zeroBytes32) ∧ ours = (info.1 != 0)) ∧
    ∀ e, r = .error e → ∃ (o : RpcOp) (ans : Reply o.Res),
      (o = .rewardsHash a.settings.net.flareSystemsManager epoch ∨
        o = .voterRewardsSignInfo a.settings.net.flareSystemsManager epoch a.voter) ∧
      (⟨.rpc o, ans⟩ : Event sig) ∈ t ∧ rpcResult o.method ans = .error e := by
  unfold rewardViews at h
  obtain ⟨x, t', rfl, ⟨hash, hx, h₁⟩ | ⟨e, hx, rfl, rfl⟩⟩ := runs_rpc_bind.mp h
  · obtain ⟨y, t'', rfl, ⟨info, hy, h₂⟩ | ⟨e, hy, rfl, rfl⟩⟩ := runs_rpc_bind.mp h₁
    · obtain ⟨rfl, rfl⟩ := runs_pure.mp h₂
      obtain rfl := rpcResult_eq_ok hx
      obtain rfl := rpcResult_eq_ok hy
      refine ⟨fun fin ours hr => ?_, fun e hr => by cases hr⟩
      obtain ⟨rfl, rfl⟩ := Prod.mk.inj (Except.ok.inj hr)
      exact ⟨hash, info, by simp, by simp, rfl, rfl⟩
    · refine ⟨fun _ _ hr => (by cases hr), fun e' hr => ?_⟩
      obtain rfl := Except.error.inj hr
      exact ⟨_, y, Or.inr rfl, by simp, hy⟩
  · refine ⟨fun _ _ hr => (by cases hr), fun e' hr => ?_⟩
    obtain rfl := Except.error.inj hr
    exact ⟨_, x, Or.inl rfl, by simp, hx⟩

omit [External] in
theorem UnsignedRead.mono_left [External] {a : DriveArgs} {epoch : Int} {u v : Trace}
    (h : UnsignedRead a epoch v) : UnsignedRead a epoch (u ++ v) := by
  cases h with
  | views hash vote unsigned =>
    exact .views (List.mem_append_right _ hash) (List.mem_append_right _ vote) unsigned
  | reverted view read fails text ours =>
    refine .reverted view (List.mem_append_right _ read) fails text fun f hf => ?_
    obtain ⟨x, y, z, s, s', rfl, hrun⟩ := ours f hf
    exact ⟨u ++ x, y, z, s, s', by simp, hrun⟩

/-- What the state of the reward phase is based on. -/
theorem rewardState_read {a : DriveArgs} (ha : a.Keyless) {epoch : Int} {m m' : Mem} {t : Trace}
    {r : Except Exc (Bool × Bool)} (h : RunsOn (rewardState a epoch) m t r m') :
    (∀ e ∈ t, Quiet e) ∧ ∀ fin ours, r = .ok (fin, ours) →
      (fin = true → ∃ hash, hash ≠ zeroBytes32 ∧
        (⟨.rpc (.rewardsHash a.settings.net.flareSystemsManager epoch), .result hash⟩ :
          Event sig) ∈ t) ∧
      (fin = false → ours = false → UnsignedRead a epoch t) := by
  have hquiet : EmitsOn (rewardState a epoch) Quiet :=
    emitsOn_rewardState (allOf_quiet (by simp)) a epoch fun f hf => quiet_callback ha hf epoch
  refine ⟨hquiet _ _ _ _ h, ?_⟩
  unfold rewardState at h
  rcases runsOn_lift_bind.mp h with ⟨y, t₁, t₂, rfl, h₁, h₂⟩ | ⟨e, h₁, rfl, -⟩
  swap
  · intro fin ours hr
    cases hr
  obtain ⟨z, hz, hy⟩ := runs_attempt.mp h₁
  obtain rfl := Except.ok.inj hy
  obtain ⟨hread, hfail⟩ := rewardViews_read hz
  intro fin ours hr
  split at h₂
  · rename_i fs
    obtain ⟨rfl, rfl, -⟩ := runsOn_pure.mp h₂
    obtain rfl := Except.ok.inj hr
    obtain ⟨hash, info, hh, hi, hfin, hours⟩ := hread fin ours rfl
    rw [List.append_nil]
    constructor
    · intro hf
      refine ⟨hash, ?_, hh⟩
      simpa [hfin] using hf
    · intro hf ho
      have hzero : hash = zeroBytes32 := by simpa [hfin] using hf
      rw [hzero] at hh
      exact .views hh hi (by simpa [hours] using ho)
  · rename_i msg
    split at h₂
    swap
    · cases (runsOn_throw.mp h₂).2.1.symm.trans hr
    rename_i htext
    obtain ⟨o, ans, ho, hmem, herr⟩ := hfail _ rfl
    have hmem' : (⟨.rpc o, ans⟩ : Event sig) ∈ t₁ ++ t₂ := List.mem_append_left _ hmem
    split at h₂
    · rename_i hnone
      obtain ⟨rfl, rfl, -⟩ := runsOn_pure.mp h₂
      obtain ⟨rfl, rfl⟩ := Prod.mk.inj (Except.ok.inj hr)
      refine ⟨fun hf => (by cases hf), fun _ _ => .reverted ho hmem' herr htext fun f hf => ?_⟩
      rw [hnone] at hf
      cases hf
    · rename_i g hg
      rcases runsOn_bind.mp h₂ with ⟨signed, t₃, t₄, m₁, rfl, h₃, h₄⟩ | ⟨e, -, rfl⟩
      swap
      · cases hr
      obtain ⟨rfl, rfl, -⟩ := runsOn_pure.mp h₄
      obtain ⟨rfl, rfl⟩ := Prod.mk.inj (Except.ok.inj hr)
      refine ⟨fun hf => (by cases hf), fun _ ho' => .reverted ho hmem' herr htext fun f hf => ?_⟩
      obtain rfl : g = f := Option.some.inj (hg.symm.trans hf)
      exact ⟨t₁, t₃, [], m, m₁, rfl, ho' ▸ h₃⟩
  · cases (runsOn_throw.mp h₂).2.1.symm.trans hr

omit [External] in
/-- Only `ALREADY_FINALIZED` goes on to the claims. -/
theorem afterSign_goes {epoch : Int} {net : Network} {actions : List Action} {ro : FspOutcome}
    {m m' : Mem} {t : Trace} {r : Except Exc (Except EpochObs (List Action))}
    (h : RunsOn (afterSign epoch net actions ro) m t r m') :
    t = [] ∧ ∀ acts, r = .ok (.ok acts) → ro.status = .alreadyFinalized := by
  have hempty : ∀ e ∈ t, False := emitsOn_afterSign epoch net actions ro _ _ _ _ h
  refine ⟨List.eq_nil_iff_forall_not_mem.mpr hempty, fun acts hr => ?_⟩
  have hstop : ∀ o : EpochObs, r ≠ .ok (.error o) := by
    intro o ho
    rw [hr] at ho
    cases ho
  unfold afterSign at h
  dsimp only at h
  split at h
  · exact absurd (runsOn_pure.mp h).2.1 (hstop _)
  · rename_i hlate
    exact hlate
  · have h₁ := runsOn_modify_bind.mp h
    have h₂ := runsOn_get_bind.mp h₁
    split at h₂
    · exact absurd (runsOn_pure.mp h₂).2.1 (hstop _)
    · exact absurd (runsOn_pure.mp h₂).2.1 (hstop _)
  · exact absurd (runsOn_pure.mp h).2.1 (hstop _)

/-- The reward phase of an unsigned epoch: it stops before the signature, or reads the file and
signs, and goes on only after `ALREADY_FINALIZED`. -/
theorem rewardSignPhase_split {a : DriveArgs} {epoch : Int} {actions : List Action} {m m' : Mem}
    {t : Trace} {r : Except Exc (Except EpochObs (List Action))}
    (h : RunsOn (rewardSignPhase a epoch actions) m t r m') :
    ((∀ e ∈ t, Quiet e) ∧ ∀ acts, r ≠ .ok (.ok acts)) ∨
      ¬ TooEarly a epoch ∧ ∃ f token y x, f.bind RewardDistributionFields.validate ≠ none ∧
        t = ⟨.readRewardDistributionData a.settings.network epoch, f⟩ :: y ∧
        Runs (runSignRewards a.settings epoch true 600 token true) y x ∧
        ∀ acts, r = .ok (.ok acts) → ∃ ro, x = .ok ro ∧ ro.status = .alreadyFinalized := by
  unfold rewardSignPhase at h
  dsimp only at h
  split at h
  · obtain ⟨rfl, rfl, -⟩ := runsOn_pure.mp h
    exact Or.inl ⟨by simp, fun acts hr => by cases hr⟩
  rename_i hlate
  rcases runsOn_lift_bind.mp h with ⟨x, t₁, t₂, rfl, h₁, h₂⟩ | ⟨e, h₁, -⟩
  swap
  · obtain ⟨f, -, he⟩ := runs_getRewardDistributionData.mp h₁
    cases he
  obtain ⟨f, rfl, hx⟩ := runs_getRewardDistributionData.mp h₁
  have hx' : x = f.bind RewardDistributionFields.validate := Except.ok.inj hx
  split at h₂
  · obtain ⟨rfl, rfl, -⟩ := runsOn_pure.mp h₂
    refine Or.inl ⟨fun e he => ?_, fun acts hr => by cases hr⟩
    rw [List.mem_singleton.mp he]
    exact quiet_of_kind (by simp [Op.kind])
  have hval : f.bind RewardDistributionFields.validate ≠ none := by
    rw [← hx']
    simp
  have h₃ := runsOn_get_bind.mp h₂
  refine Or.inr ⟨hlate, f, signRetryToken a.settings.fspIdempotencyRetry (m.retries epoch), ?_⟩
  rcases runsOn_lift_bind.mp h₃ with ⟨ro, t₃, t₄, rfl, h₄, h₅⟩ | ⟨e, h₄, rfl, -⟩
  · obtain ⟨rfl, hgo⟩ := afterSign_goes h₅
    exact ⟨t₃, .ok ro, hval, by simp, h₄, fun acts hr => ⟨ro, rfl, hgo acts hr⟩⟩
  · exact ⟨t₂, .error e, hval, rfl, h₄, fun acts hr => by cases hr⟩

/-- The claims of an epoch keep what allows them. -/
theorem claimStreams_guarded {a : DriveArgs} {epoch : Int} :
    ∀ {claimers : List (Int × String)} {h t : Trace} {r : Except Exc (List ClaimOutcome)},
      Runs (claimStreams a.settings epoch claimers) t r → Guarded (Allowed a) h →
      (∃ v, Since epoch h v ∧ MayClaim a epoch v) → Guarded (Allowed a) (h ++ t)
  | [], h, t, r, hr, hg, _ => by
    obtain ⟨rfl, -⟩ := runs_pure.mp hr
    rwa [List.append_nil]
  | (ct, b) :: rest, h, t, r, hr, hg, ⟨v, hs, hm⟩ => by
    -- one claim: its mark is allowed, what follows needs no permission
    have hone : ∀ {t₁ : Trace} {x : Except Exc ClaimOutcome},
        Runs (runClaim a.settings ct b (some epoch) true 600 none) t₁ x →
        Guarded (Allowed a) (h ++ t₁) ∧
          ∃ v', Since epoch (h ++ t₁) v' ∧ MayClaim a epoch v' := by
      intro t₁ x hx
      obtain ⟨t', rfl, hq⟩ := runClaim_marked (φ := Quiet) (allOf_quiet (by simp))
        (allOf_quiet (by simp)) (allOf_quiet (by simp)) (allOf_quiet (by simp))
        (allOf_quiet (by simp)) hx
      have hmark : Allowed a h (⟨.called (.runClaim ct b (some epoch)), ()⟩ : Event sig) := by
        refine ⟨fun e he => (by cases he), fun ct' b' o he => ?_⟩
        cases he
        exact ⟨epoch, v, rfl, hs, hm⟩
      constructor
      · rw [List.append_cons]
        exact guarded_append_quiet (guarded_snoc.mpr ⟨hg, hmark⟩) hq
      · refine ⟨v ++ ⟨.called (.runClaim ct b (some epoch)), ()⟩ :: t', hs.append ?_,
          hm.append fun e he => ?_⟩
        · show driven ([_] ++ t') = []
          rw [driven_append, driven_quiet hq]
          rfl
        · rcases List.mem_cons.mp he with rfl | he
          · simp [signEntry]
          · exact (hq e he).sign epoch
    rcases runs_bind.mp hr with ⟨co, t₁, t₂, rfl, h₁, h₂⟩ | ⟨e, h₁, -⟩
    swap
    · exact (hone h₁).1
    obtain ⟨hg', hv'⟩ := hone h₁
    rw [← List.append_assoc]
    rcases runs_bind.mp h₂ with ⟨cos, t₃, t₄, rfl, h₃, h₄⟩ | ⟨e, h₃, -⟩
    · obtain ⟨rfl, -⟩ := runs_pure.mp h₄
      rw [List.append_nil]
      exact claimStreams_guarded h₃ hg' hv'
    · exact claimStreams_guarded h₃ hg' hv'

theorem UnsignedRead.append {a : DriveArgs} {epoch : Int} {v w : Trace}
    (h : UnsignedRead a epoch v) : UnsignedRead a epoch (v ++ w) := by
  cases h with
  | views hash vote unsigned =>
    exact .views (List.mem_append_left _ hash) (List.mem_append_left _ vote) unsigned
  | reverted view read fails text ours =>
    refine .reverted view (List.mem_append_left _ read) fails text fun f hf => ?_
    obtain ⟨x, y, z, s, s', rfl, hrun⟩ := ours f hf
    exact ⟨x, y, z ++ w, s, s', by simp, hrun⟩

/-- The calls of the reward phase are allowed, and so are the claims it goes on to. -/
theorem rewardPhase_guarded {a : DriveArgs} (ha : a.Keyless) {epoch : Int}
    {actions : List Action} {m m' : Mem} {h v t : Trace}
    {r : Except Exc (Except EpochObs (List Action))}
    (hr : RunsOn (rewardPhase a epoch actions) m t r m') (hg : Guarded (Allowed a) h)
    (hs : Since epoch h v) (hv : ∀ e ∈ v, Quiet e) :
    Guarded (Allowed a) (h ++ t) ∧
      ∀ acts, r = .ok (.ok acts) → ∃ v', Since epoch (h ++ t) v' ∧ MayClaim a epoch v' := by
  unfold rewardPhase at hr
  rcases runsOn_bind.mp hr with ⟨st, ts, tg, m₁, rfl, h₁, h₂⟩ | ⟨e, h₁, rfl⟩
  swap
  · exact ⟨guarded_append_quiet hg (rewardState_read ha h₁).1, fun acts hr => by cases hr⟩
  obtain ⟨hq, hst⟩ := rewardState_read ha h₁
  obtain ⟨hfinal, hunsigned⟩ := hst st.1 st.2 rfl
  have hg₁ := guarded_append_quiet hg hq
  have hs₁ := hs.append (driven_quiet hq)
  have hq₁ : ∀ e ∈ v ++ ts, Quiet e := fun e he =>
    (List.mem_append.mp he).elim (hv e) (hq e)
  split at h₂
  · -- finalized
    rename_i hfin
    obtain ⟨rfl, -, -⟩ := runsOn_pure.mp h₂
    obtain ⟨hash, hne, hread⟩ := hfinal hfin
    rw [List.append_nil]
    refine ⟨hg₁, fun acts _ => ⟨v ++ ts, hs₁, ?_⟩⟩
    exact .finalized hne (List.mem_append_right _ hread) fun e he => (hq₁ e he).sign epoch
  rename_i hnotfin
  split at h₂
  · obtain ⟨rfl, rfl, -⟩ := runsOn_pure.mp h₂
    rw [List.append_nil]
    exact ⟨hg₁, fun acts hr => by cases hr⟩
  rename_i hnotours
  rw [← List.append_assoc]
  rcases rewardSignPhase_split h₂ with ⟨hq₂, hstop⟩ | ⟨hlate, f, token, y, x, hval, rfl, hrun, hgo⟩
  · exact ⟨guarded_append_quiet hg₁ hq₂, fun acts hr => absurd hr (hstop acts)⟩
  -- the file is read, and the signature allowed by it
  have hread : Quiet ⟨.readRewardDistributionData a.settings.network epoch, f⟩ :=
    quiet_of_kind (by simp [Op.kind])
  have hg₂ := guarded_snoc.mpr ⟨hg₁, hread.allowed⟩
  have hs₂ := hs₁.append (driven_quiet (List.forall_mem_singleton.mpr hread))
  obtain ⟨y', rfl, hy'⟩ := runSignRewards_marked (φ := Quiet) (allOf_quiet (by simp))
    (allOf_quiet (by simp)) (allOf_quiet (by simp)) (allOf_quiet (by simp))
    (allOf_quiet (by simp)) hrun
  have hmay : MaySign a epoch
      (v ++ ts ++ [⟨.readRewardDistributionData a.settings.network epoch, f⟩]) := by
    have hun : UnsignedRead a epoch ts :=
      hunsigned (by simpa using hnotfin) (by simpa using hnotours)
    exact ⟨hun.mono_left.append, hlate, f, by simp, hval⟩
  have hmark : Allowed a (h ++ ts ++ [⟨.readRewardDistributionData a.settings.network epoch, f⟩])
      ⟨.called (.runSignRewards epoch), ()⟩ := by
    refine ⟨fun e he => ?_, fun ct b o he => by cases he⟩
    cases he
    exact ⟨_, hs₂, hmay⟩
  have hg₃ := guarded_append_quiet (guarded_snoc.mpr ⟨hg₂, hmark⟩) hy'
  rw [List.append_cons (h ++ ts)]
  refine ⟨by rwa [List.append_cons], fun acts hr => ?_⟩
  obtain ⟨ro, rfl, hstatus⟩ := hgo acts hr
  have hdriven : driven (⟨.called (.runSignRewards epoch), ()⟩ :: y') = [] := by
    show driven ([_] ++ y') = []
    rw [driven_append, driven_quiet hy']
    rfl
  refine ⟨_, hs₂.append hdriven, .tooLate (z := []) (by rw [List.append_nil]) ?_ (by simp) hrun
    hstatus⟩
  intro e he
  rcases List.mem_append.mp he with he | he
  · exact (hq₁ e he).sign epoch
  · rw [List.mem_singleton.mp he]
    exact hread.sign epoch

/-- Every call of a drive is allowed, whatever came before. -/
theorem driveEpoch_guarded {a : DriveArgs} (ha : a.Keyless) {epoch : Int} {m m' : Mem}
    {h t : Trace} {r : Except Exc EpochObs} (hr : RunsOn (driveEpoch a epoch) m t r m')
    (hg : Guarded (Allowed a) h) : Guarded (Allowed a) (h ++ t) := by
  obtain ⟨t', rfl, h₁⟩ := runsOn_enter_bind.mp hr
  rw [List.append_cons]
  have hmark : Allowed a h (⟨.called (.driveEpoch epoch), ()⟩ : Event sig) :=
    ⟨fun e he => (by cases he), fun ct b o he => (by cases he)⟩
  have hg₁ := guarded_snoc.mpr ⟨hg, hmark⟩
  have hs₁ : Since epoch (h ++ [⟨.called (.driveEpoch epoch), ()⟩]) [] := ⟨h, rfl, rfl⟩
  -- the uptime phase needs no permission
  rcases runsOn_lift_bind.mp h₁ with ⟨acts, tu, tv, rfl, h₂, h₃⟩ | ⟨e, h₂, -⟩
  swap
  · exact guarded_append_quiet hg₁ (quiet_uptimePhase _ _ _ _ h₂)
  have hqu := quiet_uptimePhase _ _ _ _ h₂
  have hg₂ := guarded_append_quiet hg₁ hqu
  have hs₂ := hs₁.append (driven_quiet hqu)
  rw [List.nil_append] at hs₂
  rw [← List.append_assoc]
  rcases runsOn_bind.mp h₃ with ⟨x, tr, tc, m₁, rfl, h₄, h₅⟩ | ⟨e, h₄, -⟩
  swap
  · exact (rewardPhase_guarded ha h₄ hg₂ hs₂ hqu).1
  obtain ⟨hg₃, hclaims⟩ := rewardPhase_guarded ha h₄ hg₂ hs₂ hqu
  rw [← List.append_assoc]
  split at h₅
  · obtain ⟨rfl, -, -⟩ := runsOn_pure.mp h₅
    rwa [List.append_nil]
  · rcases runsOn_lift_bind.mp h₅ with ⟨cos, t₃, t₄, rfl, h₆, h₇⟩ | ⟨e, h₆, -⟩
    · obtain ⟨rfl, -, -⟩ := runsOn_pure.mp h₇
      rw [List.append_nil]
      exact claimStreams_guarded h₆ hg₃ (hclaims _ rfl)
    · exact claimStreams_guarded h₆ hg₃ (hclaims _ rfl)

/-! ## The cycle -/

theorem drives_guarded {a : DriveArgs} (ha : a.Keyless) {m m' : Mem}
    {ds : List (Int × Except Exc EpochObs)} {h t : Trace} (hd : Drives (driveEpoch a) m ds t m')
    (hg : Guarded (Allowed a) h) : Guarded (Allowed a) (h ++ t) := by
  induction hd generalizing h with
  | nil => rwa [List.append_nil]
  | cons hr hs ih =>
    rw [← List.append_assoc]
    exact ih (driveEpoch_guarded ha hr hg)

/-! ## The guard of an `ALREADY_SIGNED` -/

/-- The reason of a revert was read, and it is the guard of the voter alone. -/
def OwnGuard (mt : MessageType) (t : Trace) : Prop :=
  ∃ txHash reason x y z, t = x ++ (y ++ z) ∧ Runs (getRevertReason txHash) y (.ok (some reason)) ∧
    Py.isIn fspAlreadySignedRevert (Py.lower reason) = true ∧
    Py.isIn (Py.lower (fspFinalizationReverts mt)) (Py.lower reason) = false

/-- An `ALREADY_SIGNED` outcome rests on the guard of the voter. -/
def SignedByGuard (mt : MessageType) (r : Except Exc FspOutcome) (h : Trace) : Prop :=
  ∀ o, r = .ok o → o.status = .alreadySigned → OwnGuard mt h

theorem signedByGuard_error {mt : MessageType} {e : Exc} {h : Trace} :
    SignedByGuard mt (.error e) h := by
  intro o ho
  cases ho

theorem signedByGuard_other {mt : MessageType} {o : FspOutcome} {h : Trace}
    (hne : o.status ≠ .alreadySigned) : SignedByGuard mt (.ok o) h := by
  intro o' ho hs
  cases ho
  exact absurd hs hne

omit [External] in
theorem classifyRevert_alreadySigned {mt : MessageType} {epoch : Int} {reason : Option String}
    (h : (classifyRevert mt epoch reason).1 = .alreadySigned) :
    ∃ text, reason = some text ∧ Py.isIn fspAlreadySignedRevert (Py.lower text) = true ∧
      Py.isIn (Py.lower (fspFinalizationReverts mt)) (Py.lower text) = false := by
  unfold classifyRevert at h
  split at h
  · cases h
  rename_i hfinal
  split at h
  · rename_i hsigned
    cases reason with
    | none => cases hsigned
    | some text => exact ⟨text, rfl, hsigned, by simpa [isFinalizationRevert] using hfinal⟩
  · cases h

theorem confirmFsp_guard {caller : Option String} {mt : MessageType} {epoch : Int}
    {resp : SignTransactionResponse} {bh : String} {out : OutcomeStatus → String → FspOutcome}
    (hout : ∀ status detail, (out status detail).status = status) {receipt : Receipt} {h : Trace} :
    Wp (confirmFsp caller mt epoch resp bh out receipt) (SignedByGuard mt) h := by
  unfold confirmFsp
  refine wp_bind_any (fun block h₁ => ?_) fun _ _ => signedByGuard_error
  refine wp_bind_any (fun status h₂ => ?_) fun _ _ => signedByGuard_error
  refine wp_bind_any (fun _ h₃ => ?_) fun _ _ => signedByGuard_error
  split
  · rw [wp_bind]
    intro t r hr
    cases r with
    | error e => exact signedByGuard_error
    | ok reason =>
      refine wp_pure.mpr fun o ho hs => ?_
      cases ho
      rw [hout] at hs
      obtain ⟨text, rfl, hin, hnot⟩ := classifyRevert_alreadySigned hs
      exact ⟨bh, text, h₃, t, [], by rw [List.append_nil], hr, hin, hnot⟩
  · refine wp_pure.mpr (signedByGuard_other ?_)
    rw [hout]
    simp

theorem broadcastSigned_guard {mt : MessageType} {caller : Option String}
    {resp : SignTransactionResponse} {out : OutcomeStatus → String → FspOutcome}
    (hout : ∀ status detail, (out status detail).status = status) {go : String → Py FspOutcome}
    (hgo : ∀ bh h', Wp (go bh) (SignedByGuard mt) h') {h : Trace} :
    Wp (broadcastSigned caller resp out go) (SignedByGuard mt) h := by
  unfold broadcastSigned
  refine wp_attempt_any fun x h₁ => ?_
  split
  · refine wp_bind_any (fun _ h₂ => ?_) fun _ _ => signedByGuard_error
    split <;>
    · refine wp_pure.mpr (signedByGuard_other ?_)
      rw [hout]
      simp
  · exact wp_throw.mpr signedByGuard_error
  · exact wp_bind_any (fun _ h₂ => hgo _ _) fun _ _ => signedByGuard_error

theorem broadcastAndConfirm_guard {caller : Option String} {hasRpc : Bool}
    {resp : SignTransactionResponse} {mt : MessageType} {epoch : Int}
    {sig : SignFspMessageResponse} {wt : Nat} {h : Trace} :
    Wp (broadcastAndConfirm caller hasRpc resp mt epoch sig wt) (SignedByGuard mt) h := by
  unfold broadcastAndConfirm
  dsimp only
  split
  · exact wp_pure.mpr (signedByGuard_other (by simp))
  · refine broadcastSigned_guard (fun _ _ => rfl) fun bh h₁ => ?_
    refine wp_bind_any (fun receipt h₂ => ?_) fun _ _ => signedByGuard_error
    split
    · exact wp_pure.mpr (signedByGuard_other (by simp))
    · exact confirmFsp_guard fun _ _ => rfl

omit [External] in
theorem leg2Refusal_status {status : Int} {code text : String} :
    (leg2Refusal status code text).1 ≠ .alreadySigned := by
  unfold leg2Refusal
  split <;> simp

theorem signAndSubmit_guard {s : Settings} {plan : LegPlan} {epoch : Int} {wait : Bool} {wt : Nat}
    {token : Option String} {hasRpc : Bool} {h : Trace} :
    Wp (signAndSubmit s plan epoch wait wt token hasRpc) (SignedByGuard plan.messageType) h := by
  unfold signAndSubmit
  dsimp only
  refine wp_attempt_any fun x h₁ => ?_
  split
  · exact wp_pure.mpr (signedByGuard_other (by simp))
  · exact wp_pure.mpr (signedByGuard_other (by simp))
  · exact wp_throw.mpr signedByGuard_error
  unfold submitLeg
  dsimp only
  refine wp_bind_any (fun data h₂ => ?_) fun _ _ => signedByGuard_error
  refine wp_bind_any (fun fees h₃ => ?_) fun _ _ => signedByGuard_error
  split
  · exact wp_pure.mpr (signedByGuard_other (by simp))
  refine wp_attempt_any fun y h₄ => ?_
  split
  · exact wp_pure.mpr (signedByGuard_other leg2Refusal_status)
  · exact wp_pure.mpr (signedByGuard_other (by simp))
  · exact wp_throw.mpr signedByGuard_error
  split
  · exact wp_pure.mpr (signedByGuard_other (by simp))
  · exact broadcastAndConfirm_guard

theorem runSignUptime_guard {s : Settings} {epoch : Int} {wait : Bool} {wt : Nat}
    {retry : Option String} {hasRpc : Bool} {h : Trace} :
    Wp (runSignUptime s epoch wait wt retry hasRpc) (SignedByGuard .uptime) h := by
  unfold runSignUptime
  refine wp_bind_any (fun _ h₁ => ?_) fun _ _ => signedByGuard_error
  split
  · rename_i err hc
    refine wp_pure.mpr (signedByGuard_other ?_)
    rw [checkFspConfig_status hc]
    simp
  refine wp_bind_any (fun final h₂ => ?_) fun _ _ => signedByGuard_error
  split
  · exact wp_pure.mpr (signedByGuard_other (by simp))
  · exact signAndSubmit_guard

theorem runSignRewards_guard {s : Settings} {epoch : Int} {wait : Bool} {wt : Nat}
    {retry : Option String} {hasRpc : Bool} {h : Trace} :
    Wp (runSignRewards s epoch wait wt retry hasRpc) (SignedByGuard .rewardDistribution) h := by
  unfold runSignRewards
  refine wp_bind_any (fun _ h₁ => ?_) fun _ _ => signedByGuard_error
  dsimp only
  split
  · rename_i err hc
    refine wp_pure.mpr (signedByGuard_other ?_)
    rw [checkFspConfig_status hc]
    simp
  refine wp_bind_any (fun rdd h₂ => ?_) fun _ _ => signedByGuard_error
  split
  · exact wp_pure.mpr (signedByGuard_other (by simp))
  split
  · exact wp_pure.mpr (signedByGuard_other (by simp))
  refine wp_bind_any (fun refusal h₃ => ?_) fun _ _ => signedByGuard_error
  split
  · exact wp_pure.mpr (signedByGuard_other (by simp))
  unfold signCheckedRewards
  refine wp_bind_any (fun final h₄ => ?_) fun _ _ => signedByGuard_error
  split
  · exact wp_pure.mpr (signedByGuard_other (by simp))
  · exact signAndSubmit_guard

/-! ## Phase safety -/

/-- In every cycle, from any state: the reward signature is asked for only when the epoch was read
as open, our vote was not found, the delay has passed and the file is there; a claim is made only
when the epoch was read as finalized or the signature came too late; and an `ALREADY_SIGNED`
outcome rests on the guard of the voter. -/
theorem phase_safety (a : DriveArgs) (ha : a.Keyless) :
    (∀ (lastDone : Option Int) (cd : Int) (u u' : Mem × AutoState) (t : Trace)
        (r : Except Exc (Int × Int × List EpochObs)),
      RunsOn (runCycle a lastDone cd) u t r u' → Guarded (Allowed a) t) ∧
    (∀ (s : Settings) (epoch : Int) (wait : Bool) (wt : Nat) (retry : Option String)
        (hasRpc : Bool) (t : Trace) (o : FspOutcome),
      Runs (runSignRewards s epoch wait wt retry hasRpc) t (.ok o) →
        o.status = .alreadySigned → OwnGuard .rewardDistribution t) ∧
    ∀ (s : Settings) (epoch : Int) (wait : Bool) (wt : Nat) (retry : Option String)
        (hasRpc : Bool) (t : Trace) (o : FspOutcome),
      Runs (runSignUptime s epoch wait wt retry hasRpc) t (.ok o) →
        o.status = .alreadySigned → OwnGuard .uptime t := by
  refine ⟨fun lastDone cd u u' t r h => ?_, fun s epoch wait wt retry hasRpc t o h hs => ?_,
    fun s epoch wait wt retry hasRpc t o h hs => ?_⟩
  · obtain ⟨ans, t', rfl, hcase⟩ := runCycleWith_cases h
    have hread : Guarded (Allowed a)
        ([] ++ [⟨.rpc (.currentRewardEpochId a.settings.net.flareSystemsManager), ans⟩]) :=
      guarded_snoc.mpr ⟨guarded_nil, (quiet_of_kind (by simp [Op.kind, RpcOp.kind])).allowed⟩
    rcases hcase with ⟨x, -, rfl, -⟩ | ⟨current, r₀, u₁, -, hloop, -⟩
    · exact hread
    · obtain ⟨-, ds, hds, -⟩ := cycleLoop_drives (nodup_pyRange _ _) hloop
      exact drives_guarded ha hds hread
  · have hg := runSignRewards_guard (h := []) t (.ok o) h o rfl hs
    rwa [List.nil_append] at hg
  · have hg := runSignUptime_guard (h := []) t (.ok o) h o rfl hs
    rwa [List.nil_append] at hg

omit [External] in
/-- The daemon's own arguments. -/
theorem phase_safety_daemon :
    (@daemonArgs External.static sampleSettings ourSpa [(1, ourSpa)] 10000 (0, 1)).Keyless ∧
      ∀ (lastDone : Option Int) (u u' : Mem × AutoState) (t : Trace)
          (r : Except Exc (Int × Int × List EpochObs)),
        RunsOn (@runCycle External.static
          (@daemonArgs External.static sampleSettings ourSpa [(1, ourSpa)] 10000 (0, 1)) lastDone
          3600) u t r u' →
        Guarded (@Allowed External.static
          (@daemonArgs External.static sampleSettings ourSpa [(1, ourSpa)] 10000 (0, 1))) t := by
  have hkeyless := @daemonArgs_keyless External.static sampleSettings ourSpa [(1, ourSpa)] 10000
    (0, 1)
  exact ⟨hkeyless, fun lastDone => (@phase_safety External.static
    (@daemonArgs External.static sampleSettings ourSpa [(1, ourSpa)] 10000 (0, 1))
    hkeyless).1 lastDone 3600⟩

end Clif
