import Clif.Asks
import Clif.SignedRoot
import Clif.Tally
import Mathlib.Data.List.Basic

/-!
# OurVote — `_our_signed`, the vote the daemon finds in the event log

Before the first signature lands the views of the reward phase revert, and the daemon asks the
event log whether it has signed.  `resigns_iff` says when it signs again although its vote is in
the log: `_aggregate` looks for us among the signers of the leading hash only.
-/

namespace Clif

open Effect

/-! ## Our vote in a history -/

/-- One of the events carries our signing-policy address, under any hash. -/
def Voted (voter : String) (H : List SignedLog) : Prop :=
  voter ≠ "" ∧ ∃ l ∈ H, l.signingPolicyAddress = Py.lower voter

/-- We voted for the hash of the largest weight; among equals, for the one seen first. -/
def OurHashLeads (voter : String) (H : List SignedLog) (w : Weights) : Prop :=
  ∃ l ∈ H, l.signingPolicyAddress = Py.lower voter ∧
    leadingHash w (merge Dict.empty H) = some l.messageHash

theorem mem_signers_mergeLog {b : ByHash} {l : SignedLog} {h spa : String} :
    spa ∈ (signersOf (mergeLog b l) h).keys ↔
      spa ∈ (signersOf b h).keys ∨ l.messageHash = h ∧ l.signingPolicyAddress = spa := by
  rw [signersOf_mergeLog]
  by_cases hh : l.messageHash = h
  · rw [if_pos hh, Dict.mem_keys_set]
    simp only [hh, true_and]
    tauto
  · rw [if_neg hh]
    simp [hh]

/-- `_merge` adds the signers of the logs, each under its hash. -/
theorem mem_signers_merge {b : ByHash} {H : List SignedLog} {h spa : String} :
    spa ∈ (signersOf (merge b H) h).keys ↔
      spa ∈ (signersOf b h).keys ∨
        ∃ l ∈ H, l.messageHash = h ∧ l.signingPolicyAddress = spa := by
  induction H generalizing b with
  | nil => simp [merge]
  | cons l H ih =>
    have hstep : merge b (l :: H) = merge (mergeLog b l) H := rfl
    rw [hstep, ih, mem_signers_mergeLog, or_assoc]
    simp only [List.exists_mem_cons_iff]

theorem mem_signers_history {H : List SignedLog} {h spa : String} :
    spa ∈ (signersOf (merge Dict.empty H) h).keys ↔
      ∃ l ∈ H, l.messageHash = h ∧ l.signingPolicyAddress = spa := by
  have hnone : spa ∉ (signersOf Dict.empty h).keys := by simp [signersOf]
  rw [mem_signers_merge]
  simp only [hnone, false_or]

/-- The leading hash depends on the weights of the signers only. -/
theorem leadingHash_congr {w w' : Weights} {H : List SignedLog}
    (hw : ∀ l ∈ H, w.of l.signingPolicyAddress = w'.of l.signingPolicyAddress) :
    leadingHash w (merge Dict.empty H) = leadingHash w' (merge Dict.empty H) := by
  have hsum : ∀ h, hashWeight w (signersOf (merge Dict.empty H) h) =
      hashWeight w' (signersOf (merge Dict.empty H) h) := by
    intro h
    have hmap : ∀ spa ∈ (signersOf (merge Dict.empty H) h).keys, w.of spa = w'.of spa := by
      intro spa hspa
      obtain ⟨l, hl, -, rfl⟩ := mem_signers_history.mp hspa
      exact hw l hl
    rw [hashWeight, hashWeight, List.map_congr_left hmap]
  unfold leadingHash
  rw [funext hsum]

/-- `our_signed` of the aggregate. -/
theorem ourIn_lead {voter : String} {w : Weights} {H : List SignedLog} :
    ourIn (some voter) (lead w (merge Dict.empty H)) = true ↔
      voter ≠ "" ∧ OurHashLeads voter H w := by
  have hin : ourIn (some voter) (lead w (merge Dict.empty H)) = true ↔
      voter ≠ "" ∧ Py.lower voter ∈ (lead w (merge Dict.empty H)).keys := by
    simp only [ourIn, Bool.and_eq_true, bne_iff_ne, Dict.contains, Dict.mem_keys]
  rw [hin]
  refine and_congr_right fun _ => ?_
  unfold OurHashLeads lead
  cases hl : leadingHash w (merge Dict.empty H) with
  | none => simp
  | some h =>
    have hmem := @mem_signers_history H h (Py.lower voter)
    rw [hmem]
    constructor
    · rintro ⟨l, hl', rfl, hspa⟩
      exact ⟨l, hl', hspa, rfl⟩
    · rintro ⟨l, hl', hspa, heq⟩
      exact ⟨l, hl', (Option.some.inj heq).symm, hspa⟩

/-! ## What the scan hands over -/

section

variable [External]

theorem refresh_progress {net : NetworkConfig} {epoch : Int} {spa : Option String} {endTs : Int}
    {kind : SigningKind} {cache cache' : ProgCache} {t : Trace} {p : SigningProgress}
    (h : RunsOn (refreshSigningProgress net epoch spa endTs kind) cache t (.ok p) cache')
    {st : CacheEntry} (hst : cache'.get? (net.name, epoch, kind) = some st) :
    p = st.progress epoch kind spa := by
  unfold refreshSigningProgress at h
  split at h
  · cases (runsOn_throw.mp h).2.1
  rcases runsOn_bind.mp h with ⟨latest, t₁, t₂, c₁, -, -, h₁⟩ | ⟨e, -, he⟩
  swap
  · cases he
  rcases runsOn_bind.mp h₁ with ⟨st₀, t₃, t₄, c₂, -, -, h₂⟩ | ⟨e, -, he⟩
  swap
  · cases he
  rcases runsOn_bind.mp h₂ with ⟨u, t₅, t₆, c₃, -, -, h₃⟩ | ⟨e, -, he⟩
  swap
  · cases he
  have h₄ := runsOn_get_bind.mp h₃
  obtain ⟨-, hp, rfl⟩ := runsOn_pure.mp h₄
  have hp' := Except.ok.inj hp
  rw [hst] at hp'
  exact hp'

/-- The scan that `_our_signed` made in the run `t` returned.  What it holds are the events `H`, in
the order in which it read them, and the weights `w` of their signers. -/
structure ScanCovers (s : Settings) (voter : String) (timing : Int × Int) (epoch : Int) (m : Mem)
    (t : Trace) (H : List SignedLog) (w : Weights) : Prop where
  configured : logsConfigured s = true
  scanned : ∃ t₁ t₂ t₃ progress cache st,
    t = t₁ ++ ⟨.called (.ourSigned epoch), ()⟩ :: (t₂ ++ t₃) ∧
    RunsOn (refreshSigningProgress s.net epoch (some voter) (epochEndTs timing epoch) .rewards)
      m.progCache t₂ (.ok progress) cache ∧
    cache.get? (s.net.name, epoch, .rewards) = some st ∧
    st.byHash = merge Dict.empty H ∧
    ∀ l ∈ H, st.weights.of l.signingPolicyAddress = w.of l.signingPolicyAddress

omit [External] in
/-- `our_signed` of a scan that covers the history. -/
theorem ourSigned_covered {H : List SignedLog} {w : Weights} {st : CacheEntry}
    (hb : st.byHash = merge Dict.empty H)
    (hw : ∀ l ∈ H, st.weights.of l.signingPolicyAddress = w.of l.signingPolicyAddress)
    (epoch : Int) (kind : SigningKind) (voter : String) :
    (st.progress epoch kind (some voter)).ourSigned = true ↔
      voter ≠ "" ∧ OurHashLeads voter H w := by
  have hour : (st.progress epoch kind (some voter)).ourSigned =
      ourIn (some voter) (lead st.weights (merge Dict.empty H)) := by
    rw [← hb]
    rfl
  rw [hour, ourIn_lead]
  unfold OurHashLeads
  rw [leadingHash_congr hw]

/-! ## The run after the scan -/

/-- `run_sign_rewards` was called for the epoch. -/
def Resigns (epoch : Int) (t : Trace) : Prop :=
  (⟨.called (.runSignRewards epoch), ()⟩ : Event sig) ∈ t

/-- The epoch is held back until its initial delay has passed. -/
def TooEarly (a : DriveArgs) (epoch : Int) : Prop := a.now < a.epochEndTs epoch + a.initialDelay

/-- No read of the reward file of the epoch gives an accepted file. -/
def Unpublished (s : Settings) (epoch : Int) (t : Trace) : Prop :=
  ∀ f, (⟨.readRewardDistributionData s.network epoch, f⟩ : Event sig) ∈ t →
    f.bind RewardDistributionFields.validate = none

/-- The exchanges that say nothing about the reward signature. -/
def Silent (epoch : Int) (e : Event sig) : Prop :=
  e.op ≠ .called (.ourSigned epoch) ∧ e.op ≠ .called (.runSignRewards epoch) ∧
    ∀ n, e.op ≠ .readRewardDistributionData n epoch

/-- What follows the scan, as the answer of the scan tells. -/
inductive AfterScan (a : DriveArgs) (epoch : Int) : Bool → Trace → Prop where
  | signed : AfterScan a epoch true []
  | early (h : TooEarly a epoch) : AfterScan a epoch false []
  | unpublished {f : Option RewardDistributionFields} (h : ¬ TooEarly a epoch)
      (hf : f.bind RewardDistributionFields.validate = none) :
      AfterScan a epoch false [⟨.readRewardDistributionData a.settings.network epoch, f⟩]
  | signs {f : Option RewardDistributionFields} {t : Trace} (h : ¬ TooEarly a epoch)
      (hf : f.bind RewardDistributionFields.validate ≠ none) :
      AfterScan a epoch false (⟨.readRewardDistributionData a.settings.network epoch, f⟩ ::
        ⟨.called (.runSignRewards epoch), ()⟩ :: t)

omit [External] in
theorem AfterScan.resigns_iff {a : DriveArgs} {epoch : Int} {ours : Bool} {t : Trace}
    (h : AfterScan a epoch ours t) :
    Resigns epoch t ↔ ours = false ∧ ¬ TooEarly a epoch ∧ ¬ Unpublished a.settings epoch t := by
  cases h with
  | signed => simp [Resigns]
  | early h => simp [Resigns, h]
  | @unpublished f h hf =>
    have hnot : Unpublished a.settings epoch
        [⟨.readRewardDistributionData a.settings.network epoch, f⟩] := by
      intro f' hf'
      cases List.mem_singleton.mp hf'
      exact hf
    simp [Resigns, hnot]
  | signs h hf =>
    refine iff_of_true (List.mem_cons_of_mem _ (List.mem_cons_self ..)) ⟨rfl, h, fun hu => ?_⟩
    exact hf (hu _ (List.mem_cons_self ..))

theorem rewardSignPhase_cases {a : DriveArgs} {epoch : Int} {actions : List Action} {m m' : Mem}
    {t : Trace} {r : Except Exc (Except EpochObs (List Action))}
    (h : RunsOn (rewardSignPhase a epoch actions) m t r m') :
    (AfterScan a epoch false t ∧ ∃ obs, r = .ok (.error obs)) ∨
      ¬ TooEarly a epoch ∧ ∃ f t', f.bind RewardDistributionFields.validate ≠ none ∧
        t = ⟨.readRewardDistributionData a.settings.network epoch, f⟩ ::
          ⟨.called (.runSignRewards epoch), ()⟩ :: t' := by
  unfold rewardSignPhase at h
  dsimp only at h
  split at h
  · rename_i hearly
    obtain ⟨rfl, rfl, -⟩ := runsOn_pure.mp h
    exact Or.inl ⟨.early hearly, _, rfl⟩
  rename_i hlate
  rcases runsOn_lift_bind.mp h with ⟨x, t₁, t₂, rfl, h₁, h₂⟩ | ⟨e, h₁, -⟩
  swap
  · obtain ⟨f, -, he⟩ := runs_getRewardDistributionData.mp h₁
    cases he
  obtain ⟨f, rfl, hx⟩ := runs_getRewardDistributionData.mp h₁
  have hx' : x = f.bind RewardDistributionFields.validate := Except.ok.inj hx
  split at h₂
  · obtain ⟨rfl, rfl, -⟩ := runsOn_pure.mp h₂
    exact Or.inl ⟨.unpublished hlate hx'.symm, _, rfl⟩
  have hval : f.bind RewardDistributionFields.validate ≠ none := by
    rw [← hx']
    simp
  have h₃ := runsOn_get_bind.mp h₂
  refine Or.inr ⟨hlate, f, ?_⟩
  rcases runsOn_lift_bind.mp h₃ with ⟨ro, t₃, t₄, rfl, h₄, -⟩ | ⟨e, h₄, -⟩
  · obtain ⟨t₅, rfl, -⟩ := runs_enter_bind.mp h₄
    exact ⟨t₅ ++ t₄, hval, rfl⟩
  · obtain ⟨t₅, rfl, -⟩ := runs_enter_bind.mp h₄
    exact ⟨t₅, hval, rfl⟩

/-! ## The run up to the scan -/

omit [External] in
theorem silent_rewardViews (a : DriveArgs) (epoch e' : Int) :
    Emits (rewardViews a epoch) (Silent e') := by
  have hrpc : ∀ (o : RpcOp) (x : Reply o.Res), Silent e' ⟨.rpc o, x⟩ := by
    intro o x
    refine ⟨?_, ?_, fun n => ?_⟩ <;> exact fun h => by cases h
  exact emits_bind (emits_rpc (hrpc _)) fun _ => emits_bind (emits_rpc (hrpc _)) fun _ =>
    emits_pure _

omit [External] in
theorem silent_of_kind {e : Event sig} {k : OpKind} (h : e.op.kind = k) (hk : k ≠ .entry)
    (hv : k ≠ .view) (epoch : Int) : Silent epoch e := by
  refine ⟨?_, ?_, fun n => ?_⟩
  · intro heq
    rw [heq] at h
    exact hk h.symm
  · intro heq
    rw [heq] at h
    exact hk h.symm
  · intro heq
    rw [heq] at h
    exact hv h.symm

omit [External] in
theorem allOf_silent {k : OpKind} (hk : k ≠ .entry) (hv : k ≠ .view) (epoch : Int) :
    AllOf k (Silent epoch) := fun _ he => silent_of_kind he hk hv epoch

theorem silent_uptimePhase (a : DriveArgs) (epoch : Int) :
    Emits (uptimePhase a epoch) (Silent epoch) := by
  refine emits_uptimePhase (allOf_silent ?_ ?_ _) (allOf_silent ?_ ?_ _) (allOf_silent ?_ ?_ _)
    (allOf_silent ?_ ?_ _) a epoch ⟨?_, ?_, fun n => ?_⟩
  all_goals simp

theorem silent_refresh (net : NetworkConfig) (epoch : Int) (spa : Option String) (endTs : Int)
    (kind : SigningKind) (e' : Int) :
    EmitsOn (refreshSigningProgress net epoch spa endTs kind) (Silent e') :=
  emitsOn_refreshSigningProgress (allOf_silent (by simp) (by simp) e') net epoch spa endTs kind

/-! ## The run around the scan -/

omit [External] in
theorem AfterScan.append {a : DriveArgs} {epoch : Int} {ours : Bool} {t : Trace}
    (h : AfterScan a epoch ours t) (hs : Resigns epoch t) (u : Trace) :
    AfterScan a epoch ours (t ++ u) := by
  cases h with
  | signs h hf => exact .signs h hf
  | signed => simp [Resigns] at hs
  | early h => simp [Resigns] at hs
  | unpublished h hf => simp [Resigns] at hs

variable {s : Settings} {voter : String} {claimers : List (Int × String)} {now : ℚ}
  {timing : Int × Int} {epoch : Int} {m m' : Mem} {t : Trace}

theorem ourSigned_cases (hlog : logsConfigured s = true) {r : Except Exc Bool}
    (h : RunsOn (ourSigned s voter timing epoch) m t r m') :
    ∃ t' x cache, t = ⟨.called (.ourSigned epoch), ()⟩ :: t' ∧
      RunsOn (refreshSigningProgress s.net epoch (some voter) (epochEndTs timing epoch) .rewards)
        m.progCache t' x cache ∧ ∀ p, x = .ok p → r = .ok p.ourSigned := by
  obtain ⟨t', rfl, h₁⟩ := runsOn_enter_bind.mp h
  rw [if_pos hlog] at h₁
  obtain ⟨x, t₁, t₂, m₁, rfl, h₂, h₃⟩ := runsOn_attempt_bind.mp h₁
  obtain ⟨cache, h₄, -⟩ := runsOn_focus.mp h₂
  have ht₂ : t₂ = [] ∧ ∀ p, x = .ok p → r = .ok p.ourSigned := by
    split at h₃
    · obtain ⟨rfl, rfl, -⟩ := runsOn_pure.mp h₃
      refine ⟨rfl, fun p hp => ?_⟩
      rw [Except.ok.inj hp]
    · obtain ⟨rfl, -, -⟩ := runsOn_pure.mp h₃
      exact ⟨rfl, fun p hp => by cases hp⟩
    · obtain ⟨rfl, -, -⟩ := runsOn_throw.mp h₃
      exact ⟨rfl, fun p hp => by cases hp⟩
  obtain ⟨rfl, hr⟩ := ht₂
  exact ⟨t₁, x, cache, by rw [List.append_nil], h₄, hr⟩

/-- Either the log is not asked, or the scan starts after exchanges that say nothing. -/
theorem rewardState_cases (hlog : logsConfigured s = true) {r : Except Exc (Bool × Bool)}
    (h : RunsOn (rewardState (daemonArgs s voter claimers now timing) epoch) m t r m') :
    (∀ e ∈ t, Silent epoch e) ∨ ∃ t₁ t₂ x cache,
      t = t₁ ++ ⟨.called (.ourSigned epoch), ()⟩ :: t₂ ∧ (∀ e ∈ t₁, Silent epoch e) ∧
      RunsOn (refreshSigningProgress s.net epoch (some voter) (epochEndTs timing epoch) .rewards)
        m.progCache t₂ x cache ∧ ∀ p, x = .ok p → r = .ok (false, p.ourSigned) := by
  unfold rewardState at h
  rcases runsOn_lift_bind.mp h with ⟨y, t₁, t₂, rfl, h₁, h₂⟩ | ⟨e, h₁, -⟩
  swap
  · obtain ⟨y, -, he⟩ := runs_attempt.mp h₁
    cases he
  have hviews : ∀ e ∈ t₁, Silent epoch e := by
    obtain ⟨z, hz, -⟩ := runs_attempt.mp h₁
    exact silent_rewardViews _ _ _ _ _ hz
  split at h₂
  · obtain ⟨rfl, -, -⟩ := runsOn_pure.mp h₂
    rw [List.append_nil]
    exact Or.inl hviews
  · split at h₂
    · -- the views revert: `_our_signed` is asked
      have h₃ : RunsOn (ourSigned s voter timing epoch >>= fun signed => pure (false, signed)) m t₂
          r m' := h₂
      refine Or.inr ?_
      rcases runsOn_bind.mp h₃ with ⟨signed, t₃, t₄, m₁, rfl, h₄, h₅⟩ | ⟨e, h₄, rfl⟩
      · obtain ⟨t₅, x, cache, rfl, hscan, hr⟩ := ourSigned_cases hlog h₄
        obtain ⟨rfl, rfl, -⟩ := runsOn_pure.mp h₅
        refine ⟨t₁, t₅, x, cache, by rw [List.append_nil], hviews, hscan, fun p hp => ?_⟩
        rw [Except.ok.inj (hr p hp)]
      · obtain ⟨t₅, x, cache, rfl, hscan, hr⟩ := ourSigned_cases hlog h₄
        exact ⟨t₁, t₅, x, cache, rfl, hviews, hscan, fun p hp => by cases hr p hp⟩
    · obtain ⟨rfl, -, -⟩ := runsOn_throw.mp h₂
      rw [List.append_nil]
      exact Or.inl hviews
  · obtain ⟨rfl, -, -⟩ := runsOn_throw.mp h₂
    rw [List.append_nil]
    exact Or.inl hviews

omit [External] in
theorem allOf_notAsked {k : OpKind} (hk : k ≠ .entry) :
    AllOf k fun e => e.op ≠ .called (.ourSigned epoch) := by
  intro e he heq
  rw [heq] at he
  exact hk he.symm

/-- The reward phase: what precedes the scan says nothing, what follows is as its answer tells. -/
theorem rewardPhase_cases (hlog : logsConfigured s = true) {actions : List Action}
    {r : Except Exc (Except EpochObs (List Action))}
    (h : RunsOn (rewardPhase (daemonArgs s voter claimers now timing) epoch actions) m t r m') :
    (∀ e ∈ t, e.op ≠ .called (.ourSigned epoch)) ∨ ∃ t₁ t₂ t₃ x cache,
      t = t₁ ++ ⟨.called (.ourSigned epoch), ()⟩ :: (t₂ ++ t₃) ∧ (∀ e ∈ t₁, Silent epoch e) ∧
      RunsOn (refreshSigningProgress s.net epoch (some voter) (epochEndTs timing epoch) .rewards)
        m.progCache t₂ x cache ∧ (∀ e ∈ t₃, e.op ≠ .called (.ourSigned epoch)) ∧
      ∀ p, x = .ok p → AfterScan (daemonArgs s voter claimers now timing) epoch p.ourSigned t₃ ∧
        ∀ acts, r = .ok (.ok acts) → Resigns epoch t₃ := by
  have htail : EmitsOn (rewardSignPhase (daemonArgs s voter claimers now timing) epoch actions)
      fun e => e.op ≠ .called (.ourSigned epoch) := by
    refine emitsOn_rewardSignPhase (allOf_notAsked ?_) (allOf_notAsked ?_) (allOf_notAsked ?_)
      (allOf_notAsked ?_) (allOf_notAsked ?_) _ _ _ ?_
    all_goals simp
  unfold rewardPhase at h
  rcases runsOn_bind.mp h with ⟨st, u, v, m₁, rfl, h₁, h₂⟩ | ⟨e, h₁, rfl⟩
  · have hv : (∀ e ∈ v, e.op ≠ .called (.ourSigned epoch)) ∧
        ∀ ours, st = (false, ours) →
          AfterScan (daemonArgs s voter claimers now timing) epoch ours v ∧
            ∀ acts, r = .ok (.ok acts) → Resigns epoch v := by
      split at h₂
      · rename_i hfinal
        obtain ⟨rfl, -, -⟩ := runsOn_pure.mp h₂
        refine ⟨by simp, fun ours hst => ?_⟩
        rw [hst] at hfinal
        cases hfinal
      split at h₂
      · rename_i hours
        obtain ⟨rfl, rfl, -⟩ := runsOn_pure.mp h₂
        refine ⟨by simp, fun ours hst => ?_⟩
        rw [hst] at hours
        obtain rfl : ours = true := hours
        exact ⟨.signed, fun acts hr => by cases hr⟩
      · rename_i hours
        refine ⟨htail _ _ _ _ h₂, fun ours hst => ?_⟩
        rw [hst] at hours
        obtain rfl : ours = false := by simpa using hours
        rcases rewardSignPhase_cases h₂ with ⟨hafter, obs, rfl⟩ | ⟨hlate, f, t', hval, rfl⟩
        · exact ⟨hafter, fun acts hr => by cases hr⟩
        · exact ⟨.signs hlate hval, fun _ _ => List.mem_cons_of_mem _ (List.mem_cons_self ..)⟩
    rcases rewardState_cases hlog h₁ with hsil | ⟨t₁, t₂, x, cache, rfl, hsil, hscan, hr⟩
    · refine Or.inl fun e he => ?_
      rcases List.mem_append.mp he with he | he
      · exact (hsil e he).1
      · exact hv.1 e he
    · refine Or.inr ⟨t₁, t₂, v, x, cache, by simp, hsil, hscan, hv.1, fun p hp => ?_⟩
      exact hv.2 _ (Except.ok.inj (hr p hp))
  · rcases rewardState_cases hlog h₁ with hsil | ⟨t₁, t₂, x, cache, rfl, hsil, hscan, hr⟩
    · exact Or.inl fun e he => (hsil e he).1
    · refine Or.inr ⟨t₁, t₂, [], x, cache, by rw [List.append_nil], hsil, hscan, by simp, ?_⟩
      exact fun p hp => by cases hr p hp

/-- A run of `drive_epoch` in which the log was asked, split at the question. -/
theorem driveEpoch_asked (hlog : logsConfigured s = true) {r : Except Exc EpochObs}
    (h : RunsOn (driveEpoch (daemonArgs s voter claimers now timing) epoch) m t r m')
    (hasked : (⟨.called (.ourSigned epoch), ()⟩ : Event sig) ∈ t) :
    ∃ t₁ t₂ t₃ x cache,
      t = t₁ ++ ⟨.called (.ourSigned epoch), ()⟩ :: (t₂ ++ t₃) ∧ (∀ e ∈ t₁, Silent epoch e) ∧
      RunsOn (refreshSigningProgress s.net epoch (some voter) (epochEndTs timing epoch) .rewards)
        m.progCache t₂ x cache ∧ (∀ e ∈ t₃, e.op ≠ .called (.ourSigned epoch)) ∧
      ∀ p, x = .ok p →
        AfterScan (daemonArgs s voter claimers now timing) epoch p.ourSigned t₃ := by
  obtain ⟨t', rfl, h₁⟩ := runsOn_enter_bind.mp h
  have hmark : Silent epoch (⟨.called (.driveEpoch epoch), ()⟩ : Event sig) :=
    ⟨by simp, by simp, by simp⟩
  -- neither the mark nor the uptime phase asks the log
  rcases runsOn_lift_bind.mp h₁ with ⟨acts, tu, tv, rfl, h₂, h₃⟩ | ⟨e, h₂, -⟩
  swap
  · have hsil := silent_uptimePhase _ _ _ _ h₂
    rcases List.mem_cons.mp hasked with he | he
    · cases he
    · exact absurd rfl (hsil _ he).1
  have hsil : ∀ e ∈ (⟨.called (.driveEpoch epoch), ()⟩ : Event sig) :: tu, Silent epoch e :=
    List.forall_mem_cons.mpr ⟨hmark, silent_uptimePhase _ _ _ _ h₂⟩
  have hclaims : ∀ cs, Emits (claimStreams s epoch cs)
      fun e => e.op ≠ .called (.ourSigned epoch) := by
    intro cs
    refine emits_claimStreams (allOf_notAsked ?_) (allOf_notAsked ?_) (allOf_notAsked ?_)
      (allOf_notAsked ?_) (allOf_notAsked ?_) _ _ _ ?_
    all_goals simp
  -- the claims come after the reward phase
  obtain ⟨tr, tc, x, m₁, rfl, h₄, htc, hgo⟩ : ∃ tr tc x m₁, tv = tr ++ tc ∧
      RunsOn (rewardPhase (daemonArgs s voter claimers now timing) epoch acts) m tr x m₁ ∧
      (∀ e ∈ tc, e.op ≠ .called (.ourSigned epoch)) ∧
      (tc ≠ [] → ∃ acts, x = .ok (.ok acts)) := by
    rcases runsOn_bind.mp h₃ with ⟨y, tr, tc, m₁, rfl, h₄, h₅⟩ | ⟨e, h₄, -⟩
    · refine ⟨tr, tc, .ok y, m₁, rfl, h₄, ?_⟩
      split at h₅
      · obtain ⟨rfl, -, -⟩ := runsOn_pure.mp h₅
        exact ⟨by simp, fun hne => absurd rfl hne⟩
      · refine ⟨?_, fun _ => ⟨_, rfl⟩⟩
        exact emitsOn_bind (emitsOn_lift (hclaims _)) (fun _ => emitsOn_pure _) _ _ _ _ h₅
    · exact ⟨tv, [], .error e, m', by rw [List.append_nil], h₄, by simp, fun hne => absurd rfl hne⟩
  rcases rewardPhase_cases hlog h₄ with hnot | ⟨t₁, t₂, t₃, y, cache, rfl, hs₁, hscan, hn₃, hafter⟩
  · have hall : ∀ e ∈ (⟨.called (.driveEpoch epoch), ()⟩ : Event sig) :: (tu ++ (tr ++ tc)),
        e.op ≠ .called (.ourSigned epoch) := by
      intro e he
      rw [← List.cons_append] at he
      rcases List.mem_append.mp he with he | he
      · exact (hsil e he).1
      · rcases List.mem_append.mp he with he | he
        · exact hnot e he
        · exact htc e he
    exact absurd rfl (hall _ hasked)
  · refine ⟨⟨.called (.driveEpoch epoch), ()⟩ :: tu ++ t₁, t₂, t₃ ++ tc, y, cache, by simp, ?_,
      hscan, ?_, fun p hp => ?_⟩
    · intro e he
      rcases List.mem_append.mp he with he | he
      · exact hsil e he
      · exact hs₁ e he
    · intro e he
      rcases List.mem_append.mp he with he | he
      · exact hn₃ e he
      · exact htc e he
    · obtain ⟨hp₁, hp₂⟩ := hafter p hp
      by_cases hne : tc = []
      · rw [hne, List.append_nil]
        exact hp₁
      · obtain ⟨acts', rfl⟩ := hgo hne
        exact hp₁.append (hp₂ _ rfl) tc

/-! ## When we sign again -/

/-- A run whose scan covers the history keeps us from signing again, if our vote is in it, exactly
when the leading hash is one of ours, or the signature was not due in this cycle anyway. -/
theorem notResigned_iff {H : List SignedLog} {w : Weights} {r : Except Exc EpochObs}
    (h : RunsOn (driveEpoch (daemonArgs s voter claimers now timing) epoch) m t r m')
    (hc : ScanCovers s voter timing epoch m t H w) :
    (Voted voter H → ¬ Resigns epoch t) ↔
      ¬ Voted voter H ∨ OurHashLeads voter H w ∨
        TooEarly (daemonArgs s voter claimers now timing) epoch ∨ Unpublished s epoch t := by
  obtain ⟨u₁, u₂, u₃, p, cache', st, rfl, hscan', hst, hb, hw⟩ := hc.scanned
  obtain ⟨t₁, t₂, t₃, x, cache, ht, hs₁, hscan, hn₃, hafter⟩ :=
    driveEpoch_asked hc.configured h (by simp)
  -- both splits name the only question and the scan after it
  have hs₂ : ∀ e ∈ t₂, Silent epoch e := silent_refresh _ _ _ _ _ _ _ _ _ _ hscan
  have hno₁ : (⟨.called (.ourSigned epoch), ()⟩ : Event sig) ∉ t₁ := fun he => (hs₁ _ he).1 rfl
  have hno₂ : (⟨.called (.ourSigned epoch), ()⟩ : Event sig) ∉ t₂ ++ t₃ := by
    intro he
    rcases List.mem_append.mp he with he | he
    · exact (hs₂ _ he).1 rfl
    · exact hn₃ _ he rfl
  obtain ⟨rfl, -, hrest⟩ := (List.append_cons_inj_of_notMem hno₁ hno₂).mp ht.symm
  obtain ⟨rfl, hx, rfl⟩ := Prog.Runs.prefix_unique hscan hscan' hrest
  obtain ⟨rfl, -⟩ := Prod.mk.inj hx
  have hours : p.ourSigned = true ↔ voter ≠ "" ∧ OurHashLeads voter H w := by
    rw [refresh_progress hscan' hst]
    exact ourSigned_covered hb hw epoch .rewards voter
  have hres : Resigns epoch (t₁ ++ ⟨.called (.ourSigned epoch), ()⟩ :: (t₂ ++ t₃)) ↔
      Resigns epoch t₃ := by
    unfold Resigns
    have h₁ : (⟨.called (.runSignRewards epoch), ()⟩ : Event sig) ∉ t₁ := fun he =>
      (hs₁ _ he).2.1 rfl
    have h₂ : (⟨.called (.runSignRewards epoch), ()⟩ : Event sig) ∉ t₂ := fun he =>
      (hs₂ _ he).2.1 rfl
    simp [h₁, h₂]
  have hpub : Unpublished s epoch (t₁ ++ ⟨.called (.ourSigned epoch), ()⟩ :: (t₂ ++ t₃)) ↔
      Unpublished s epoch t₃ := by
    have h₁ : ∀ f, (⟨.readRewardDistributionData s.network epoch, f⟩ : Event sig) ∉ t₁ :=
      fun f he => (hs₁ _ he).2.2 _ rfl
    have h₂ : ∀ f, (⟨.readRewardDistributionData s.network epoch, f⟩ : Event sig) ∉ t₂ :=
      fun f he => (hs₂ _ he).2.2 _ rfl
    unfold Unpublished
    simp [h₁, h₂]
  rw [hres, hpub, (hafter p rfl).resigns_iff]
  by_cases hv : Voted voter H
  · have hlead : p.ourSigned = false ↔ ¬ OurHashLeads voter H w := by
      rw [← Bool.not_eq_true, hours]
      simp [hv.1]
    rw [hlead]
    simp only [hv, not_true_eq_false, false_or, true_implies]
    tauto
  · simp [hv]

end

/-! ### A heavier hash -/

def ourSpa : String := "0x0202020202020202020202020202020202020202"
def rivalSpa : String := "0x0303030303030303030303030303030303030303"

def voteFor (h spa : String) : SignedLog :=
  { signingPolicyAddress := spa
    voter := spa
    messageHash := h
    thresholdReached := false
    timestamp := 0
    blockNumber := 1 }

/-- A rival's vote for one hash, and ours for another. -/
def splitHistory : List SignedLog := [voteFor "0xaa" rivalSpa, voteFor "0xbb" ourSpa]

def splitWeights (ours : Int) : Weights :=
  (Weights.empty.learn rivalSpa rivalSpa 60).learn ourSpa ourSpa ours

/-- The daemon's memory after a cycle that scanned both votes. -/
def splitMem : Mem :=
  { progCache := Dict.empty.set (.flare, 5, .rewards)
      ⟨100, 500000, Weights.empty, merge Dict.empty splitHistory, 3, 0, true⟩ }

/-- The views revert, the head is where the scan ended, and the reward file is there. -/
def splitNode (ours : Int) : (op : Op) → op.Ans
  | .rpc .blockNumber => .result 3
  | .rpc (.rewardsHash ..) => .error "execution reverted: not signed yet"
  | .rpc (.voterNormalisedWeight _ _ spa) => .result (spa, if spa = ourSpa then ours else 60)
  | .readRewardDistributionData _ _ => some rootOnlyFile.fields
  | op => deafWorld op

def loggingSettings : Settings := { sampleSettings with logsRpcFor := fun _ => some "logs" }

def splitScan (ours : Int) : Trace × Except Exc SigningProgress × ProgCache :=
  @execOn sig Exc ProgCache SigningProgress (splitNode ours)
    (@refreshSigningProgress External.static loggingSettings.net 5 (some ourSpa)
      (epochEndTs (0, 1) 5) .rewards) splitMem.progCache

def splitDrive (ours : Int) : Trace × Except Exc EpochObs × Mem :=
  @execOn sig Exc Mem EpochObs (splitNode ours)
    (@driveEpoch External.static
      (@daemonArgs External.static loggingSettings ourSpa [] 10000 (0, 1)) 5) splitMem

theorem splitDrive_runs (ours : Int) :
    RunsOn (@driveEpoch External.static
      (@daemonArgs External.static loggingSettings ourSpa [] 10000 (0, 1)) 5) splitMem
      (splitDrive ours).1 (splitDrive ours).2.1 (splitDrive ours).2.2 :=
  execOn_runs (S := sig) _ _ _

def isCall (c : Call) (e : Event sig) : Bool :=
  match e.op with
  | .called c' => c' == c
  | _ => false

theorem called_mem {c : Call} {t : Trace} (h : t.any (isCall c) = true) :
    (⟨.called c, ()⟩ : Event sig) ∈ t := by
  obtain ⟨⟨op, ans⟩, he, hc⟩ := List.any_eq_true.mp h
  cases op with
  | called c' =>
    obtain rfl : c' = c := by simpa [isCall] using hc
    exact he
  | _ => cases hc

/-- The entry holds the votes of the history and the weights. -/
def holdsSplit (ours : Int) (st : CacheEntry) : Bool :=
  decide (st.byHash = merge Dict.empty splitHistory) && splitHistory.all fun l =>
    decide (st.weights.of l.signingPolicyAddress = (splitWeights ours).of l.signingPolicyAddress)

theorem splitScan_covers {ours : Int}
    (hscan : (splitScan ours).2.1.isOk = true)
    (hst : ((splitScan ours).2.2.get? (.flare, 5, .rewards)).any (holdsSplit ours) = true)
    (hasked : (splitDrive ours).1.any (isCall (.ourSigned 5)) = true) :
    @ScanCovers External.static loggingSettings ourSpa (0, 1) 5 splitMem (splitDrive ours).1
      splitHistory (splitWeights ours) := by
  have hlog : logsConfigured loggingSettings = true := by decide
  obtain ⟨t₁, t₂, t₃, x, cache, ht, -, hrun, -, -⟩ :=
    @driveEpoch_asked External.static _ _ _ _ _ _ _ _ _ hlog _ (splitDrive_runs ours)
      (called_mem hasked)
  -- the scan in the run is the scan of that world
  have henv : ∀ e ∈ t₂, e.ans = splitNode ours e.op := by
    intro e he
    have hmem : e ∈ (splitDrive ours).1 := by
      rw [ht]
      simp [he]
    exact Prog.exec_answers _ _ e hmem
  have hexec : splitScan ours = (t₂, x, cache) := Prog.Runs.eq_exec hrun henv
  rw [hexec] at hscan hst
  cases x with
  | error e => cases hscan
  | ok p =>
    obtain ⟨st, hget, hholds⟩ : ∃ st, cache.get? (.flare, 5, .rewards) = some st ∧
        holdsSplit ours st = true := by
      cases hget : cache.get? (.flare, 5, .rewards) with
      | none =>
        rw [hget] at hst
        cases hst
      | some st =>
        rw [hget] at hst
        exact ⟨st, rfl, hst⟩
    obtain ⟨hb, hw⟩ := Bool.and_eq_true_iff.mp hholds
    refine @ScanCovers.mk External.static _ _ _ _ _ _ _ _ hlog
      ⟨t₁, t₂, t₃, p, cache, st, ht, hrun, hget, of_decide_eq_true hb, ?_⟩
    intro l hl
    exact of_decide_eq_true (List.all_eq_true.mp hw l hl)

theorem splitScan_outvoted :
    (splitScan 40).2.1.isOk = true ∧
      ((splitScan 40).2.2.get? (.flare, 5, .rewards)).any (holdsSplit 40) = true ∧
      (splitDrive 40).1.any (isCall (.ourSigned 5)) = true ∧
      (splitDrive 40).1.any (isCall (.runSignRewards 5)) = true := by decide +kernel

theorem voted_split : Voted ourSpa splitHistory :=
  ⟨by decide, voteFor "0xbb" ourSpa, by simp [splitHistory], by decide⟩

/-- Our vote is in the log, for the lighter hash: the epoch is signed again. -/
theorem outvoted_resigns :
    ∃ t r m', RunsOn (@driveEpoch External.static
        (@daemonArgs External.static loggingSettings ourSpa [] 10000 (0, 1)) 5) splitMem t r m' ∧
      @ScanCovers External.static loggingSettings ourSpa (0, 1) 5 splitMem t splitHistory
        (splitWeights 40) ∧
      Voted ourSpa splitHistory ∧ Resigns 5 t := by
  obtain ⟨hscan, hst, hasked, hres⟩ := splitScan_outvoted
  exact ⟨_, _, _, splitDrive_runs 40, splitScan_covers hscan hst hasked, voted_split,
    called_mem hres⟩

theorem splitScan_leading :
    (splitScan 80).2.1.isOk = true ∧
      ((splitScan 80).2.2.get? (.flare, 5, .rewards)).any (holdsSplit 80) = true ∧
      (splitDrive 80).1.any (isCall (.ourSigned 5)) = true := by decide +kernel

/-- With our vote on the heavier hash the epoch is not signed again. -/
theorem notResigned_iff_leading : ¬ Resigns 5 (splitDrive 80).1 := by
  obtain ⟨hscan, hst, hasked⟩ := splitScan_leading
  have hleads : OurHashLeads ourSpa splitHistory (splitWeights 80) :=
    ⟨voteFor "0xbb" ourSpa, by simp [splitHistory], by decide +kernel, by decide +kernel⟩
  exact (@notResigned_iff External.static _ _ _ _ _ _ _ _ _ _ _ _ (splitDrive_runs 80)
    (splitScan_covers hscan hst hasked)).mpr (Or.inr (Or.inl hleads)) voted_split

end Clif
