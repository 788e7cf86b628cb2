import Mathlib.Algebra.Order.Ring.Cast
import Mathlib.Algebra.Order.Ring.Rat
import Mathlib.Tactic.Linarith
import Clif.Cycle
import Clif.Effect.Wp

/-!
# TerminalLoud — which failed-terminal actions an operator hears of

A cycle records actions of three kinds of legs.  `loud_iff` says for which of the failed-terminal
ones the epoch goes into terminal cooldown with every report degraded until it ends: an action of
the uptime leg alone never does, and a later drive that raises takes the record of the active epochs
with it.
-/

namespace Clif

open Effect

/-! ## The memory of the reward signatures -/

/-- Only the retries counted for the epoch may differ. -/
def OthersKept (epoch : Int) (m m' : Mem) : Prop := ∀ e, e ≠ epoch → m'.retries e = m.retries e

theorem OthersKept.refl {epoch : Int} {m : Mem} : OthersKept epoch m m := fun _ _ => rfl

theorem othersKept_bump {epoch : Int} {m : Mem} : OthersKept epoch m (m.bump epoch) := by
  intro e he
  simp [Mem.retries, Mem.bump, Dict.get?_set, Ne.symm he]

theorem retries_bump {epoch : Int} {m : Mem} :
    (m.bump epoch).retries epoch = m.retries epoch + 1 := by
  simp [Mem.retries, Mem.bump]

/-! ## The actions of one drive -/

theorem OutcomeStatus.value_inj {s₁ s₂ : OutcomeStatus} (h : s₁.value = s₂.value) : s₁ = s₂ := by
  cases s₁ <;> cases s₂ <;> first | rfl | exact absurd h (by decide)

/-- An action of the observation, of whichever leg, is failed-terminal. -/
def EpochObs.FailedTerminal (o : EpochObs) : Prop :=
  ∃ x ∈ o.actions, x.2.1 = OutcomeStatus.failedTerminal.value

/-- A leg other than the uptime vote ended the epoch for good: the reward signature or a claim
stream is failed-terminal, or the signature used up its retries. -/
def EpochObs.Ended (m : Mem) (o : EpochObs) : Prop :=
  (∃ x ∈ o.actions, x.1 ≠ "uptime" ∧ x.2.1 = OutcomeStatus.failedTerminal.value) ∨
    ((∃ x ∈ o.actions, x.1 = "rewards" ∧ x.2.1 = OutcomeStatus.failedRetryable.value) ∧
      maxRewardSignRetries ≤ m.retries o.epoch + 1)

/-- What the reward phase appends to the actions, and whether it ends the epoch for good. -/
def SignActions (m : Mem) (epoch : Int) (tail : List Action) (b : Bool) : Prop :=
  (tail = [] ∧ b = false) ∨
    ∃ st d, tail = [("rewards", OutcomeStatus.value st, d)] ∧
      (b = true ↔ st = .failedTerminal ∨
        (st = .failedRetryable ∧ maxRewardSignRetries ≤ m.retries epoch + 1))

/-- What the reward phase leaves: an observation that ends the drive, or actions to go on with. -/
def PhasePost (m : Mem) (epoch : Int) (pre : List Action) :
    Except Exc (Except EpochObs (List Action)) → Mem → Prop
  | .ok (.error o), m' => OthersKept epoch m m' ∧ o.epoch = epoch ∧ o.done = false ∧
      ∃ tail, o.actions = pre ++ tail ∧ SignActions m epoch tail o.terminal
  | .ok (.ok acts), m' => OthersKept epoch m m' ∧
      ∃ tail, acts = pre ++ tail ∧ SignActions m epoch tail false
  | .error _, m' => OthersKept epoch m m'

theorem afterSign_post {m : Mem} {epoch : Int} {net : Network} {pre : List Action}
    {ro : FspOutcome} {h : Trace} :
    WpOn (afterSign epoch net pre ro) (fun r _ m' => PhasePost m epoch pre r m') h m := by
  unfold afterSign
  dsimp only
  have hone : ∀ b : Bool, (b = true ↔ ro.status = .failedTerminal ∨
      (ro.status = .failedRetryable ∧ maxRewardSignRetries ≤ m.retries epoch + 1)) →
      SignActions m epoch [("rewards", ro.status.value, ro.detail)] b := fun b hb =>
    Or.inr ⟨ro.status, ro.detail, rfl, hb⟩
  split
  · rename_i hst
    exact wpOn_pure.mpr ⟨.refl, rfl, rfl, _, rfl, hone _ (by simp [hst])⟩
  · rename_i hst
    exact wpOn_pure.mpr ⟨.refl, _, rfl, hone _ (by simp [hst])⟩
  · rename_i hst
    rw [wpOn_modify_bind, wpOn_get_bind, retries_bump]
    by_cases hmax : maxRewardSignRetries ≤ m.retries epoch + 1
    · rw [if_pos hmax]
      exact wpOn_pure.mpr ⟨othersKept_bump, rfl, rfl, _, rfl, hone _ (by simp [hst, hmax])⟩
    · rw [if_neg hmax]
      exact wpOn_pure.mpr ⟨othersKept_bump, rfl, rfl, _, rfl, hone _ (by simp [hst, hmax])⟩
  · rename_i hnt _ hnr
    refine wpOn_pure.mpr ⟨.refl, rfl, rfl, _, rfl, hone _ ?_⟩
    simp only [Bool.false_eq_true, false_iff, not_or, not_and]
    exact ⟨hnt, fun hc => absurd hc hnr⟩

/-- Whether an observation is terminal, from its actions. -/
theorem terminal_iff {m : Mem} {epoch : Int} {o : EpochObs} {up tail : List Action}
    (hup : ∀ x ∈ up, x.1 = "uptime") (hacts : o.actions = up ++ tail) (he : o.epoch = epoch)
    (hs : SignActions m epoch tail o.terminal) : o.terminal = true ↔ o.Ended m := by
  have hne : ("rewards" : String) ≠ "uptime" := by decide
  have hmem : ∀ (P : Action → Prop), (∀ x ∈ up, ¬P x) →
      ((∃ x ∈ o.actions, P x) ↔ ∃ x ∈ tail, P x) := fun P hP => by
    rw [hacts]
    simp only [List.mem_append, or_and_right, exists_or]
    exact or_iff_right fun ⟨x, hx, hPx⟩ => hP x hx hPx
  unfold EpochObs.Ended
  rw [hmem _ fun x hx hc => hc.1 (hup x hx), hmem _ fun x hx hc => hne (hc.1.symm.trans (hup x hx)),
    he]
  rcases hs with ⟨rfl, hb⟩ | ⟨st, d, rfl, hb⟩
  · simp [hb]
  · rw [hb]
    simp only [List.mem_singleton, exists_eq_left, ne_eq, hne, not_false_eq_true, true_and]
    refine or_congr ⟨fun h => by rw [h], OutcomeStatus.value_inj⟩
      (and_congr_left fun _ => ⟨fun h => by rw [h], OutcomeStatus.value_inj⟩)

theorem claimLeg_ne_uptime (s : String) : "claim:" ++ s ≠ "uptime" := by
  intro h
  have hl := congrArg String.toList h
  simp at hl

theorem claimLeg_ne_rewards (s : String) : "claim:" ++ s ≠ "rewards" := by
  intro h
  have hl := congrArg String.toList h
  simp at hl

theorem claimObs_terminal_eq (epoch : Int) (acts : List Action) (cos : List ClaimOutcome) :
    ((claimObs epoch acts cos).terminal = true ↔ ∃ co ∈ cos, co.status = .failedTerminal) ∧
      ((claimObs epoch acts cos).terminal = true → (claimObs epoch acts cos).done = false) := by
  unfold claimObs
  dsimp only
  split
  · rename_i hall
    have hdone := List.all_eq_true.mp hall
    refine ⟨⟨fun h => by simp at h, fun ⟨co, hco, hst⟩ => ?_⟩, fun h => by simp at h⟩
    have hin := hdone co hco
    rw [hst] at hin
    exact absurd hin (by decide)
  · simp [List.any_eq_true]

theorem claimObs_terminal {m : Mem} {epoch : Int} {up tail : List Action} {cos : List ClaimOutcome}
    (hup : ∀ x ∈ up, x.1 = "uptime") (hs : SignActions m epoch tail false) :
    (claimObs epoch (up ++ tail) cos).terminal = true ↔
      (claimObs epoch (up ++ tail) cos).Ended m := by
  have hacts : (claimObs epoch (up ++ tail) cos).actions = up ++ tail ++
      cos.map fun co => ("claim:" ++ co.claimTypeName, co.status.value, co.detail) := by
    unfold claimObs
    dsimp only
    split <;> rfl
  rw [(claimObs_terminal_eq epoch (up ++ tail) cos).1]
  unfold EpochObs.Ended
  rw [hacts, claimObs_epoch]
  constructor
  · rintro ⟨co, hco, hst⟩
    refine Or.inl ⟨_, List.mem_append_right _ (List.mem_map_of_mem hco),
      claimLeg_ne_uptime _, by rw [hst]⟩
  · rintro (⟨x, hx, hleg, hst⟩ | ⟨⟨x, hx, hleg, hst⟩, hmax⟩)
    · rcases List.mem_append.mp hx with hx | hx
      · rcases List.mem_append.mp hx with hx | hx
        · exact absurd (hup x hx) hleg
        · rcases hs with ⟨rfl, -⟩ | ⟨st, d, rfl, hb⟩
          · simp at hx
          · rw [List.mem_singleton.mp hx] at hst
            exact absurd (hb.mpr (Or.inl (OutcomeStatus.value_inj hst))) (by simp)
      · obtain ⟨co, hco, rfl⟩ := List.mem_map.mp hx
        exact ⟨co, hco, OutcomeStatus.value_inj hst⟩
    · rcases List.mem_append.mp hx with hx | hx
      · rcases List.mem_append.mp hx with hx | hx
        · exact absurd ((hup x hx).symm.trans hleg) (by decide)
        · rcases hs with ⟨rfl, -⟩ | ⟨st, d, rfl, hb⟩
          · simp at hx
          · rw [List.mem_singleton.mp hx] at hst
            exact absurd (hb.mpr (Or.inr ⟨OutcomeStatus.value_inj hst, hmax⟩)) (by simp)
      · obtain ⟨co, hco, rfl⟩ := List.mem_map.mp hx
        exact absurd hleg (claimLeg_ne_rewards _)

section

variable [External]

/-- The event check of the daemon leaves the retries alone. -/
theorem ourSigned_kept {s : Settings} {voter : String} {timing : Int × Int} {epoch : Int}
    {m : Mem} {h : Trace} :
    WpOn (ourSigned s voter timing epoch) (fun _ _ m' => m'.retryCounts = m.retryCounts) h m := by
  unfold ourSigned
  refine wpOn_lift_bind_any (fun _ h' => ?_) fun _ _ => rfl
  split
  · rw [wpOn_attempt_bind, Mem.onCache, wpOn_focus]
    intro t x c hx
    cases x with
    | ok p => exact wpOn_pure.mpr rfl
    | error e =>
      cases e <;> first | exact wpOn_pure.mpr rfl | exact wpOn_throw.mpr rfl
  · exact wpOn_pure.mpr rfl

variable {s : Settings} {voter : String} {claimers : List (Int × String)} {now : ℚ}
  {timing : Int × Int}

theorem rewardState_kept {epoch : Int} {m : Mem} {h : Trace} :
    WpOn (rewardState (daemonArgs s voter claimers now timing) epoch)
      (fun _ _ m' => m'.retryCounts = m.retryCounts) h m := by
  unfold rewardState
  refine wpOn_lift_bind_any (fun x h' => ?_) fun _ _ => rfl
  cases x with
  | ok fs => exact wpOn_pure.mpr rfl
  | error e =>
    cases e with
    | rpcError msg =>
      dsimp only
      split
      · refine ourSigned_kept.bind (fun b h₁ m₁ hm => wpOn_pure.mpr hm) fun e h₁ m₁ hm => hm
      · exact wpOn_throw.mpr rfl
    | _ => exact wpOn_throw.mpr rfl

theorem rewardPhase_post {epoch : Int} {pre : List Action} {m : Mem} {h : Trace} :
    WpOn (rewardPhase (daemonArgs s voter claimers now timing) epoch pre)
      (fun r _ m' => PhasePost m epoch pre r m') h m := by
  have hnone : SignActions m epoch [] false := Or.inl ⟨rfl, rfl⟩
  have hkept : ∀ {m₁ : Mem}, m₁.retryCounts = m.retryCounts → OthersKept epoch m m₁ :=
    fun hm e _ => by rw [Mem.retries, Mem.retries, hm]
  unfold rewardPhase
  refine rewardState_kept.bind (fun st h₁ m₁ hm => ?_) fun e h₁ m₁ hm => hkept hm
  have hsame : m₁.retries epoch = m.retries epoch := by rw [Mem.retries, Mem.retries, hm]
  by_cases hfin : st.1 = true
  · rw [if_pos hfin]
    exact wpOn_pure.mpr ⟨hkept hm, [], by rw [List.append_nil], hnone⟩
  rw [if_neg hfin]
  by_cases hsig : st.2 = true
  · rw [if_pos hsig]
    exact wpOn_pure.mpr ⟨hkept hm, rfl, rfl, [], by rw [List.append_nil], hnone⟩
  rw [if_neg hsig]
  unfold rewardSignPhase
  dsimp only
  split
  · exact wpOn_pure.mpr ⟨hkept hm, rfl, rfl, [], by rw [List.append_nil], hnone⟩
  refine wpOn_lift_bind_any (fun rdd h₂ => ?_) fun _ _ => hkept hm
  cases rdd with
  | none => exact wpOn_pure.mpr ⟨hkept hm, rfl, rfl, [], by rw [List.append_nil], hnone⟩
  | some rdd =>
    dsimp only
    rw [wpOn_get_bind]
    refine wpOn_lift_bind_any (fun ro h₃ => ?_) fun _ _ => hkept hm
    refine afterSign_post.mono fun r h₄ m₂ hpost => ?_
    have hall : OthersKept epoch m₁ m₂ → OthersKept epoch m m₂ :=
      fun hk e he => (hk e he).trans (hkept hm e he)
    cases r with
    | error e => exact hall hpost
    | ok x =>
      cases x with
      | error o =>
        obtain ⟨hk, he, hd, tail, ht, hs⟩ := hpost
        exact ⟨hall hk, he, hd, tail, ht, by simpa only [SignActions, hsame] using hs⟩
      | ok acts =>
        obtain ⟨hk, tail, ht, hs⟩ := hpost
        exact ⟨hall hk, tail, ht, by simpa only [SignActions, hsame] using hs⟩

/-- The vote is at most one action, of its own leg. -/
theorem wp_uptimePhase {a : DriveArgs} {epoch : Int} {h : Trace} :
    Wp (uptimePhase a epoch)
      (fun r _ => ∀ acts, r = .ok acts → acts.length ≤ 1 ∧ ∀ x ∈ acts, x.1 = "uptime") h := by
  have hnil : ∀ h', Wp (pure [] : Py (List Action))
      (fun r _ => ∀ acts, r = .ok acts → acts.length ≤ 1 ∧ ∀ x ∈ acts, x.1 = "uptime") h' :=
    fun h' => wp_pure.mpr fun acts hacts => by
      cases hacts
      simp
  have herr : ∀ (e : Exc) (acts : List Action), (Except.error e : Except Exc _) = .ok acts →
      acts.length ≤ 1 ∧ ∀ x ∈ acts, x.1 = "uptime" := fun e acts hacts => by cases hacts
  unfold uptimePhase
  split
  · refine wp_bind_any (fun hash h₁ => ?_) fun e _ => herr e
    split
    · refine wp_bind_any (fun info h₂ => ?_) fun e _ => herr e
      split
      · refine wp_bind_any (fun uo h₃ => wp_pure.mpr fun acts hacts => ?_) fun e _ => herr e
        cases hacts
        simp
      · exact hnil _
    · exact hnil _
  · exact hnil _

/-- The observation of a drive: its epoch, when it is terminal, and the retries it leaves alone. -/
theorem driveEpoch_post {epoch : Int} {m m' : Mem} {t : Trace} {r : Except Exc EpochObs}
    (h : RunsOn (driveEpoch (daemonArgs s voter claimers now timing) epoch) m t r m') :
    OthersKept epoch m m' ∧ ∀ o, r = .ok o → o.epoch = epoch ∧
      (o.terminal = true ↔ o.Ended m) ∧ (o.terminal = true → o.done = false) := by
  have hwp : WpOn (driveEpoch (daemonArgs s voter claimers now timing) epoch)
      (fun r _ m' => OthersKept epoch m m' ∧ ∀ o, r = .ok o → o.epoch = epoch ∧
        (o.terminal = true ↔ o.Ended m) ∧ (o.terminal = true → o.done = false)) [] m := by
    have herr : ∀ (e : Exc) {m₁ : Mem}, OthersKept epoch m m₁ → OthersKept epoch m m₁ ∧
        ∀ o, (Except.error e : Except Exc EpochObs) = .ok o → o.epoch = epoch ∧
          (o.terminal = true ↔ o.Ended m) ∧ (o.terminal = true → o.done = false) :=
      fun e m₁ hk => ⟨hk, fun o ho => by cases ho⟩
    unfold driveEpoch
    refine wpOn_lift_bind_any (fun _ h₁ => ?_) fun e _ => herr e .refl
    refine wp_uptimePhase.lift_bind (fun up h₂ hup => ?_) fun e _ _ => herr e .refl
    refine rewardPhase_post.bind (fun x h₃ m₁ hpost => ?_) fun e h₃ m₁ hk => herr e hk
    cases x with
    | error o =>
      obtain ⟨hk, he, hd, tail, ht, hs⟩ := hpost
      refine wpOn_pure.mpr ⟨hk, fun o' ho => ?_⟩
      cases ho
      exact ⟨he, terminal_iff (hup up rfl).2 ht he hs, fun _ => hd⟩
    | ok acts =>
      obtain ⟨hk, tail, rfl, hs⟩ := hpost
      refine wpOn_lift_bind_any (fun cos h₄ => wpOn_pure.mpr ⟨hk, fun o ho => ?_⟩)
        fun e _ => herr e hk
      cases ho
      exact ⟨claimObs_epoch _ _ _, claimObs_terminal (hup up rfl).2 hs,
        (claimObs_terminal_eq _ _ _).2⟩
  exact hwp t r m' h

end

/-! ## The state after a cycle -/

section

variable {σ : Type} {drive : Int → StAct sig Exc σ EpochObs} {key : String} {now : ℚ} {cd : Int}

/-- The cooldowns recorded for the drives of a cycle. -/
def recordDrives (key : String) (now : ℚ) (cd : Int) :
    List (Int × Except Exc EpochObs) → AutoState → AutoState
  | [], st => st
  | (epoch, .ok obs) :: ds, st => recordDrives key now cd ds (afterDrive key now cd epoch obs st)
  | (_, .error _) :: ds, st => recordDrives key now cd ds st

theorem cycleLoop_recorded : ∀ {es : List Int} {w : Int} {adv : Bool} {s s' : σ × AutoState}
    {t : Trace} {r : Except Exc (Int × List EpochObs)},
    RunsOn (cycleLoop drive key now cd es w adv) s t r s' →
      ∃ ds, Drives drive s.1 ds t s'.1 ∧ s'.2 = recordDrives key now cd ds s.2
  | [], w, adv, s, s', t, r, h => by
    obtain ⟨rfl, rfl, rfl⟩ := runsOn_pure.mp h
    exact ⟨[], .nil, rfl⟩
  | epoch :: es, w, adv, s, s', t, r, h => by
    rcases cycleLoop_cons h with ⟨hw, r₀, h₁, rfl⟩ | ⟨hw, ⟨x, h₁, rfl, hs⟩ |
      ⟨obs, t₁, t₂, m₁, r₀, rfl, h₁, h₂, rfl⟩⟩
    · exact cycleLoop_recorded h₁
    · have hone := Drives.cons h₁ .nil
      rw [List.append_nil] at hone
      exact ⟨_, hone, hs⟩
    · obtain ⟨ds, hds, hst⟩ := cycleLoop_recorded h₂
      exact ⟨(epoch, .ok obs) :: ds, .cons h₁ hds, hst⟩

/-- The epoch's drive returned a terminal observation. -/
def EndedIn (ds : List (Int × Except Exc EpochObs)) (e : Int) : Prop :=
  ∃ o : EpochObs, (e, .ok o) ∈ ds ∧ o.terminal = true

theorem firstSeen_recordDrives {k : String} : ∀ {ds : List (Int × Except Exc EpochObs)}
    {st : AutoState}, ((recordDrives key now cd ds st).s k).firstSeen = (st.s k).firstSeen
  | [], st => rfl
  | (epoch, .ok obs) :: ds, st => by
    rw [recordDrives, firstSeen_recordDrives]
    unfold afterDrive
    split
    · unfold AutoState.recordTerminal AutoState.update AutoState.s
      simp only [Dict.get?_set]
      by_cases h : key = k
      · subst h
        simp
      · simp [h]
    · rfl
  | (_, .error _) :: ds, st => by
    rw [recordDrives, firstSeen_recordDrives]

theorem cooldown_afterDrive {epoch e : Int} {obs : EpochObs} {st : AutoState} {k : String} :
    ((afterDrive key now cd epoch obs st).s k).cooldownUntil.get? e =
      if k = key ∧ e = epoch ∧ obs.terminal = true then some (now + cd)
      else (st.s k).cooldownUntil.get? e := by
  unfold afterDrive
  by_cases ht : obs.terminal = true
  · rw [if_pos ht]
    unfold AutoState.recordTerminal AutoState.update AutoState.s
    simp only [Dict.get?_set]
    by_cases hk : key = k
    · subst hk
      by_cases he : epoch = e
      · subst he
        simp [ht]
      · simp [Dict.get?_set, he, Ne.symm he]
    · simp [hk, Ne.symm hk]
  · rw [if_neg ht]
    simp [ht]

open Classical in
theorem cooldown_recordDrives {e : Int} {k : String} : ∀ {ds : List (Int × Except Exc EpochObs)}
    {st : AutoState}, ((recordDrives key now cd ds st).s k).cooldownUntil.get? e =
      if k = key ∧ EndedIn ds e then some (now + cd) else (st.s k).cooldownUntil.get? e
  | [], st => by
    rw [if_neg fun h => by obtain ⟨-, o, ho, -⟩ := h; simp at ho]
    rfl
  | (epoch, .ok obs) :: ds, st => by
    have hcons : EndedIn ((epoch, .ok obs) :: ds) e ↔
        (e = epoch ∧ obs.terminal = true) ∨ EndedIn ds e := by
      unfold EndedIn
      simp only [List.mem_cons, Prod.mk.injEq, Except.ok.injEq, or_and_right, exists_or]
      refine or_congr ⟨fun ⟨o, ⟨he, ho⟩, ht⟩ => ⟨he, ho ▸ ht⟩, fun ⟨he, ht⟩ => ⟨obs, ⟨he, rfl⟩, ht⟩⟩
        Iff.rfl
    rw [recordDrives, cooldown_recordDrives, cooldown_afterDrive, hcons]
    by_cases hk : k = key <;> by_cases hd : EndedIn ds e <;>
      by_cases he : e = epoch ∧ obs.terminal = true <;> simp [hk, hd, he]
  | (epoch, .error x) :: ds, st => by
    have hcons : EndedIn ((epoch, .error x) :: ds) e ↔ EndedIn ds e := by
      simp [EndedIn]
    rw [recordDrives, cooldown_recordDrives, hcons]

/-- In the window of the cooldowns recorded, they only add to what was hot. -/
theorem hot_recordDrives {ds : List (Int × Except Exc EpochObs)} {st : AutoState} {e : Int}
    {k : String} {t : ℚ} (ht : t < now + cd) : (recordDrives key now cd ds st).hot k e t ↔
      (k = key ∧ EndedIn ds e) ∨ st.hot k e t := by
  unfold AutoState.hot
  rw [cooldown_recordDrives]
  by_cases h : k = key ∧ EndedIn ds e
  · simp [h, ht]
  · simp [h]

theorem evaluate_recordDrives {ds : List (Int × Except Exc EpochObs)} {st : AutoState} {t : ℚ}
    {stale : Int} (ht : t < now + cd) :
    ((recordDrives key now cd ds st).evaluate t stale).1 = true ↔
      (∃ e, EndedIn ds e ∧ e ∈ st.active key) ∨ (st.evaluate t stale).1 = true := by
  rw [AutoState.evaluate_iff, AutoState.evaluate_iff]
  simp only [firstSeen_recordDrives, hot_recordDrives ht]
  constructor
  · rintro ⟨k, e, seen, hseen, hst | ⟨rfl, hend⟩ | hhot⟩
    · exact Or.inr ⟨k, e, seen, hseen, Or.inl hst⟩
    · exact Or.inl ⟨e, hend, Dict.mem_keys.mpr (by rw [hseen]; rfl)⟩
    · exact Or.inr ⟨k, e, seen, hseen, Or.inr hhot⟩
  · rintro (⟨e, hend, hact⟩ | ⟨k, e, seen, hseen, h⟩)
    · obtain ⟨seen, hseen⟩ := Option.isSome_iff_exists.mp (Dict.mem_keys.mp hact)
      exact ⟨key, e, seen, hseen, Or.inr (Or.inl ⟨rfl, hend⟩)⟩
    · exact ⟨k, e, seen, hseen, h.imp_right Or.inr⟩

/-- The record of a cycle forgets cooldowns of epochs that are no longer active, and no others. -/
theorem cooldown_recordCycle {obs : List EpochObs} {st : AutoState} {e : Int} :
    ((recordCycle key now obs st).s key).cooldownUntil.get? e =
      if e ∈ (st.s key).gone ((obs.filter fun o => !o.done).map fun o => o.epoch) now then none
      else (st.s key).cooldownUntil.get? e := by
  have hobs : ((st.observe key ((obs.filter fun o => !o.done).map fun o => o.epoch) now).s
      key).cooldownUntil.get? e =
      if e ∈ (st.s key).gone ((obs.filter fun o => !o.done).map fun o => o.epoch) now then none
      else (st.s key).cooldownUntil.get? e := by
    unfold AutoState.observe
    rw [AutoState.s_update]
    unfold Dict.eraseAll
    rw [Dict.get?_filterKeys]
    by_cases h : e ∈ (st.s key).gone ((obs.filter fun o => !o.done).map fun o => o.epoch) now
    · simp [h]
    · simp [h]
  unfold recordCycle
  dsimp only
  split
  · exact hobs
  · split
    · rw [AutoState.recordSuccess, AutoState.s_update, AutoState.recordAttempt, AutoState.s_update]
      exact hobs
    · rw [AutoState.recordAttempt, AutoState.s_update]
      exact hobs

theorem not_gone {obs : List EpochObs} {st : AutoState} {e : Int}
    (he : ∃ o ∈ obs, o.epoch = e ∧ o.done = false) :
    e ∉ (st.s key).gone ((obs.filter fun o => !o.done).map fun o => o.epoch) now := by
  obtain ⟨o, ho, heo, hd⟩ := he
  unfold Stream.gone
  simp only [List.mem_filter, decide_eq_true_eq, not_and, not_not, List.mem_map]
  exact fun _ => ⟨o, ⟨ho, by simp [hd]⟩, heo⟩

/-- How a cycle that read the current epoch leaves the state. -/
inductive CycleEnd (key : String) (now : ℚ) (cd : Int) (st : AutoState)
    (ds : List (Int × Except Exc EpochObs)) : AutoState → Prop
  | returned {obs : List EpochObs} (hok : ∀ e x, (e, .error x) ∉ ds)
    (hobs : ∀ e o, (e, .ok o) ∈ ds → o ∈ obs) :
    CycleEnd key now cd st ds (recordCycle key now obs (recordDrives key now cd ds st))
  | raised {e : Int} {x : Exc} (hx : (e, .error x) ∈ ds) :
    CycleEnd key now cd st ds (recordDrives key now cd ds st)

/-- Every epoch is driven once and not in cooldown, and the state is what the drives record. -/
theorem runCycleWith_end (hone : ∀ e m t r m', RunsOn (drive e) m t r m' → driven t = [e])
    {s : Settings} {lastDone : Option Int} {m m' : σ} {st st' : AutoState} {t : Trace}
    {r : Except Exc (Int × Int × List EpochObs)} {current : Int}
    {ds : List (Int × Except Exc EpochObs)}
    (h : RunsOn (runCycleWith drive s lastDone now cd) (m, st)
      (⟨.rpc (.currentRewardEpochId s.net.flareSystemsManager), .result current⟩ :: t) r (m', st'))
    (hds : Drives drive m ds t m') :
    (ds.map Prod.fst).Nodup ∧
      (∀ e o, (e, .ok o) ∈ ds → st.inCooldown (stateKey s.network) e now = false) ∧
      CycleEnd (stateKey s.network) now cd st ds st' := by
  obtain ⟨ans, t', ht, hr⟩ := runCycleWith_cases h
  obtain ⟨hans, rfl⟩ := List.cons.inj ht
  cases hans
  rcases hr with ⟨x, hx, -⟩ | ⟨c, r₀, u₁, hc, hloop, hend⟩
  · exact absurd rfl (hx current)
  cases hc
  obtain ⟨-, ds₁, hds₁, hd⟩ := cycleLoop_drives (nodup_pyRange _ _) hloop
  obtain rfl : ds = ds₁ := (Drives.unique hone hds hds₁).1
  obtain ⟨ds₂, hds₂, hst⟩ := cycleLoop_recorded hloop
  obtain rfl : ds = ds₂ := (Drives.unique hone hds hds₂).1
  have hnodup := nodup_pyRange (cycleStart (startWatermark lastDone current) current) current
  rcases hend with ⟨x, rfl, -, hu⟩ | ⟨w, obs, rfl, -, hu⟩
  · obtain ⟨pre, e, post, ds', hsplit, rfl, hmap, hok⟩ := hd
    rw [hsplit, List.nodup_append] at hnodup
    obtain ⟨hpre, -, hdisj⟩ := hnodup
    have hst' : st' = u₁.2 := by rw [← hu]
    rw [hst', hst]
    refine ⟨?_, fun e' o hin => ?_, .raised (List.mem_append_right _ (List.mem_singleton_self _))⟩
    · rw [List.map_append, hmap, List.nodup_append]
      refine ⟨hpre.filter _, by simp, fun a ha b hb => ?_⟩
      rw [List.map_singleton, List.mem_singleton] at hb
      rw [hb]
      exact hdisj a (List.mem_filter.mp ha).1 e (List.mem_cons_self ..)
    · have hin' : (e', Except.ok o) ∈ ds' := by
        rcases List.mem_append.mp hin with h | h
        · exact h
        · simp at h
      have hmem : e' ∈ ds'.map Prod.fst := List.mem_map_of_mem (f := Prod.fst) hin'
      rw [hmap] at hmem
      exact warm_iff.mp (List.mem_filter.mp hmem).2
  · obtain ⟨hmap, hok, hobs⟩ := hd
    have hst' : st' = recordCycle (stateKey s.network) now obs u₁.2 := by
      cases hu
      rfl
    rw [hst', hst]
    refine ⟨by rw [hmap]; exact hnodup.filter _, fun e o hin => ?_,
      .returned hok fun e o hin => (hobs o).mpr (Or.inr ⟨e, hin⟩)⟩
    have hmem : e ∈ ds.map Prod.fst := List.mem_map_of_mem (f := Prod.fst) hin
    rw [hmap] at hmem
    exact warm_iff.mp (List.mem_filter.mp hmem).2

/-- The cooldown a cycle leaves for an epoch it drove. -/
theorem CycleEnd.cooldown {st st' : AutoState} {ds : List (Int × Except Exc EpochObs)}
    (h : CycleEnd key now cd st ds st') {e : Int} {o : EpochObs} (hin : (e, .ok o) ∈ ds)
    (he : o.epoch = e) (hend : EndedIn ds e ↔ o.terminal = true)
    (hdone : o.terminal = true → o.done = false) :
    (o.terminal = true → (st'.s key).cooldownUntil.get? e = some (now + cd)) ∧
      (o.terminal = false → ∀ u, (st'.s key).cooldownUntil.get? e = some u →
        (st.s key).cooldownUntil.get? e = some u) := by
  have hrec : ((recordDrives key now cd ds st).s key).cooldownUntil.get? e =
      if o.terminal = true then some (now + cd) else (st.s key).cooldownUntil.get? e := by
    rw [cooldown_recordDrives]
    by_cases ht : o.terminal = true
    · rw [if_pos ⟨rfl, hend.mpr ht⟩, if_pos ht]
    · rw [if_neg fun hc => ht (hend.mp hc.2), if_neg ht]
  cases h with
  | @returned obs hok hobs =>
    rw [cooldown_recordCycle, hrec]
    constructor
    · intro ht
      rw [if_neg (not_gone ⟨o, hobs e o hin, he, hdone ht⟩), if_pos ht]
    · intro ht u hu
      split at hu
      · simp at hu
      · simpa [ht] using hu
  | raised hx =>
    rw [hrec]
    constructor
    · exact fun ht => if_pos ht
    · intro ht u hu
      simpa [ht] using hu

/-- What an epoch that ended in the cycle does to the reports before its cooldown ends. -/
theorem CycleEnd.degraded {st st' : AutoState} {ds : List (Int × Except Exc EpochObs)}
    (h : CycleEnd key now cd st ds st') {e : Int} {o : EpochObs} (hin : (e, .ok o) ∈ ds)
    (he : o.epoch = e) (hdone : o.done = false) {t : ℚ}
    (ht : t < now + cd) {stale : Int}
    (hcool : (st'.s key).cooldownUntil.get? e = some (now + cd)) :
    (st'.evaluate t stale).1 = true ↔ (∀ e x, (e, .error x) ∉ ds) ∨
      (∃ e, EndedIn ds e ∧ e ∈ st.active key) ∨ (st.evaluate t stale).1 = true := by
  cases h with
  | @returned obs hok hobs =>
    refine iff_of_true ?_ (Or.inl hok)
    have hact : e ∈ (recordCycle key now obs (recordDrives key now cd ds st)).active key :=
      mem_active_recordCycle.mpr ⟨o, hobs e o hin, he, hdone⟩
    obtain ⟨seen, hseen⟩ := Option.isSome_iff_exists.mp (Dict.mem_keys.mp hact)
    exact AutoState.evaluate_iff.mpr ⟨key, e, seen, hseen, Or.inr (Or.inl ⟨_, hcool, ht⟩)⟩
  | @raised e' x hx =>
    rw [evaluate_recordDrives ht]
    exact (or_iff_right fun hok => hok e' x hx).symm

end

/-! ## Loud failures -/

/-- While the cooldown of the epoch lasts, it is on record until `now + cd`, and every report
built is degraded. -/
def Loud (key : String) (now : ℚ) (cd stale : Int) (st : AutoState) (e : Int) : Prop :=
  ∀ t, now ≤ t → t < now + cd → (st.s key).cooldownUntil.get? e = some (now + cd) ∧
    ∀ net interval lastDone current obs,
      (buildEpochReport st net interval stale lastDone current obs t).degraded = true

/-- When a failed-terminal action is heard: another leg than the uptime vote ended the epoch, and no
drive of the cycle raised, or an epoch so ended was active before, or the state was degraded all
through the cooldown anyway.  A cooldown of no length asks for nothing. -/
def Heard (key : String) (now : ℚ) (cd stale : Int) (m : Mem) (st : AutoState)
    (ds : List (Int × Except Exc EpochObs)) (o : EpochObs) : Prop :=
  cd ≤ 0 ∨ (o.Ended m ∧ ∀ t, now ≤ t → t < now + cd → (∀ e x, (e, .error x) ∉ ds) ∨
    (∃ e o', (e, .ok o') ∈ ds ∧ o'.Ended m ∧ e ∈ st.active key) ∨ (st.evaluate t stale).1 = true)

section

variable [External] {s : Settings} {voter : String} {claimers : List (Int × String)} {now : ℚ}
  {timing : Int × Int}

/-- The drives of a cycle meet the retries the cycle started with, as each epoch is driven once. -/
theorem Drives.ended {m m' : Mem} {ds : List (Int × Except Exc EpochObs)} {t : Trace}
    (h : Drives (driveEpoch (daemonArgs s voter claimers now timing)) m ds t m')
    (hn : (ds.map Prod.fst).Nodup) {e : Int} {o : EpochObs} (hin : (e, .ok o) ∈ ds) :
    o.epoch = e ∧ (o.terminal = true ↔ o.Ended m) ∧ (o.terminal = true → o.done = false) := by
  induction h with
  | nil => simp at hin
  | @cons m m₁ m₂ epoch t₁ t₂ x ds h hs ih =>
    obtain ⟨hni, hn⟩ := List.nodup_cons.mp hn
    obtain ⟨hkept, hpost⟩ := driveEpoch_post h
    rcases List.mem_cons.mp hin with heq | hrest
    · obtain ⟨rfl, rfl⟩ := Prod.mk.inj heq
      exact hpost o rfl
    · obtain ⟨he, hiff, hd⟩ := ih hn hrest
      have hmem : e ∈ ds.map Prod.fst := List.mem_map_of_mem (f := Prod.fst) hrest
      have hne : o.epoch ≠ epoch := by
        rw [he]
        rintro rfl
        exact hni hmem
      refine ⟨he, ?_, hd⟩
      rw [hiff, EpochObs.Ended, EpochObs.Ended, hkept o.epoch hne]

/-- **Terminal failures are loud exactly when they are heard.** -/
theorem loud_iff {lastDone : Option Int} {cd stale : Int} {m m' : Mem} {st st' : AutoState}
    {t : Trace} {r : Except Exc (Int × Int × List EpochObs)} {current : Int}
    {ds : List (Int × Except Exc EpochObs)}
    (h : RunsOn (runCycle (daemonArgs s voter claimers now timing) lastDone cd) (m, st)
      (⟨.rpc (.currentRewardEpochId s.net.flareSystemsManager), .result current⟩ :: t) r (m', st'))
    (hds : Drives (driveEpoch (daemonArgs s voter claimers now timing)) m ds t m') :
    (∀ e o, (e, .ok o) ∈ ds → o.FailedTerminal →
        Loud (stateKey s.network) now cd stale st' e) ↔
      ∀ e o, (e, .ok o) ∈ ds → o.FailedTerminal →
        Heard (stateKey s.network) now cd stale m st ds o := by
  have hone : ∀ e m t r m',
      RunsOn (driveEpoch (daemonArgs s voter claimers now timing) e) m t r m' →
      driven t = [e] := fun e m t r m' => driven_driveEpoch daemonArgs_keyless
  obtain ⟨hnodup, hwarm, hend⟩ : (ds.map Prod.fst).Nodup ∧
      (∀ e o, (e, .ok o) ∈ ds → st.inCooldown (stateKey s.network) e now = false) ∧
      CycleEnd (stateKey s.network) now cd st ds st' := runCycleWith_end hone h hds
  have hended : ∀ e, EndedIn ds e ↔ ∃ o', (e, .ok o') ∈ ds ∧ o'.Ended m := fun e =>
    exists_congr fun o' => and_congr_right fun hin => (hds.ended hnodup hin).2.1
  refine forall_congr' fun e => forall_congr' fun o => forall_congr' fun hin => imp_congr_right
    fun _ => ?_
  obtain ⟨he, hiff, hdone⟩ := hds.ended hnodup hin
  have hsame : EndedIn ds e ↔ o.terminal = true :=
    ⟨fun ⟨o', hin', ht⟩ => by
      have heq := List.inj_on_of_nodup_map hnodup hin hin' rfl
      simp only [Prod.mk.injEq, Except.ok.injEq, true_and] at heq
      rw [heq, ht], fun ht => ⟨o, hin, ht⟩⟩
  obtain ⟨hon, hoff⟩ := hend.cooldown hin he hsame hdone
  unfold Loud Heard
  by_cases hcd : cd ≤ 0
  · have hle : now + (cd : ℚ) ≤ now := by
      have hcast : (cd : ℚ) ≤ 0 := by exact_mod_cast hcd
      linarith
    exact iff_of_true (fun t h₁ h₂ => absurd (lt_of_lt_of_le h₂ hle) (not_lt.mpr h₁)) (Or.inl hcd)
  have hlt : now < now + (cd : ℚ) := by
    have hcast : (0 : ℚ) < cd := by exact_mod_cast not_le.mp hcd
    linarith
  rw [or_iff_right hcd]
  by_cases ht : o.terminal = true
  · rw [and_iff_right (hiff.mp ht)]
    refine forall_congr' fun t => forall_congr' fun _ => forall_congr' fun htl => ?_
    rw [and_iff_right (hon ht)]
    have hdeg : (st'.evaluate t stale).1 = true ↔ _ :=
      hend.degraded hin he (hdone ht) htl (hon ht)
    have hreport : (∀ net interval w current obs,
        (buildEpochReport st' net interval stale w current obs t).degraded = true) ↔
        (st'.evaluate t stale).1 = true :=
      ⟨fun h => h .flare 0 none none [], fun h _ _ _ _ _ => h⟩
    have hact : (∃ e, EndedIn ds e ∧ e ∈ st.active (stateKey s.network)) ↔
        ∃ e o', (e, .ok o') ∈ ds ∧ o'.Ended m ∧ e ∈ st.active (stateKey s.network) :=
      exists_congr fun e' => by rw [hended, exists_and_right.symm]; simp only [and_assoc]
    rw [hreport, hdeg, hact]
  · refine iff_of_false (fun hl => ?_) fun hh => ht (hiff.mpr hh.1)
    have hrec := hoff (by simpa using ht) _ (hl now le_rfl hlt).1
    have hcool := hwarm e o hin
    unfold AutoState.inCooldown at hcool
    rw [hrec] at hcool
    simp [hlt] at hcool

end

/-! ### A silent uptime failure -/

/-- The uptime vote is switched on, but no caller is provisioned for it. -/
def unprovisioned : Settings := { uptimeAutoEnabled := true }

def unprovisionedArgs : DriveArgs :=
  @daemonArgs External.static unprovisioned bareArgs.voter [] 0 (0, 0)

/-- Epoch 5 just closed: its uptime vote is due, and our reward signature is on chain. -/
def signedWorld : (op : Op) → op.Ans
  | .rpc (.currentRewardEpochId _) => .result 6
  | .rpc (.uptimeVoteHash _ _) => .result zeroBytes32
  | .rpc (.voterUptimeVoteSignInfo _ _ _) => .result (0, 0)
  | .rpc (.rewardsHash _ _) => .result zeroBytes32
  | .rpc (.voterRewardsSignInfo _ _ _) => .result (1, 1)
  | op => deafWorld op

/-- The observation of the drive: nothing in it says terminal but the action of the uptime leg. -/
def silentObs : EpochObs :=
  { epoch := 5, phase := .claimWait, detail := "signed; awaiting network finalization (>threshold)"
    actions :=
      [("uptime", "failed-terminal", "missing FSP config: FSP_UPTIME_SIGN_CALLER_TOKEN, " ++
      "FSP_UPTIME_SUBMIT_CALLER_TOKEN, FSP_SIGNING_WALLET_NAME, FSP_SENDER_WALLET_NAME — " ++
      operatorProvisionHint)] }

def silentDrive : Trace :=
  (execOn (S := sig) signedWorld (@driveEpoch External.static unprovisionedArgs 5) {}).1

theorem silentDrive_runs :
    RunsOn (@driveEpoch External.static unprovisionedArgs 5) {} silentDrive (.ok silentObs) {} := by
  have h := execOn_runs (S := sig) signedWorld (@driveEpoch External.static unprovisionedArgs 5) {}
  have hobs : (execOn (S := sig) signedWorld (@driveEpoch External.static unprovisionedArgs 5)
      {}).2.1 = .ok silentObs := by rfl
  rw [hobs] at h
  exact h

/-- The state the cycle leaves: epoch 5 is active, and nothing else is on record. -/
def silentState : AutoState :=
  (execOn (S := sig) signedWorld (@runCycle External.static unprovisionedArgs (some 4) 3600)
    ({}, {})).2.2.2

def silentRead : Event sig :=
  ⟨.rpc (.currentRewardEpochId unprovisioned.net.flareSystemsManager), .result 6⟩

theorem silentCycle_runs :
    RunsOn (@runCycle External.static unprovisionedArgs (some 4) 3600) ({}, {})
      (silentRead :: silentDrive) (.ok (4, 6, [silentObs])) ({}, silentState) := by
  have h := execOn_runs (S := sig) signedWorld
    (@runCycle External.static unprovisionedArgs (some 4) 3600) ({}, {})
  have hrun : execOn (S := sig) signedWorld
      (@runCycle External.static unprovisionedArgs (some 4) 3600) ({}, {}) =
      (silentRead :: silentDrive, .ok (4, 6, [silentObs]), {}, silentState) := by rfl
  rw [hrun] at h
  exact h

theorem silentDrives :
    Drives (@driveEpoch External.static unprovisionedArgs) {}
      [(5, .ok silentObs)] silentDrive {} := by
  have h := Drives.cons silentDrive_runs .nil
  rwa [List.append_nil] at h

/-- The uptime vote failed terminally; the epoch is not in cooldown, and the report is healthy. -/
theorem uptimeFailure_silent :
    ∃ t r m' st', RunsOn (@runCycle External.static unprovisionedArgs (some 4) 3600) ({}, {}) t r
        (m', st') ∧ r = .ok (4, 6, [silentObs]) ∧ silentObs.FailedTerminal ∧
      st'.inCooldown (stateKey .flare) 5 0 = false ∧
      (buildEpochReport st' .flare 1800 86400 (some 4) (some 6) [silentObs] 1).degraded = false ∧
      ¬Loud (stateKey .flare) 0 3600 86400 st' 5 := by
  have hdeg : (buildEpochReport silentState .flare 1800 86400 (some 4) (some 6) [silentObs]
      1).degraded = false := by decide +kernel
  refine ⟨_, _, _, _, silentCycle_runs, rfl, ⟨_, List.mem_singleton_self _, rfl⟩, by rfl, hdeg,
    fun hl => ?_⟩
  have hloud := (hl 1 (by norm_num) (by norm_num)).2 .flare 1800 (some 4) (some 6) [silentObs]
  rw [hdeg] at hloud
  simp at hloud

theorem loud_iff_silent :
    (∀ e o, (e, .ok o) ∈ [((5 : Int), (Except.ok silentObs : Except Exc EpochObs))] →
        o.FailedTerminal → Loud (stateKey .flare) 0 3600 86400 silentState e) ↔
      ∀ e o, (e, .ok o) ∈ [((5 : Int), (Except.ok silentObs : Except Exc EpochObs))] →
        o.FailedTerminal → Heard (stateKey .flare) 0 3600 86400 {} {} [(5, .ok silentObs)] o :=
  @loud_iff External.static unprovisioned bareArgs.voter [] 0 (0, 0) (some 4) 3600 86400 {} {} {}
    silentState silentDrive _ 6 _ silentCycle_runs silentDrives

end Clif
