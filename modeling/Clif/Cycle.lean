import Clif.Asks
import Mathlib.Data.List.Sort

/-!
# Cycle — what one cycle drives, and what it records

The loop of `run_cycle` is treated for an arbitrary drive of one epoch.  `neverBlocks_iff` then
says in which cycles no epoch keeps another from being driven: a drive that raises takes the later
epochs with it.
-/

namespace Clif

open Effect

/-! ## The epochs a trace drives -/

def Op.drives : Op → Option Int
  | .called (.driveEpoch e) => some e
  | _ => none

/-- The epochs driven, in order. -/
def driven (t : Trace) : List Int := t.filterMap fun e => e.op.drives

@[simp] theorem driven_append (t₁ t₂ : Trace) : driven (t₁ ++ t₂) = driven t₁ ++ driven t₂ :=
  List.filterMap_append ..

theorem driven_eq_nil {t : Trace} (h : ∀ e ∈ t, e.op.drives = none) : driven t = [] :=
  List.filterMap_eq_nil_iff.mpr h

/-- The callback `our_signed_fn` is a check of the chain: it only reads. -/
def DriveArgs.Keyless (a : DriveArgs) : Prop :=
  ∀ f, a.ourSignedFn = some f → ∀ epoch,
    EmitsOn (f epoch) fun e => e.op.kind = .read ∨ e.op = .called (.ourSigned epoch)

theorem allOf_drives {k : OpKind} (hk : k ≠ .entry) : AllOf k fun e => e.op.drives = none := by
  intro e he
  cases hop : e.op with
  | called c =>
    rw [hop] at he
    exact absurd he.symm hk
  | _ => rfl

section

variable [External]

theorem daemonArgs_keyless {s : Settings} {voter : String} {claimers : List (Int × String)}
    {now : ℚ} {timing : Int × Int} : (daemonArgs s voter claimers now timing).Keyless := by
  intro f hf epoch
  cases hf
  exact emitsOn_ourSigned (fun e he => Or.inl he) s voter timing epoch (Or.inr rfl)

omit [External] in
theorem DriveArgs.Keyless.drives {a : DriveArgs} (ha : a.Keyless) {f : Int → Daemon Bool}
    (hf : a.ourSignedFn = some f) (epoch : Int) :
    EmitsOn (f epoch) fun e => e.op.drives = none := by
  refine (ha f hf epoch).mono fun e he => ?_
  rcases he with hread | hop
  · exact allOf_drives (by decide) e hread
  · rw [hop]
    rfl

/-- Driving an epoch drives that epoch, once. -/
theorem driven_driveEpoch {a : DriveArgs} (ha : a.Keyless) {epoch : Int} {m m' : Mem} {t : Trace}
    {r : Except Exc EpochObs} (h : RunsOn (driveEpoch a epoch) m t r m') : driven t = [epoch] := by
  obtain ⟨t', rfl, h'⟩ := runsOn_enter_bind.mp h
  have hv : AllOf .view fun e => e.op.drives = none := allOf_drives (by decide)
  have hr : AllOf .read fun e => e.op.drives = none := allOf_drives (by decide)
  have hb : AllOf .send fun e => e.op.drives = none := allOf_drives (by decide)
  have hw : AllOf .report fun e => e.op.drives = none := allOf_drives (by decide)
  have hs : AllOf .sign fun e => e.op.drives = none := allOf_drives (by decide)
  have hrest : ∀ e ∈ t', e.op.drives = none := by
    refine emitsOn_bind (emitsOn_lift (emits_uptimePhase hr hb hw hs a epoch rfl))
      (fun actions => ?_) _ _ _ _ h'
    refine emitsOn_bind (emitsOn_rewardPhase hv hr hb hw hs a epoch actions rfl
      fun f hf => ha.drives hf epoch) fun x => ?_
    split
    · exact emitsOn_pure _
    · exact emitsOn_bind (emitsOn_lift (emits_claimStreams hv hr hb hw hs _ _ _ fun _ _ => rfl))
        fun _ => emitsOn_pure _
  show driven ([_] ++ t') = _
  rw [driven_append, driven_eq_nil hrest]
  rfl

/-! ## The observation of an epoch -/

omit [External] in
theorem yields_afterSign (epoch : Int) (net : Network) (actions : List Action) (ro : FspOutcome) :
    Yields (afterSign epoch net actions ro) fun x =>
      ∀ o, x = .error o → o.epoch = epoch ∧ o.done = false := by
  unfold afterSign
  dsimp only
  split
  · exact yields_pure fun o ho => by cases ho; exact ⟨rfl, rfl⟩
  · exact yields_pure fun o ho => by cases ho
  · refine yields_bind yields_any fun _ _ => yields_bind yields_any fun m _ => ?_
    split
    · exact yields_pure fun o ho => by cases ho; exact ⟨rfl, rfl⟩
    · exact yields_pure fun o ho => by cases ho; exact ⟨rfl, rfl⟩
  · exact yields_pure fun o ho => by cases ho; exact ⟨rfl, rfl⟩

theorem yields_rewardPhase (a : DriveArgs) (epoch : Int) (actions : List Action) :
    Yields (rewardPhase a epoch actions) fun x =>
      ∀ o, x = .error o → o.epoch = epoch ∧ o.done = false := by
  unfold rewardPhase
  refine yields_bind yields_any fun st _ => ?_
  split
  · exact yields_pure fun o ho => by cases ho
  split
  · exact yields_pure fun o ho => by cases ho; exact ⟨rfl, rfl⟩
  unfold rewardSignPhase
  dsimp only
  split
  · exact yields_pure fun o ho => by cases ho; exact ⟨rfl, rfl⟩
  refine yields_bind yields_any fun rdd _ => ?_
  split
  · exact yields_pure fun o ho => by cases ho; exact ⟨rfl, rfl⟩
  · exact yields_bind yields_any fun _ _ => yields_bind yields_any fun ro _ =>
      yields_afterSign epoch _ actions ro

omit [External] in
theorem claimObs_epoch (epoch : Int) (actions : List Action) (cos : List ClaimOutcome) :
    (claimObs epoch actions cos).epoch = epoch := by
  unfold claimObs
  dsimp only
  split <;> rfl

theorem yields_driveEpoch (a : DriveArgs) (epoch : Int) :
    Yields (driveEpoch a epoch) fun o => o.epoch = epoch := by
  unfold driveEpoch
  refine yields_bind yields_any fun _ _ => yields_bind yields_any fun actions _ => ?_
  refine yields_bind (yields_rewardPhase a epoch actions) fun x hx => ?_
  split
  · exact yields_pure (hx _ rfl).1
  · exact yields_bind yields_any fun cos _ => yields_pure (claimObs_epoch _ _ _)

end

/-! ## The loop -/

section

variable {σ : Type} {drive : Int → StAct sig Exc σ EpochObs} {key : String} {now : ℚ} {cd : Int}

/-- The epochs the state lets through. -/
def warm (key : String) (now : ℚ) (st : AutoState) (e : Int) : Bool := !st.inCooldown key e now

/-- The state after a driven epoch. -/
def afterDrive (key : String) (now : ℚ) (cd : Int) (epoch : Int) (obs : EpochObs)
    (st : AutoState) : AutoState :=
  if obs.terminal then st.recordTerminal key epoch now cd else st

/-- What one pass of the loop can do. -/
theorem cycleLoop_cons {epoch : Int} {es : List Int} {w : Int} {adv : Bool} {s s' : σ × AutoState}
    {t : Trace} {r : Except Exc (Int × List EpochObs)}
    (h : RunsOn (cycleLoop drive key now cd (epoch :: es) w adv) s t r s') :
    (warm key now s.2 epoch = false ∧ ∃ r₀,
      RunsOn (cycleLoop drive key now cd es w false) s t r₀ s' ∧
      r = r₀.map fun x => (x.1, cooldownObs epoch :: x.2)) ∨
    (warm key now s.2 epoch = true ∧
      ((∃ x, RunsOn (drive epoch) s.1 t (.error x) s'.1 ∧ r = .error x ∧ s'.2 = s.2) ∨
        ∃ obs t₁ t₂ m₁ r₀, t = t₁ ++ t₂ ∧ RunsOn (drive epoch) s.1 t₁ (.ok obs) m₁ ∧
          RunsOn (cycleLoop drive key now cd es (if obs.done && adv then epoch else w)
            (obs.done && adv)) (m₁, afterDrive key now cd epoch obs s.2) t₂ r₀ s' ∧
          r = r₀.map fun x => (x.1, obs :: x.2))) := by
  unfold cycleLoop at h
  have h₁ := runsOn_get_bind.mp h
  split at h₁
  · rename_i hc
    refine Or.inl ⟨by simp [warm, hc], ?_⟩
    rcases runsOn_bind.mp h₁ with ⟨x, t₁, t₂, s₁, rfl, h₂, h₃⟩ | ⟨e, h₂, rfl⟩
    · obtain ⟨rfl, rfl, rfl⟩ := runsOn_pure.mp h₃
      exact ⟨.ok x, by rw [List.append_nil]; exact h₂, rfl⟩
    · exact ⟨.error e, h₂, rfl⟩
  · rename_i hc
    refine Or.inr ⟨by simpa [warm] using hc, ?_⟩
    rcases runsOn_bind.mp h₁ with ⟨obs, t₁, t₂, s₁, rfl, h₂, h₃⟩ | ⟨e, h₂, rfl⟩
    · obtain ⟨m₁, hd, rfl⟩ := runsOn_focus.mp h₂
      have h₄ := runsOn_modify_bind.mp h₃
      refine Or.inr ⟨obs, t₁, ?_⟩
      have hst : (if obs.terminal then ((m₁, s.2).1, AutoState.recordTerminal (m₁, s.2).2 key epoch
          now cd) else (m₁, s.2)) = (m₁, afterDrive key now cd epoch obs s.2) := by
        unfold afterDrive
        split <;> rfl
      rw [hst] at h₄
      rcases runsOn_bind.mp h₄ with ⟨x, u₁, u₂, s₂, rfl, h₅, h₆⟩ | ⟨e, h₅, rfl⟩
      · obtain ⟨rfl, rfl, rfl⟩ := runsOn_pure.mp h₆
        exact ⟨u₁, m₁, .ok x, by simp, hd, h₅, rfl⟩
      · exact ⟨t₂, m₁, .error e, rfl, hd, h₅, rfl⟩
    · obtain ⟨m₁, hd, rfl⟩ := runsOn_focus.mp h₂
      exact Or.inl ⟨e, hd, rfl, rfl⟩

theorem warm_afterDrive {epoch e : Int} {obs : EpochObs} {st : AutoState} (h : e ≠ epoch) :
    warm key now (afterDrive key now cd epoch obs st) e = warm key now st e := by
  unfold warm afterDrive
  split
  · rw [AutoState.inCooldown_recordTerminal h]
  · rfl

theorem active_afterDrive {epoch : Int} {obs : EpochObs} {st : AutoState} :
    (afterDrive key now cd epoch obs st).active key = st.active key := by
  unfold afterDrive
  split
  · exact AutoState.active_recordTerminal
  · rfl

/-- The drives of a cycle in order, each with the way its steps ended. -/
inductive Drives (drive : Int → StAct sig Exc σ EpochObs) :
    σ → List (Int × Except Exc EpochObs) → Trace → σ → Prop where
  | nil {m : σ} : Drives drive m [] [] m
  | cons {m m₁ m₂ : σ} {epoch : Int} {t₁ t₂ : Trace} {x : Except Exc EpochObs}
      {ds : List (Int × Except Exc EpochObs)} (h : RunsOn (drive epoch) m t₁ x m₁)
      (hs : Drives drive m₁ ds t₂ m₂) : Drives drive m ((epoch, x) :: ds) (t₁ ++ t₂) m₂

/-- The trace tells the drives apart: each begins with the mark of its epoch. -/
theorem Drives.unique (hdrive : ∀ e m t r m', RunsOn (drive e) m t r m' → driven t = [e])
    {m m₁ m₂ : σ} {ds₁ ds₂ : List (Int × Except Exc EpochObs)} {t : Trace}
    (h₁ : Drives drive m ds₁ t m₁) (h₂ : Drives drive m ds₂ t m₂) : ds₁ = ds₂ ∧ m₁ = m₂ := by
  induction h₁ generalizing ds₂ m₂ with
  | nil =>
    generalize ht : ([] : Trace) = t at h₂
    cases h₂ with
    | nil => exact ⟨rfl, rfl⟩
    | cons h hs =>
      obtain ⟨rfl, -⟩ := List.append_eq_nil_iff.mp ht.symm
      cases hdrive _ _ _ _ _ h
  | @cons m n₁ n₂ e t₁ t₂ x ds h hs ih =>
    generalize ht : t₁ ++ t₂ = t at h₂
    cases h₂ with
    | nil =>
      obtain ⟨rfl, -⟩ := List.append_eq_nil_iff.mp ht
      cases hdrive _ _ _ _ _ h
    | @cons _ k₁ k₂ e' u₁ u₂ x' ds' h' hs' =>
      have he : e = e' := by
        have := congrArg driven ht
        rw [driven_append, driven_append, hdrive _ _ _ _ _ h, hdrive _ _ _ _ _ h'] at this
        exact (List.cons.inj this).1
      subst he
      obtain ⟨-, hx, rfl⟩ := Prog.Runs.prefix_unique h h' ht
      obtain ⟨rfl, rfl⟩ := Prod.mk.inj hx
      obtain ⟨rfl, rfl⟩ := ih hs'
      exact ⟨rfl, rfl⟩

theorem Drives.epoch_eq (hdrive : ∀ e, Yields (drive e) fun o => o.epoch = e) {m m' : σ}
    {ds : List (Int × Except Exc EpochObs)} {t : Trace} (h : Drives drive m ds t m') {e : Int}
    {o : EpochObs} (hin : (e, .ok o) ∈ ds) : o.epoch = e := by
  induction h with
  | nil => cases hin
  | cons h hs ih =>
    rcases List.mem_cons.mp hin with heq | hin
    · cases heq
      exact hdrive e _ _ _ _ h
    · exact ih hin

/-- A loop that returns has driven every epoch that was not in cooldown, and observes each epoch;
one that raises stops at the epoch that raised.  Neither changes which epochs are active. -/
theorem cycleLoop_drives :
    ∀ {es : List Int}, es.Nodup → ∀ {w : Int} {adv : Bool} {s s' : σ × AutoState} {t : Trace}
      {r : Except Exc (Int × List EpochObs)},
      RunsOn (cycleLoop drive key now cd es w adv) s t r s' →
      s'.2.active key = s.2.active key ∧ ∃ ds, Drives drive s.1 ds t s'.1 ∧
      match r with
      | .ok x => ds.map Prod.fst = es.filter (warm key now s.2) ∧ (∀ e x, (e, .error x) ∉ ds) ∧
          ∀ o, o ∈ x.2 ↔ (∃ e ∈ es, warm key now s.2 e = false ∧ o = cooldownObs e) ∨
            ∃ e, (e, .ok o) ∈ ds
      | .error x => ∃ pre e post ds', es = pre ++ e :: post ∧ ds = ds' ++ [(e, .error x)] ∧
          ds'.map Prod.fst = pre.filter (warm key now s.2) ∧ ∀ e x, (e, .error x) ∉ ds' := by
  intro es
  induction es with
  | nil =>
    intro _ w adv s s' t r h
    obtain ⟨rfl, rfl, rfl⟩ := runsOn_pure.mp h
    exact ⟨rfl, [], .nil, by simp⟩
  | cons epoch es ih =>
    intro hn w adv s s' t r h
    obtain ⟨hni, hn⟩ := List.nodup_cons.mp hn
    rcases cycleLoop_cons h with ⟨hw, r₀, h₁, rfl⟩ | ⟨hw, ⟨x, h₁, rfl, hs⟩ |
      ⟨obs, t₁, t₂, m₁, r₀, rfl, h₁, h₂, rfl⟩⟩
    · -- in cooldown: nothing is driven
      obtain ⟨hact, ds, hds, hr⟩ := ih hn h₁
      refine ⟨hact, ds, hds, ?_⟩
      cases r₀ with
      | ok x =>
        obtain ⟨hmap, hok, hobs⟩ := hr
        refine ⟨by rw [List.filter_cons, if_neg (by simp [hw]), hmap], hok, fun o => ?_⟩
        simp only [List.mem_cons, hobs, exists_eq_or_imp, hw, true_and]
        exact or_assoc.symm
      | error x =>
        obtain ⟨pre, e, post, ds', rfl, rfl, hmap, hok⟩ := hr
        refine ⟨epoch :: pre, e, post, ds', rfl, rfl, ?_, hok⟩
        rw [List.filter_cons, if_neg (by simp [hw]), hmap]
    · -- the drive raises, and the loop with it
      refine ⟨by rw [hs], [(epoch, .error x)], ?_, [], epoch, es, [], rfl, rfl, rfl, by simp⟩
      have hone := Drives.cons h₁ .nil
      rwa [List.append_nil] at hone
    · obtain ⟨hact, ds, hds, hr⟩ := ih hn h₂
      have hwarm : ∀ e ∈ es, warm key now (afterDrive key now cd epoch obs s.2) e =
          warm key now s.2 e := by
        intro e he
        refine warm_afterDrive ?_
        rintro rfl
        exact hni he
      refine ⟨by rw [hact, active_afterDrive], (epoch, .ok obs) :: ds, .cons h₁ hds, ?_⟩
      cases r₀ with
      | ok x =>
        obtain ⟨hmap, hok, hobs⟩ := hr
        refine ⟨?_, by simpa using hok, fun o => ?_⟩
        · rw [List.filter_cons, if_pos hw, List.map_cons, hmap, List.filter_congr hwarm]
        · have hcool : (∃ e ∈ es, warm key now (afterDrive key now cd epoch obs s.2) e = false ∧
              o = cooldownObs e) ↔ ∃ e ∈ es, warm key now s.2 e = false ∧ o = cooldownObs e :=
            exists_congr fun e => and_congr_right fun he => by rw [hwarm e he]
          simp only [List.mem_cons, hobs, hcool, exists_eq_or_imp, hw, Prod.mk.injEq,
            Except.ok.injEq, exists_or, exists_eq_left, Bool.true_eq_false, false_and, false_or]
          exact or_left_comm
      | error x =>
        obtain ⟨pre, e, post, ds', rfl, rfl, hmap, hok⟩ := hr
        refine ⟨epoch :: pre, e, post, (epoch, .ok obs) :: ds', rfl, rfl, ?_, by simpa using hok⟩
        rw [List.filter_cons, if_pos hw, List.map_cons, hmap,
          List.filter_congr fun e' he' => hwarm e' (List.mem_append_left _ he')]

/-! ## The cycle -/

theorem mem_pyRange {a b e : Int} : e ∈ pyRange a b ↔ a ≤ e ∧ e < b := by
  unfold pyRange
  simp only [List.mem_map, List.mem_range]
  constructor
  · rintro ⟨i, hi, rfl⟩
    omega
  · rintro ⟨h₁, h₂⟩
    exact ⟨(e - a).toNat, by omega, by omega⟩

theorem pairwise_pyRange (a b : Int) : (pyRange a b).Pairwise (· < ·) := by
  refine List.Pairwise.map _ (fun i j hij => ?_) List.pairwise_lt_range
  omega

theorem nodup_pyRange (a b : Int) : (pyRange a b).Nodup :=
  (pairwise_pyRange a b).imp fun h => ne_of_lt h

/-- The closed epochs a cycle goes through. -/
def cycleEpochs (lastDone : Option Int) (current : Int) : List Int :=
  pyRange (cycleStart (startWatermark lastDone current) current) current

/-- A cycle reads the current epoch, loops over the closed ones and records what it saw. -/
theorem runCycleWith_cases {s : Settings} {lastDone : Option Int} {u u' : σ × AutoState}
    {t : Trace} {r : Except Exc (Int × Int × List EpochObs)}
    (h : RunsOn (runCycleWith drive s lastDone now cd) u t r u') :
    ∃ ans t', t = ⟨.rpc (.currentRewardEpochId s.net.flareSystemsManager), ans⟩ :: t' ∧
      ((∃ x, (∀ c, ans ≠ .result c) ∧ t' = [] ∧ r = .error x ∧ u' = u) ∨
        ∃ current r₀ u₁, ans = .result current ∧
          RunsOn (cycleLoop drive (stateKey s.network) now cd (cycleEpochs lastDone current)
            (startWatermark lastDone current) true) u t' r₀ u₁ ∧
          ((∃ x, r₀ = .error x ∧ r = .error x ∧ u' = u₁) ∨
            ∃ w obs, r₀ = .ok (w, obs) ∧ r = .ok (w, current, obs) ∧
              u' = (u₁.1, recordCycle (stateKey s.network) now obs u₁.2))) := by
  obtain ⟨ans, t', rfl, hr⟩ := runsOn_rpc_bind.mp h
  refine ⟨ans, t', rfl, ?_⟩
  rcases hr with ⟨current, hc, h₁⟩ | ⟨x, hx, rfl, rfl, rfl⟩
  · refine Or.inr ⟨current, ?_⟩
    rcases runsOn_bind.mp h₁ with ⟨x, t₁, t₂, u₁, rfl, h₂, h₃⟩ | ⟨e, h₂, rfl⟩
    · have h₄ := runsOn_modify_bind.mp h₃
      obtain ⟨rfl, rfl, rfl⟩ := runsOn_pure.mp h₄
      exact ⟨.ok x, u₁, rpcResult_eq_ok hc, by rw [List.append_nil]; exact h₂,
        Or.inr ⟨x.1, x.2, rfl, rfl, rfl⟩⟩
    · exact ⟨.error e, u', rpcResult_eq_ok hc, h₂, Or.inl ⟨e, rfl, rfl, rfl⟩⟩
  · refine Or.inl ⟨x, ?_, rfl, rfl, rfl⟩
    rintro c rfl
    cases hx

/-- After a cycle the active epochs are those it saw and did not finish. -/
theorem mem_active_recordCycle {obs : List EpochObs} {st : AutoState} {e : Int} :
    e ∈ (recordCycle key now obs st).active key ↔ ∃ o ∈ obs, o.epoch = e ∧ o.done = false := by
  have hobs : e ∈ (st.observe key ((obs.filter fun o => !o.done).map fun o => o.epoch) now).active
      key ↔ ∃ o ∈ obs, o.epoch = e ∧ o.done = false := by
    rw [AutoState.mem_active_observe]
    simp only [List.mem_map, List.mem_filter, Bool.not_eq_true']
    constructor
    · rintro ⟨o, ⟨ho, hd⟩, rfl⟩
      exact ⟨o, ho, rfl, hd⟩
    · rintro ⟨o, ho, rfl, hd⟩
      exact ⟨o, ⟨ho, hd⟩, rfl⟩
  unfold recordCycle
  dsimp only
  split
  · exact hobs
  · split <;> simpa using hobs

end

/-! ## A raising epoch -/

section

variable (key : String) (now : ℚ) (epochs : List Int) (st : AutoState)
  (ds : List (Int × Except Exc EpochObs))

/-- The epoch did not get done in a cycle with these drives: it is in cooldown, its drive raised,
or it returned not done. -/
def Stuck (e : Int) : Prop :=
  (e ∈ epochs ∧ st.inCooldown key e now = true) ∨
    ∃ x, (e, x) ∈ ds ∧ ∀ o, x = .ok o → o.done = false

/-- No epoch keeps another from being driven, and a stuck one is recorded as active. -/
structure NeverBlocks (st' : AutoState) : Prop where
  fresh : ∀ e ∈ epochs, st.inCooldown key e now = false → ∃ x, (e, x) ∈ ds
  recorded : ∀ e, Stuck key now epochs st ds e → e ∈ st'.active key

/-- No drive raises; or the one that does has only epochs in cooldown after it, and every stuck
epoch was active before. -/
def RaisesHarmlessly : Prop :=
  ∀ e x, (e, .error x) ∈ ds →
    (∀ e' ∈ epochs, e < e' → st.inCooldown key e' now = true) ∧
      ∀ e', Stuck key now epochs st ds e' → e' ∈ st.active key

end

theorem warm_iff {key : String} {now : ℚ} {st : AutoState} {e : Int} :
    warm key now st e = true ↔ st.inCooldown key e now = false := by
  simp [warm]

section

variable [External]

/-- A stuck epoch never blocks a fresh one exactly in the cycles where no drive raises harmfully:
an exception of one drive ends the loop before the later epochs and before the state is recorded. -/
theorem neverBlocks_iff {a : DriveArgs} (ha : a.Keyless) {lastDone : Option Int} {cd : Int}
    {m m' : Mem} {st st' : AutoState} {t : Trace} {r : Except Exc (Int × Int × List EpochObs)}
    {current : Int} {ds : List (Int × Except Exc EpochObs)}
    (h : RunsOn (runCycle a lastDone cd) (m, st)
      (⟨.rpc (.currentRewardEpochId a.settings.net.flareSystemsManager), .result current⟩ :: t) r
      (m', st'))
    (hds : Drives (driveEpoch a) m ds t m') :
    NeverBlocks (stateKey a.settings.network) a.now (cycleEpochs lastDone current) st ds st' ↔
      RaisesHarmlessly (stateKey a.settings.network) a.now (cycleEpochs lastDone current) st
        ds := by
  obtain ⟨ans, t', ht, hr⟩ := runCycleWith_cases h
  obtain ⟨hans, rfl⟩ := List.cons.inj ht
  cases hans
  rcases hr with ⟨x, hx, -⟩ | ⟨c, r₀, u₁, hc, hloop, hend⟩
  · exact absurd rfl (hx current)
  cases hc
  obtain ⟨hact, ds', hds', hd⟩ := cycleLoop_drives (nodup_pyRange _ _) hloop
  obtain rfl : ds = ds' :=
    (Drives.unique (fun e m t r m' => driven_driveEpoch ha) hds hds').1
  rcases hend with ⟨x, rfl, rfl, hu⟩ | ⟨w, obs, rfl, rfl, hu⟩
  · obtain ⟨pre, e, post, ds', hsplit, rfl, hmap, hok⟩ := hd
    replace hsplit : cycleEpochs lastDone current = pre ++ e :: post := hsplit
    have hst : st' = u₁.2 := by rw [← hu]
    have hactive : st'.active (stateKey a.settings.network) =
        st.active (stateKey a.settings.network) := by rw [hst, hact]
    have hsorted : (cycleEpochs lastDone current).Pairwise (· < ·) := pairwise_pyRange _ _
    rw [hsplit, List.pairwise_append, List.pairwise_cons] at hsorted
    obtain ⟨-, ⟨hafter, -⟩, hbefore⟩ := hsorted
    have hpre : ∀ e', (∃ y, (e', y) ∈ ds') ↔
        e' ∈ pre ∧ st.inCooldown (stateKey a.settings.network) e' a.now = false := by
      intro e'
      have hm : e' ∈ ds'.map Prod.fst ↔ ∃ y, (e', y) ∈ ds' := by simp
      rw [← hm, hmap, List.mem_filter, warm_iff]
    constructor
    · -- a fresh epoch after `e` would have been driven after the last drive
      intro hn e' x' hin
      obtain ⟨rfl, rfl⟩ : e' = e ∧ x' = x := by
        rcases List.mem_append.mp hin with hm | hm
        · exact absurd hm (hok _ _)
        · simpa using hm
      refine ⟨fun e₁ he₁ hlt => ?_, fun e₁ hs => hactive ▸ hn.recorded e₁ hs⟩
      by_contra hcool
      obtain ⟨y, hy⟩ := hn.fresh e₁ he₁ (by simpa using hcool)
      rcases List.mem_append.mp hy with hm | hm
      · have := hbefore e₁ ((hpre e₁).mp ⟨y, hm⟩).1 e' (List.mem_cons_self ..)
        omega
      · simp only [List.mem_singleton, Prod.mk.injEq] at hm
        omega
    · intro hh
      obtain ⟨hcool, hin⟩ := hh e x (List.mem_append_right _ (List.mem_singleton_self _))
      refine ⟨fun e₁ he₁ hwarm => ?_, fun e₁ hs => hactive ▸ hin e₁ hs⟩
      have he₁' := hsplit ▸ he₁
      rcases List.mem_append.mp he₁' with hm | hm
      · obtain ⟨y, hy⟩ := (hpre e₁).mpr ⟨hm, hwarm⟩
        exact ⟨y, List.mem_append_left _ hy⟩
      rcases List.mem_cons.mp hm with rfl | hm
      · exact ⟨_, List.mem_append_right _ (List.mem_singleton_self _)⟩
      · rw [hcool e₁ he₁ (hafter e₁ hm)] at hwarm
        cases hwarm
  · obtain ⟨hmap, hok, hobs⟩ := hd
    refine iff_of_true ⟨fun e he hwarm => ?_, fun e hs => ?_⟩ fun e x hin => absurd hin (hok e x)
    · have hm : e ∈ ds.map Prod.fst := by
        rw [hmap]
        exact List.mem_filter.mpr ⟨he, warm_iff.mpr hwarm⟩
      simpa using hm
    · obtain rfl : st' = recordCycle (stateKey a.settings.network) a.now obs u₁.2 := by
        cases hu
        rfl
      refine mem_active_recordCycle.mpr ?_
      rcases hs with ⟨he, hcool⟩ | ⟨x, hin, hx⟩
      · exact ⟨cooldownObs e, (hobs _).mpr (Or.inl ⟨e, he, by simp [warm, hcool], rfl⟩), rfl, rfl⟩
      · cases x with
        | error x => exact absurd hin (hok e x)
        | ok o =>
          exact ⟨o, (hobs o).mpr (Or.inr ⟨e, hin⟩), hds.epoch_eq (yields_driveEpoch a) hin, hx o rfl⟩

end

/-! ### An epoch that raises before a fresh one -/

/-- A daemon with nothing to claim and no event log. -/
def bareArgs : DriveArgs :=
  { settings := {}
    voter := "0x0303030303030303030303030303030303030303"
    claimers := []
    now := 0
    uptimeEnabled := false
    initialDelay := 0
    epochEndTs := fun _ => 0
    ourSignedFn := none }

theorem bareArgs_keyless : bareArgs.Keyless := fun f hf => by cases hf

/-- The node answers the current epoch and nothing else. -/
def epochOnlyWorld : (op : Op) → op.Ans
  | .rpc (.currentRewardEpochId _) => .result 7
  | op => deafWorld op

def epochRead : Event sig :=
  ⟨.rpc (.currentRewardEpochId bareArgs.settings.net.flareSystemsManager), .result 7⟩

/-- What the drive of epoch 5 asks in that world: its first read fails. -/
def deafDrive : Trace :=
  [⟨.called (.driveEpoch 5), ()⟩,
    ⟨.rpc (.rewardsHash bareArgs.settings.net.flareSystemsManager 5), .transport "timed out"⟩]

def timedOut : Exc := .rpcError "eth_call transport failure: timed out"

theorem deafDrive_runs :
    RunsOn (@driveEpoch External.static bareArgs 5) {} deafDrive (.error timedOut) {} :=
  execOn_runs (S := sig) deafWorld (@driveEpoch External.static bareArgs 5) {}

theorem deafCycle_runs :
    RunsOn (@runCycle External.static bareArgs (some 4) 3600) ({}, {}) (epochRead :: deafDrive)
      (.error timedOut) ({}, {}) :=
  execOn_runs (S := sig) epochOnlyWorld (@runCycle External.static bareArgs (some 4) 3600) ({}, {})

theorem deafDrives :
    Drives (@driveEpoch External.static bareArgs) {} [(5, .error timedOut)] deafDrive {} := by
  have h := Drives.cons deafDrive_runs .nil
  rwa [List.append_nil] at h

/-- Epoch 5 raises: epoch 6 is not driven, and epoch 5 is not recorded. -/
theorem raisingEpoch_blocks :
    6 ∈ cycleEpochs (some 4) 7 ∧
      ∃ t r m' st' ds, RunsOn (@runCycle External.static bareArgs (some 4) 3600) ({}, {})
          (epochRead :: t) r (m', st') ∧
        Drives (@driveEpoch External.static bareArgs) {} ds t m' ∧ (∀ x, (6, x) ∉ ds) ∧
        5 ∉ st'.active (stateKey .flare) ∧
        ¬ NeverBlocks (stateKey .flare) 0 (cycleEpochs (some 4) 7) {} ds st' := by
  have hmem : 6 ∈ cycleEpochs (some 4) 7 := by decide
  have hnot : ∀ x, (6, x) ∉ [((5 : Int), (Except.error timedOut : Except Exc EpochObs))] := by simp
  refine ⟨hmem, deafDrive, _, _, _, _, deafCycle_runs, deafDrives, hnot, by decide, fun hn => ?_⟩
  obtain ⟨x, hx⟩ := hn.fresh 6 hmem (by decide)
  exact hnot x hx

theorem neverBlocks_iff_deaf :
    NeverBlocks (stateKey .flare) 0 (cycleEpochs (some 4) 7) {} [(5, .error timedOut)] {} ↔
      RaisesHarmlessly (stateKey .flare) 0 (cycleEpochs (some 4) 7) {} [(5, .error timedOut)] :=
  @neverBlocks_iff External.static _ bareArgs_keyless _ _ _ _ _ _ _ _ _ _ deafCycle_runs deafDrives

end Clif
