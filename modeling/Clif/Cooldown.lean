import Clif.LastDone
import Clif.SignedRoot
import Clif.TerminalLoud

/-!
# Cooldown — an epoch that ended terminally

The cooldowns are written by `record_terminal`, forgotten by `observe`, pruned by `evaluate` and
read by `in_cooldown`.  `runCycleWith_spec` says once what a cycle does to them; `cooldown_kept` is
about every run of cycles and reports.
-/

namespace Clif

open Effect

/-! ## What one cycle does -/

section

variable {σ : Type} {drive : Int → StAct sig Exc σ EpochObs} {key : String} {now : ℚ} {cd : Int}

/-- Only epochs of the cycle that are not in cooldown are driven. -/
theorem cycleLoop_within : ∀ {es : List Int}, es.Nodup → ∀ {w : Int} {adv : Bool}
    {s s' : σ × AutoState} {t : Trace} {r : Except Exc (Int × List EpochObs)},
    RunsOn (cycleLoop drive key now cd es w adv) s t r s' → ∃ ds, Drives drive s.1 ds t s'.1 ∧
      ∀ e x, (e, x) ∈ ds → e ∈ es ∧ warm key now s.2 e = true := by
  intro es
  induction es with
  | nil =>
    intro _ w adv s s' t r h
    obtain ⟨rfl, rfl, rfl⟩ := runsOn_pure.mp h
    exact ⟨[], .nil, by simp⟩
  | cons epoch es ih =>
    intro hn w adv s s' t r h
    obtain ⟨hni, hn⟩ := List.nodup_cons.mp hn
    rcases cycleLoop_cons h with ⟨hw, r₀, h₁, rfl⟩ | ⟨hw, ⟨x, h₁, rfl, hs⟩ |
      ⟨obs, t₁, t₂, m₁, r₀, rfl, h₁, h₂, rfl⟩⟩
    · obtain ⟨ds, hds, hin⟩ := ih hn h₁
      exact ⟨ds, hds, fun e x he => ⟨List.mem_cons_of_mem _ (hin e x he).1, (hin e x he).2⟩⟩
    · have hone := Drives.cons h₁ .nil
      rw [List.append_nil] at hone
      refine ⟨_, hone, fun e y he => ?_⟩
      cases List.mem_singleton.mp he
      exact ⟨List.mem_cons_self, hw⟩
    · obtain ⟨ds, hds, hin⟩ := ih hn h₂
      refine ⟨_, .cons h₁ hds, fun e y he => ?_⟩
      rcases List.mem_cons.mp he with heq | he
      · cases heq
        exact ⟨List.mem_cons_self, hw⟩
      · obtain ⟨hmem, hwarm⟩ := hin e y he
        have hne : e ≠ epoch := by
          rintro rfl
          exact hni hmem
        rw [warm_afterDrive hne] at hwarm
        exact ⟨List.mem_cons_of_mem _ hmem, hwarm⟩

/-- What a cycle does that read the current epoch and made the drives `ds`. -/
structure CycleSpec (key : String) (now : ℚ) (cd : Int) (lastDone : Option Int) (current : Int)
    (st : AutoState) (ds : List (Int × Except Exc EpochObs))
    (r : Except Exc (Int × Int × List EpochObs)) (st' : AutoState) : Prop where
  within : ∀ e x, (e, x) ∈ ds → e ∈ cycleEpochs lastDone current ∧ st.inCooldown key e now = false
  nodup : (ds.map Prod.fst).Nodup
  returned : ∀ w c obs, r = .ok (w, c, obs) → c = current ∧
    obs.map (fun o => o.epoch) = cycleEpochs lastDone current ∧
    w = advanceMark (startWatermark lastDone current) true obs ∧
    (∀ o, o ∈ obs ↔ (∃ e ∈ cycleEpochs lastDone current, st.inCooldown key e now = true ∧
      o = cooldownObs e) ∨ ∃ e, (e, .ok o) ∈ ds) ∧
    st' = recordCycle key now obs (recordDrives key now cd ds st)
  raised : ∀ x, r = .error x → st' = recordDrives key now cd ds st ∧
    ∀ e, EndedIn ds e → ∃ e' ∈ cycleEpochs lastDone current, e < e'

theorem runCycleWith_spec (hone : ∀ e m t r m', RunsOn (drive e) m t r m' → driven t = [e])
    (hepoch : ∀ e, Yields (drive e) fun o => o.epoch = e) {s : Settings} {lastDone : Option Int}
    {m m' : σ} {st st' : AutoState} {t : Trace} {r : Except Exc (Int × Int × List EpochObs)}
    {current : Int} {ds : List (Int × Except Exc EpochObs)}
    (h : RunsOn (runCycleWith drive s lastDone now cd) (m, st)
      (⟨.rpc (.currentRewardEpochId s.net.flareSystemsManager), .result current⟩ :: t) r (m', st'))
    (hds : Drives drive m ds t m') :
    CycleSpec (stateKey s.network) now cd lastDone current st ds r st' := by
  obtain ⟨hnodup, -, -⟩ := runCycleWith_end hone h hds
  obtain ⟨ans, t', ht, hr⟩ := runCycleWith_cases h
  obtain ⟨hans, rfl⟩ := List.cons.inj ht
  cases hans
  rcases hr with ⟨x, hx, -⟩ | ⟨c, r₀, u₁, hc, hloop, hend⟩
  · exact absurd rfl (hx current)
  cases hc
  have hsorted : (cycleEpochs lastDone current).Pairwise (· < ·) := pairwise_pyRange _ _
  obtain ⟨-, ds₁, hds₁, hd⟩ := cycleLoop_drives (nodup_pyRange _ _) hloop
  obtain rfl : ds = ds₁ := (Drives.unique hone hds hds₁).1
  obtain ⟨ds₂, hds₂, hst⟩ := cycleLoop_recorded hloop
  obtain rfl : ds = ds₂ := (Drives.unique hone hds hds₂).1
  obtain ⟨ds₃, hds₃, hin⟩ := cycleLoop_within (nodup_pyRange _ _) hloop
  obtain rfl : ds = ds₃ := (Drives.unique hone hds hds₃).1
  refine ⟨fun e x he => ⟨(hin e x he).1, warm_iff.mp (hin e x he).2⟩, hnodup, ?_, ?_⟩
  · rintro w c obs rfl
    rcases hend with ⟨x, -, hr, -⟩ | ⟨w', obs', rfl, hr, hu⟩
    · cases hr
    cases hr
    cases hu
    obtain ⟨hmap, hmark⟩ := cycleLoop_ok hepoch hloop
    obtain ⟨-, -, hobs⟩ := hd
    refine ⟨rfl, hmap, hmark, fun o => ?_, by rw [hst]⟩
    rw [hobs]
    simp only [warm, Bool.not_eq_false']
    rfl
  · rintro x rfl
    rcases hend with ⟨x', rfl, hr, hu⟩ | ⟨w', obs', -, hr, -⟩
    · obtain ⟨pre, e, post, ds', hsplit, rfl, hmap, -⟩ := hd
      refine ⟨by rw [← hst, ← hu], ?_⟩
      rintro e' ⟨o, ho, -⟩
      replace hsplit : cycleEpochs lastDone current = pre ++ e :: post := hsplit
      have hmem : e' ∈ ds'.map Prod.fst := by
        rcases List.mem_append.mp ho with ho | ho
        · exact List.mem_map_of_mem (f := Prod.fst) ho
        · simp at ho
      rw [hmap] at hmem
      rw [hsplit] at hsorted ⊢
      refine ⟨e, List.mem_append_right _ List.mem_cons_self, ?_⟩
      exact (List.pairwise_append.mp hsorted).2.2 e' (List.mem_filter.mp hmem).1 e
        List.mem_cons_self
    · cases hr

end

section

variable [External]

/-- A terminal observation is not a done one. -/
theorem yields_driveEpoch_terminal (a : DriveArgs) (epoch : Int) :
    Yields (driveEpoch a epoch) fun o => o.terminal = true → o.done = false := by
  unfold driveEpoch
  refine yields_bind yields_any fun _ _ => yields_bind yields_any fun actions _ => ?_
  refine yields_bind (yields_rewardPhase a epoch actions) fun x hx => ?_
  split
  · exact yields_pure fun _ => (hx _ rfl).2
  · refine yields_bind yields_any fun cos _ => yields_pure fun ht => ?_
    unfold claimObs at ht ⊢
    dsimp only at ht ⊢
    split at ht
    · cases ht
    · rename_i hdone
      rw [if_neg hdone]

end

theorem Drives.yields {σ : Type} {drive : Int → StAct sig Exc σ EpochObs} {P : EpochObs → Prop}
    (hdrive : ∀ e, Yields (drive e) P) {m m' : σ} {ds : List (Int × Except Exc EpochObs)}
    {t : Trace} (h : Drives drive m ds t m') {e : Int} {o : EpochObs} (hin : (e, .ok o) ∈ ds) :
    P o := by
  induction h with
  | nil => cases hin
  | cons h hs ih =>
    rcases List.mem_cons.mp hin with heq | hin
    · cases heq
      exact hdrive e _ _ _ _ h
    · exact ih hin

/-- The reason that names an epoch in cooldown. -/
def cooldownReason (key : String) (epoch : Int) : String :=
  s!"{key}: epoch {epoch} had a terminal fwd failure (in cooldown) — " ++
    "operator action likely needed"

/-- A stream with an active epoch is among those `evaluate` looks at. -/
theorem AutoState.get?_streams_pruned {st : AutoState} {key : String} {e : Int} {now : ℚ}
    (hact : e ∈ st.active key) :
    (st.pruned now).streams.get? key = some ((st.s key).prune now) := by
  obtain ⟨seen, hseen⟩ := Option.isSome_iff_exists.mp (Dict.mem_keys.mp hact)
  have hs : (st.pruned now).s key = (st.s key).prune now := AutoState.s_pruned
  cases hstream : (st.pruned now).streams.get? key with
  | none =>
    have hempty : (st.pruned now).s key = {} := by
      rw [AutoState.s, hstream]
      rfl
    have hfirst : ((st.s key).prune now).firstSeen.get? e = some seen := hseen
    rw [← hs, hempty] at hfirst
    cases hfirst
  | some s =>
    rw [← hs, AutoState.s, hstream]
    rfl

/-- `evaluate` names an active epoch whose cooldown is not over. -/
theorem AutoState.mem_evaluate {st : AutoState} {key : String} {e : Int} {now until_ : ℚ}
    {stale : Int} (hact : e ∈ st.active key)
    (hget : (st.s key).cooldownUntil.get? e = some until_) (hlt : now < until_) :
    cooldownReason key e ∈ (st.evaluate now stale).2 := by
  obtain ⟨seen, hseen⟩ := Option.isSome_iff_exists.mp (Dict.mem_keys.mp hact)
  refine List.mem_flatMap.mpr ⟨(key, (st.s key).prune now),
    Dict.mem_entries.mpr (AutoState.get?_streams_pruned hact), ?_⟩
  refine List.mem_flatMap.mpr ⟨(e, seen), Dict.mem_entries.mpr hseen, ?_⟩
  have hhot : now < (((st.s key).prune now).cooldownUntil.get? e).getD 0 := by
    rw [Stream.get?_prune hget hlt]
    exact hlt
  refine List.mem_append_right _ ?_
  rw [if_pos hhot]
  exact List.mem_singleton_self _

/-! ## Cycles and reports -/

/-- What happens to the state the cycles share. -/
inductive StateEvent where
  /-- A cycle at `now`, the current epoch it read, whether it returned, and its drives in order. -/
  | cycle (now : ℚ) (current : Option Int) (returned : Bool)
      (ds : List (Int × Except Exc EpochObs))
  | report (now : ℚ) (rep : Report)

namespace StateEvent

def now : StateEvent → ℚ
  | .cycle now _ _ _ => now
  | .report now _ => now

def current : StateEvent → Option Int
  | .cycle _ current _ _ => current
  | .report _ _ => none

def Returned : StateEvent → Prop
  | .cycle _ _ returned _ => returned = true
  | .report _ _ => False

def drives : StateEvent → List (Int × Except Exc EpochObs)
  | .cycle _ _ _ ds => ds
  | .report _ _ => []

/-- `drive_epoch` was called for the epoch. -/
def Calls (ev : StateEvent) (e : Int) : Prop := ∃ x, (e, x) ∈ ev.drives

/-- `drive_epoch` returned terminal for the epoch. -/
def Ends (ev : StateEvent) (e : Int) : Prop := EndedIn ev.drives e

/-- A cycle that returned, with the epoch inside its catch-up window. -/
def Covers (ev : StateEvent) (e : Int) : Prop :=
  ev.Returned ∧ ∃ c ∈ ev.current, c - maxCatchup ≤ e

end StateEvent

/-- The current epoch an answer tells. -/
def currentOf {α : Type} : Reply α → Option α
  | .result c => some c
  | _ => none

section

variable [External]

/-- A call of `run_cycle` with the watermark the last one returned, or the building of a report. -/
inductive StateStep (net : Network) (cd : Int) :
    Option Int × AutoState → StateEvent → Option Int × AutoState → Prop
  | returned {a : DriveArgs} (ha : a.Keyless) (hnet : a.settings.network = net)
      {lastDone : Option Int} {m m' : Mem} {st st' : AutoState} {t : Trace} {c : Reply Int}
      {w current : Int} {obs : List EpochObs} {ds : List (Int × Except Exc EpochObs)}
      (h : RunsOn (runCycle a lastDone cd) (m, st)
        (⟨.rpc (.currentRewardEpochId a.settings.net.flareSystemsManager), c⟩ :: t)
        (.ok (w, current, obs)) (m', st')) (hds : Drives (driveEpoch a) m ds t m') :
      StateStep net cd (lastDone, st) (.cycle a.now (currentOf c) true ds) (some w, st')
  | raised {a : DriveArgs} (ha : a.Keyless) (hnet : a.settings.network = net)
      {lastDone : Option Int} {m m' : Mem} {st st' : AutoState} {t : Trace} {c : Reply Int} {x : Exc}
      {ds : List (Int × Except Exc EpochObs)}
      (h : RunsOn (runCycle a lastDone cd) (m, st)
        (⟨.rpc (.currentRewardEpochId a.settings.net.flareSystemsManager), c⟩ :: t)
        (.error x) (m', st')) (hds : Drives (driveEpoch a) m ds t m') :
      StateStep net cd (lastDone, st) (.cycle a.now (currentOf c) false ds) (lastDone, st')
  | report {lastDone : Option Int} {st : AutoState} {name : Network} {interval stale : Int}
      {mark current : Option Int} {obs : List EpochObs} {now : ℚ} :
      StateStep net cd (lastDone, st)
        (.report now (buildEpochReport st name interval stale mark current obs now))
        (lastDone, st.pruned now)

/-- What is known of a step that is a cycle: it could not read the current epoch, or it meets the
specification. -/
theorem StateStep.cycle_cases {net : Network} {cd : Int} {u u' : Option Int × AutoState} {now : ℚ}
    {current : Option Int} {returned : Bool} {ds : List (Int × Except Exc EpochObs)}
    (h : StateStep net cd u (.cycle now current returned ds) u') :
    (current = none ∧ returned = false ∧ ds = [] ∧ u' = u) ∨
      ∃ c r, current = some c ∧ CycleSpec (stateKey net) now cd u.1 c u.2 ds r u'.2 ∧
        (∀ e o, (e, .ok o) ∈ ds → o.epoch = e ∧ (o.terminal = true → o.done = false)) ∧
        ((returned = true ∧ ∃ w obs, r = .ok (w, c, obs) ∧ u'.1 = some w) ∨
          (returned = false ∧ ∃ x, r = .error x ∧ u'.1 = u.1)) := by
  have hobs : ∀ {a : DriveArgs} {m m' : Mem} {t : Trace}, Drives (driveEpoch a) m ds t m' →
      ∀ e o, (e, .ok o) ∈ ds → o.epoch = e ∧ (o.terminal = true → o.done = false) := by
    intro a m m' t hds e o hin
    exact ⟨hds.epoch_eq (yields_driveEpoch a) hin,
      hds.yields (yields_driveEpoch_terminal a) hin⟩
  cases h with
  | @returned a ha hnet lastDone m m' st st' t ans w current obs ds h hds =>
    obtain ⟨ans', t', heq, hr⟩ := runCycleWith_cases h
    obtain ⟨hans, rfl⟩ := List.cons.inj heq
    cases hans
    rcases hr with ⟨x, -, -, hr, -⟩ | ⟨c, r₀, u₁, rfl, -, -⟩
    · cases hr
    · have hspec := runCycleWith_spec (fun e m t r m' => driven_driveEpoch ha)
        (yields_driveEpoch a) h hds
      rw [hnet] at hspec
      obtain ⟨rfl, -⟩ := hspec.returned _ _ _ rfl
      exact .inr ⟨_, _, rfl, hspec, hobs hds, .inl ⟨rfl, w, obs, rfl, rfl⟩⟩
  | @raised a ha hnet lastDone m m' st st' t ans x ds h hds =>
    obtain ⟨ans', t', heq, hr⟩ := runCycleWith_cases h
    obtain ⟨hans, rfl⟩ := List.cons.inj heq
    cases hans
    rcases hr with ⟨x', hne, rfl, -, hu⟩ | ⟨c, r₀, u₁, rfl, -, -⟩
    · cases hu
      obtain ⟨rfl, -⟩ := Drives.unique (fun e m t r m' => driven_driveEpoch ha) hds .nil
      refine .inl ⟨?_, rfl, rfl, rfl⟩
      cases ans with
      | result c => exact absurd rfl (hne c)
      | _ => rfl
    · have hspec := runCycleWith_spec (fun e m t r m' => driven_driveEpoch ha)
        (yields_driveEpoch a) h hds
      rw [hnet] at hspec
      exact .inr ⟨_, _, rfl, hspec, hobs hds, .inr ⟨rfl, x, rfl, rfl⟩⟩

/-- The epoch closed before the current epoch `c`, the watermark is below it, and its cooldown is on
record at least until `horizon`. -/
structure Live (key : String) (e : Int) (horizon : ℚ) (c : Int) (u : Option Int × AutoState) :
    Prop where
  below : ∃ w ∈ u.1, w < e
  nonneg : 0 ≤ e
  closed : e < c
  cooling : ∃ h, (u.2.s key).cooldownUntil.get? e = some h ∧ horizon ≤ h

omit [External] in
theorem mem_cycleEpochs {lastDone : Option Int} {current e : Int} :
    e ∈ cycleEpochs lastDone current ↔ startWatermark lastDone current < e ∧
      current - maxCatchup ≤ e ∧ 0 ≤ e ∧ e < current := by
  rw [cycleEpochs, mem_pyRange, cycleStart]
  omega

namespace CycleSpec

variable {key : String} {now : ℚ} {cd current : Int} {lastDone : Option Int}
  {st st' : AutoState} {ds : List (Int × Except Exc EpochObs)}
  {r : Except Exc (Int × Int × List EpochObs)} {e : Int}

omit [External]

/-- The watermark stays below an epoch observed not done. -/
theorem mark_lt (h : CycleSpec key now cd lastDone current st ds r st') {w c : Int}
    {obs : List EpochObs} (hr : r = .ok (w, c, obs)) {o : EpochObs} (ho : o ∈ obs)
    (hd : o.done = false) : w < o.epoch := by
  obtain ⟨-, hmap, rfl, -, -⟩ := h.returned _ _ _ hr
  have hnew : ∀ o ∈ obs, startWatermark lastDone current < o.epoch := by
    intro o ho
    have hmem : o.epoch ∈ obs.map fun o => o.epoch := List.mem_map_of_mem ho
    rw [hmap] at hmem
    exact (mem_cycleEpochs.mp hmem).1
  have hsorted : (obs.map fun o => o.epoch).Pairwise (· < ·) := hmap ▸ pairwise_pyRange _ _
  by_contra hle
  rw [done_of_le_advanceMark hnew hsorted o ho (not_lt.mp hle)] at hd
  cases hd

/-- An epoch observed not done is active, and keeps the cooldown that the drives left. -/
theorem kept (h : CycleSpec key now cd lastDone current st ds r st') {w c : Int}
    {obs : List EpochObs} (hr : r = .ok (w, c, obs)) {o : EpochObs} (ho : o ∈ obs)
    (hd : o.done = false) : o.epoch ∈ st'.active key ∧
      (st'.s key).cooldownUntil.get? o.epoch =
        ((recordDrives key now cd ds st).s key).cooldownUntil.get? o.epoch := by
  obtain ⟨-, -, -, -, rfl⟩ := h.returned _ _ _ hr
  refine ⟨mem_active_recordCycle.mpr ⟨o, ho, rfl, hd⟩, ?_⟩
  rw [cooldown_recordCycle, if_neg (not_gone ⟨o, ho, rfl, hd⟩)]

/-- An epoch in cooldown is not driven. -/
theorem not_called (h : CycleSpec key now cd lastDone current st ds r st')
    (hcool : st.inCooldown key e now = true) {x : Except Exc EpochObs} : (e, x) ∉ ds := by
  intro hin
  rw [(h.within e x hin).2] at hcool
  cases hcool

/-- A cycle that raises leaves alone what it did not drive. -/
theorem raised_kept (h : CycleSpec key now cd lastDone current st ds r st') {x : Exc}
    (hr : r = .error x) (hend : ¬ EndedIn ds e) :
    (e ∈ st'.active key ↔ e ∈ st.active key) ∧
      (st'.s key).cooldownUntil.get? e = (st.s key).cooldownUntil.get? e := by
  obtain ⟨rfl, -⟩ := h.raised x hr
  refine ⟨?_, ?_⟩
  · unfold AutoState.active
    rw [firstSeen_recordDrives]
  · rw [cooldown_recordDrives, if_neg fun hc => hend hc.2]

/-- The cooldown that the drives record for an epoch that ended. -/
theorem recorded (hend : EndedIn ds e) :
    ((recordDrives key now cd ds st).s key).cooldownUntil.get? e = some (now + cd) := by
  rw [cooldown_recordDrives, if_pos ⟨rfl, hend⟩]

end CycleSpec

/-- A step before the end of the cooldown: the epoch is not driven and its cooldown stays, unless a
cycle returns after the epoch left the catch-up window. -/
theorem Live.step {net : Network} {cd : Int} {u u' : Option Int × AutoState} {ev : StateEvent}
    {e c : Int} {horizon : ℚ} (hl : Live (stateKey net) e horizon c u)
    (h : StateStep net cd u ev u')
    (hnow : ev.now < horizon) (hcur : ∀ c' ∈ ev.current, c ≤ c') :
    ¬ ev.Calls e ∧ ((ev.Returned → ∀ c' ∈ ev.current, c' - maxCatchup ≤ e) →
      Live (stateKey net) e horizon c u') ∧ (ev.Covers e → e ∈ u'.2.active (stateKey net)) ∧
      (¬ ev.Returned → e ∈ u.2.active (stateKey net) → e ∈ u'.2.active (stateKey net)) := by
  obtain ⟨⟨w, hw, hlt⟩, hnonneg, hclosed, until_, hget, hle⟩ := hl
  have hhot : ev.now < until_ := lt_of_lt_of_le hnow hle
  cases ev with
  | report now rep =>
    cases h
    refine ⟨fun hc => ?_, fun _ => ⟨⟨w, hw, hlt⟩, hnonneg, hclosed, until_, ?_, hle⟩,
      fun hc => hc.1.elim, fun _ hact => ?_⟩
    · obtain ⟨x, hx⟩ := hc
      cases hx
    · rw [AutoState.s_pruned]
      exact Stream.get?_prune hget hhot
    · unfold AutoState.active at hact ⊢
      rw [AutoState.s_pruned]
      exact hact
  | cycle now current returned ds =>
    have hcool : u.2.inCooldown (stateKey net) e now = true := by
      unfold AutoState.inCooldown
      rw [hget]
      exact decide_eq_true hhot
    rcases h.cycle_cases with ⟨rfl, rfl, rfl, rfl⟩ | ⟨c', r, rfl, hspec, hobs, hr⟩
    · refine ⟨fun hc => ?_, fun _ => ⟨⟨w, hw, hlt⟩, hnonneg, hclosed, until_, hget, hle⟩,
        fun hc => ?_, fun _ hact => hact⟩
      · obtain ⟨x, hx⟩ := hc
        cases hx
      · cases hc.1
    · have hcalls : ∀ x, (e, x) ∉ ds := fun x => hspec.not_called hcool
      have hend : ¬ EndedIn ds e := fun ⟨o, ho, _⟩ => hcalls _ ho
      have hcc : c ≤ c' := hcur c' rfl
      refine ⟨fun ⟨x, hx⟩ => hcalls x hx, ?_⟩
      rcases hr with ⟨rfl, w', obs, rfl, hw'⟩ | ⟨rfl, x, rfl, hw'⟩
      · have hin : c' - maxCatchup ≤ e → cooldownObs e ∈ obs := by
          intro hwin
          refine ((hspec.returned _ _ _ rfl).2.2.2.1 _).mpr (.inl ⟨e, ?_, hcool, rfl⟩)
          rw [mem_cycleEpochs, startWatermark, hw]
          exact ⟨hlt, hwin, hnonneg, by omega⟩
        refine ⟨fun hwin => ?_, fun hc => ?_, fun hn => absurd rfl hn⟩
        · have hmem := hin (hwin rfl c' rfl)
          have hlt' : w' < e := hspec.mark_lt rfl hmem rfl
          refine ⟨⟨w', hw', hlt'⟩, hnonneg, hclosed, until_, ?_, hle⟩
          have hkept : (u'.2.s (stateKey net)).cooldownUntil.get? e = _ :=
            (hspec.kept rfl hmem rfl).2
          rw [hkept, cooldown_recordDrives, if_neg fun hc => hend hc.2]
          exact hget
        · obtain ⟨-, c'', hc'', hwin⟩ := hc
          cases hc''
          exact (hspec.kept rfl (hin hwin) rfl).1
      · obtain ⟨hact, hkept⟩ := hspec.raised_kept rfl hend
        refine ⟨fun _ => ⟨⟨w, hw' ▸ hw, hlt⟩, hnonneg, hclosed, until_, ?_, hle⟩,
          fun hc => ?_, fun _ => hact.mpr⟩
        · rw [hkept]
          exact hget
        · cases hc.1

/-- The cycle in which the epoch ended starts its cooldown. -/
theorem StateStep.live {net : Network} {cd : Int} {u u' : Option Int × AutoState} {ev : StateEvent}
    {e : Int} (h : StateStep net cd u ev u') (hend : ev.Ends e) :
    (∃ c ∈ ev.current, Live (stateKey net) e (ev.now + cd) c u') ∧
      (ev.Returned → e ∈ u'.2.active (stateKey net)) := by
  cases ev with
  | report now rep =>
    obtain ⟨o, ho, -⟩ := hend
    cases ho
  | cycle now current returned ds =>
    rcases h.cycle_cases with ⟨-, -, rfl, -⟩ | ⟨c, r, rfl, hspec, hobs, hr⟩
    · obtain ⟨o, ho, -⟩ := hend
      cases ho
    obtain ⟨o, ho, ht⟩ := id hend
    replace ho : (e, Except.ok o) ∈ ds := ho
    obtain ⟨rfl, hdone⟩ := hobs _ _ ho
    obtain ⟨hin, -⟩ := hspec.within _ _ ho
    obtain ⟨hstart, -, hnonneg, hclosed⟩ := mem_cycleEpochs.mp hin
    have hrec : ((recordDrives (stateKey net) now cd ds u.2).s (stateKey net)).cooldownUntil.get?
        o.epoch = some (now + cd) := CycleSpec.recorded hend
    rcases hr with ⟨rfl, w, obs, rfl, hw⟩ | ⟨rfl, x, rfl, hw⟩
    · have hmem : o ∈ obs := ((hspec.returned _ _ _ rfl).2.2.2.1 o).mpr (.inr ⟨_, ho⟩)
      obtain ⟨hact, hkept⟩ := hspec.kept rfl hmem (hdone ht)
      refine ⟨⟨c, rfl, ⟨w, hw, hspec.mark_lt rfl hmem (hdone ht)⟩, hnonneg, hclosed, _, ?_, le_rfl⟩,
        fun _ => hact⟩
      rw [hkept]
      exact hrec
    · -- the epoch that raised is a later one, so the watermark was not a fresh one
      obtain ⟨hst, hafter⟩ := hspec.raised x rfl
      obtain ⟨e', he', hlt⟩ := hafter _ hend
      refine ⟨⟨c, rfl, ?_, hnonneg, hclosed, _, by rw [hst]; exact hrec, le_rfl⟩,
        fun hc => by cases hc⟩
      rw [hw]
      cases hlast : u.1 with
      | some w =>
        rw [hlast] at hstart
        exact ⟨w, rfl, hstart⟩
      | none =>
        rw [hlast] at hstart
        have hclosed' := (mem_cycleEpochs.mp he').2.2.2
        simp only [startWatermark, Option.getD_none] at hstart
        omega

/-! ## Runs -/

/-- What the cooldown promises of a run. -/
structure CooldownKept (net : Network) (cd : Int) (es : List StateEvent) : Prop where
  /-- No later cycle drives the epoch before its cooldown is over. -/
  undriven : ∀ pre (ev : StateEvent) post e, es = pre ++ ev :: post → ev.Ends e →
    ∀ ev' ∈ post, ev'.now < ev.now + cd → ¬ ev'.Calls e
  /-- A report before then, when the last cycle that returned had the epoch in its window, is
  degraded and names the epoch. -/
  named : ∀ pre (ev : StateEvent) post e, es = pre ++ ev :: post → ev.Ends e →
    ∀ mid c quiet now rep rest, ev :: post = mid ++ c :: (quiet ++ .report now rep :: rest) →
      c.Covers e → (∀ ev' ∈ quiet, ¬ ev'.Returned) → now < ev.now + cd →
      rep.degraded = true ∧ cooldownReason (stateKey net) e ∈ rep.reasons

theorem Live.run {net : Network} {cd e c : Int} {horizon : ℚ} {u u' : Option Int × AutoState}
    {es : List StateEvent} (hl : Live (stateKey net) e horizon c u)
    (h : Run (StateStep net cd) u es u') (hnow : ∀ ev ∈ es, ev.now < horizon)
    (hcur : ∀ ev ∈ es, ∀ c' ∈ ev.current, c ≤ c')
    (hwin : ∀ ev ∈ es, ev.Returned → ∀ c' ∈ ev.current, c' - maxCatchup ≤ e) :
    Live (stateKey net) e horizon c u' := by
  induction h with
  | nil => exact hl
  | @snoc es u₁ ev u₂ h hs ih =>
    have hlive := ih (fun ev' h' => hnow ev' (List.mem_append_left _ h'))
      (fun ev' h' => hcur ev' (List.mem_append_left _ h'))
      (fun ev' h' => hwin ev' (List.mem_append_left _ h'))
    have hlast : ev ∈ es ++ [ev] := List.mem_append_right _ (List.mem_singleton_self ev)
    exact (hlive.step hs (hnow ev hlast) (hcur ev hlast)).2.1 (hwin ev hlast)

/-- Cycles that raise and reports forget nothing of it. -/
theorem Live.run_quiet {net : Network} {cd e c : Int} {horizon : ℚ}
    {u u' : Option Int × AutoState} {es : List StateEvent} (hl : Live (stateKey net) e horizon c u)
    (hact : e ∈ u.2.active (stateKey net)) (h : Run (StateStep net cd) u es u')
    (hnow : ∀ ev ∈ es, ev.now < horizon) (hcur : ∀ ev ∈ es, ∀ c' ∈ ev.current, c ≤ c')
    (hquiet : ∀ ev ∈ es, ¬ ev.Returned) :
    Live (stateKey net) e horizon c u' ∧ e ∈ u'.2.active (stateKey net) := by
  induction h with
  | nil => exact ⟨hl, hact⟩
  | @snoc es u₁ ev u₂ h hs ih =>
    obtain ⟨hlive, hact₁⟩ := ih (fun ev' h' => hnow ev' (List.mem_append_left _ h'))
      (fun ev' h' => hcur ev' (List.mem_append_left _ h'))
      (fun ev' h' => hquiet ev' (List.mem_append_left _ h'))
    have hlast : ev ∈ es ++ [ev] := List.mem_append_right _ (List.mem_singleton_self ev)
    obtain ⟨-, hnext, -, hkeep⟩ := hlive.step hs (hnow ev hlast) (hcur ev hlast)
    exact ⟨hnext fun hr => absurd hr (hquiet ev hlast), hkeep (hquiet ev hlast) hact₁⟩

/-- A report of a state in which the cooldown is on and the epoch active. -/
theorem Live.report {net : Network} {cd e c : Int} {horizon now : ℚ} {rep : Report}
    {u u' : Option Int × AutoState} (hl : Live (stateKey net) e horizon c u)
    (hact : e ∈ u.2.active (stateKey net)) (h : StateStep net cd u (.report now rep) u')
    (hnow : now < horizon) :
    rep.degraded = true ∧ cooldownReason (stateKey net) e ∈ rep.reasons := by
  obtain ⟨until_, hget, hle⟩ := hl.cooling
  cases h with
  | @report lastDone st name interval stale mark current obs now =>
    have hmem : cooldownReason (stateKey net) e ∈ (st.evaluate now stale).2 :=
      AutoState.mem_evaluate hact hget (lt_of_lt_of_le hnow hle)
    refine ⟨?_, hmem⟩
    show (!(st.evaluate now stale).2.isEmpty) = true
    rw [List.isEmpty_eq_false_iff.mpr (List.ne_nil_of_mem hmem)]
    rfl

/-- An epoch that a cycle drives is in its catch-up window. -/
theorem StateStep.window {net : Network} {cd : Int} {u u' : Option Int × AutoState}
    {ev : StateEvent} {e : Int} (h : StateStep net cd u ev u') (hcalls : ev.Calls e) :
    ∃ c ∈ ev.current, c - maxCatchup ≤ e := by
  obtain ⟨x, hx⟩ := hcalls
  cases ev with
  | report now rep => cases hx
  | cycle now current returned ds =>
    rcases h.cycle_cases with ⟨-, -, rfl, -⟩ | ⟨c, r, rfl, hspec, -, -⟩
    · cases hx
    · exact ⟨c, rfl, (mem_cycleEpochs.mp (hspec.within e x hx).1).2.1⟩

omit [External] in
/-- The order of a list, of one of its elements and of a later one. -/
theorem ordered {R : StateEvent → StateEvent → Prop} {pre mid rest : List StateEvent}
    {ev ev' : StateEvent} (h : (pre ++ ev :: (mid ++ ev' :: rest)).Pairwise R) :
    (∀ ev'' ∈ mid, R ev ev'') ∧ (∀ ev'' ∈ mid, R ev'' ev') ∧ R ev ev' := by
  obtain ⟨-, h, -⟩ := List.pairwise_append.mp h
  obtain ⟨hev, h⟩ := List.pairwise_cons.mp h
  obtain ⟨-, -, hmid⟩ := List.pairwise_append.mp h
  exact ⟨fun ev'' h'' => hev ev'' (List.mem_append_left _ h''),
    fun ev'' h'' => hmid ev'' h'' ev' List.mem_cons_self,
    hev ev' (List.mem_append_right _ List.mem_cons_self)⟩

/-- **The terminal cooldown is kept.** -/
theorem cooldown_kept {net : Network} {cd : Int} {u u' : Option Int × AutoState}
    {es : List StateEvent} (h : Run (StateStep net cd) u es u')
    (hnow : es.Pairwise fun ev ev' => ev.now ≤ ev'.now)
    (hcur : es.Pairwise fun ev ev' => ∀ c ∈ ev.current, ∀ c' ∈ ev'.current, c ≤ c') :
    CooldownKept net cd es := by
  constructor
  · rintro pre ev post e rfl hend ev' hev' hlt hcalls
    obtain ⟨mid, rest, rfl⟩ := List.append_of_mem hev'
    obtain ⟨u₁, -, h₁⟩ := h.append_inv
    obtain ⟨u₂, hs, h₂⟩ := h₁.cons_inv
    obtain ⟨u₃, hmid, h₃⟩ := h₂.append_inv
    obtain ⟨u₄, hs', -⟩ := h₃.cons_inv
    obtain ⟨⟨c, hc, hlive⟩, -⟩ := hs.live hend
    obtain ⟨hc₁, hc₂, hc₃⟩ := ordered hcur
    obtain ⟨-, hn₂, -⟩ := ordered hnow
    obtain ⟨c', hc', hwin⟩ := hs'.window hcalls
    refine (Live.step (hlive.run hmid (fun ev'' h'' => ?_) (fun ev'' h'' => hc₁ ev'' h'' c hc)
      fun ev'' h'' _ c'' hc'' => ?_) hs' hlt (hc₃ c hc)).1 hcalls
    · exact lt_of_le_of_lt (hn₂ ev'' h'') hlt
    · have hle := hc₂ ev'' h'' c'' hc'' c' hc'
      omega
  · rintro pre ev post e rfl hend mid c quiet now rep rest heq hcov hquiet hlt
    obtain ⟨u₁, -, h₁⟩ := h.append_inv
    obtain ⟨hret, c', hc', hwin⟩ := id hcov
    cases mid with
    | nil =>
      obtain ⟨rfl, rfl⟩ := List.cons.inj heq
      obtain ⟨u₂, hs, h₂⟩ := h₁.cons_inv
      obtain ⟨u₃, hq, h₃⟩ := h₂.append_inv
      obtain ⟨u₄, hrep, -⟩ := h₃.cons_inv
      obtain ⟨⟨c, hc, hlive⟩, hact⟩ := hs.live hend
      obtain ⟨hc₁, -, -⟩ := ordered hcur
      obtain ⟨-, hn₂, -⟩ := ordered hnow
      obtain ⟨hlive', hact'⟩ := hlive.run_quiet (hact hret) hq
        (fun ev'' h'' => lt_of_le_of_lt (hn₂ ev'' h'') hlt) (fun ev'' h'' => hc₁ ev'' h'' c hc)
        hquiet
      exact hlive'.report hact' hrep hlt
    | cons ev₀ mid =>
      rw [List.cons_append] at heq
      obtain ⟨rfl, rfl⟩ := List.cons.inj heq
      obtain ⟨u₂, hs, h₂⟩ := h₁.cons_inv
      obtain ⟨u₃, hmid, h₃⟩ := h₂.append_inv
      obtain ⟨u₄, hstep, h₄⟩ := h₃.cons_inv
      obtain ⟨u₅, hq, h₅⟩ := h₄.append_inv
      obtain ⟨u₆, hrep, -⟩ := h₅.cons_inv
      obtain ⟨⟨c₀, hc₀, hlive⟩, -⟩ := hs.live hend
      obtain ⟨hc₁, hc₂, hc₃⟩ := ordered hcur
      rw [show mid ++ c :: (quiet ++ .report now rep :: rest) =
        (mid ++ c :: quiet) ++ .report now rep :: rest by simp] at hnow hcur
      obtain ⟨-, hn₂, -⟩ := ordered hnow
      obtain ⟨hc₄, -, -⟩ := ordered hcur
      have hbefore : ∀ ev'' ∈ mid ++ c :: quiet, ev''.now < ev.now + cd := fun ev'' h'' =>
        lt_of_le_of_lt (hn₂ ev'' h'') hlt
      have hclive := hlive.run hmid (fun ev'' h'' => hbefore ev'' (List.mem_append_left _ h''))
        (fun ev'' h'' => hc₁ ev'' h'' c₀ hc₀) fun ev'' h'' _ c'' hc'' => by
          have hle := hc₂ ev'' h'' c'' hc'' c' hc'
          omega
      obtain ⟨-, hnext, hact, -⟩ := hclive.step hstep
        (hbefore c (List.mem_append_right _ List.mem_cons_self)) (hc₃ c₀ hc₀)
      have hwin' : c.Returned → ∀ c'' ∈ c.current, c'' - maxCatchup ≤ e := by
        intro _ c'' hc''
        rw [Option.mem_unique hc'' hc']
        exact hwin
      have hin : ∀ ev'' ∈ quiet, ev'' ∈ mid ++ c :: quiet := fun ev'' h'' =>
        List.mem_append_right _ (List.mem_cons_of_mem _ h'')
      obtain ⟨hlive', hact'⟩ := (hnext hwin').run_quiet (hact hcov) hq
        (fun ev'' h'' => hbefore ev'' (hin ev'' h''))
        (fun ev'' h'' => hc₄ ev'' (hin ev'' h'') c₀ hc₀) hquiet
      exact hlive'.report hact' hrep hlt

end

/-! ### A vote that cannot be signed -/

/-- Epoch 5 just closed and its file is published, but no caller is provisioned for the vote. -/
def endedWorld : (op : Op) → op.Ans
  | .rpc (.currentRewardEpochId _) => .result 6
  | .rpc (.rewardsHash _ _) => .result zeroBytes32
  | .rpc (.voterRewardsSignInfo ..) => .result (0, 0)
  | .readRewardDistributionData _ _ => some rootOnlyFile.fields
  | op => deafWorld op

def endedExec (now : ℚ) (st : AutoState) :
    Trace × Except Exc (Int × Int × List EpochObs) × (Mem × AutoState) :=
  execOn (S := sig) endedWorld
    (@runCycle External.static { bareArgs with now := now } (some 4) 3600) ({}, st)

/-- The state after the cycle at time 0. -/
def endedState : AutoState := (endedExec 0 {}).2.2.2

def endedDrive : Trace :=
  (execOn (S := sig) endedWorld (@driveEpoch External.static bareArgs 5) {}).1

def endedResult : Except Exc EpochObs :=
  (execOn (S := sig) endedWorld (@driveEpoch External.static bareArgs 5) {}).2.1

def endedRead : Event sig :=
  ⟨.rpc (.currentRewardEpochId bareArgs.settings.net.flareSystemsManager), .result 6⟩

def endedReport (now : ℚ) (st : AutoState) : Report :=
  buildEpochReport st .flare 1800 86400 (some 4) (some 6) [] now

/-- The epoch ends at time 0. -/
theorem endedCycle : @StateStep External.static .flare 3600 (some 4, {})
    (.cycle 0 (some 6) true [(5, endedResult)]) (some 4, endedState) := by
  have hdrives := Drives.cons (execOn_runs (S := sig) endedWorld
    (@driveEpoch External.static bareArgs 5) {}) .nil
  have hrun : endedExec 0 {} = (endedRead :: (endedDrive ++ []), .ok (4, 6, (endedExec 0
      {}).2.1.toOption.elim [] fun x => x.2.2), (execOn (S := sig) endedWorld
        (@driveEpoch External.static bareArgs 5) {}).2.2, endedState) := by
    with_unfolding_all rfl
  have h := execOn_runs (S := sig) endedWorld
    (@runCycle External.static { bareArgs with now := 0 } (some 4) 3600) ({}, {})
  rw [show execOn (S := sig) endedWorld (@runCycle External.static { bareArgs with now := 0 }
    (some 4) 3600) ({}, {}) = _ from hrun] at h
  exact @StateStep.returned External.static _ _ { bareArgs with now := 0 } bareArgs_keyless rfl _ _ _
    _ _ _ _ _ _ _ _ h hdrives

/-- The cycle at time 2 passes it over. -/
theorem skippedCycle : @StateStep External.static .flare 3600 (some 4, endedState.pruned 1)
    (.cycle 2 (some 6) true []) (some 4, (endedExec 2 (endedState.pruned 1)).2.2.2) := by
  have hrun : endedExec 2 (endedState.pruned 1) = ([endedRead], .ok (4, 6, [cooldownObs 5]), {},
      (endedExec 2 (endedState.pruned 1)).2.2.2) := by
    with_unfolding_all rfl
  have h := execOn_runs (S := sig) endedWorld
    (@runCycle External.static { bareArgs with now := 2 } (some 4) 3600) ({}, endedState.pruned 1)
  rw [show execOn (S := sig) endedWorld (@runCycle External.static { bareArgs with now := 2 }
    (some 4) 3600) ({}, endedState.pruned 1) = _ from hrun] at h
  exact @StateStep.returned External.static _ _ { bareArgs with now := 2 } bareArgs_keyless rfl _ _ _
    _ _ _ _ _ _ _ _ h .nil

theorem cooldown_kept_ended : CooldownKept .flare 3600
    [.cycle 0 (some 6) true [(5, endedResult)], .report 1 (endedReport 1 endedState),
      .cycle 2 (some 6) true [],
      .report 3 (endedReport 3 (endedExec 2 (endedState.pruned 1)).2.2.2)] := by
  let _ := External.static
  refine cooldown_kept (u := (some 4, {}))
    (.snoc (.snoc (.snoc (.single endedCycle) .report) skippedCycle) .report) ?_ ?_
  · simp only [List.pairwise_cons, List.mem_cons, List.not_mem_nil, or_false, forall_eq_or_imp,
      forall_eq, StateEvent.now, List.Pairwise.nil]
    norm_num
  · simp only [List.pairwise_cons, List.mem_cons, List.not_mem_nil, or_false, forall_eq_or_imp,
      forall_eq, StateEvent.current, List.Pairwise.nil]
    simp

end Clif
