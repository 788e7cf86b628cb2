import Clif.ClaimSettled
import Clif.Effect.Rely
import Clif.Staleness

/-!
# SettledChain — a daemon on a settled chain

Restarting the daemon, or losing its status file, costs nothing once the chain is settled: the
cycle reads, and asks `fwd` for nothing.  `settled_quiet` says so after any past of the process, and
that the report is healthy again.
-/

namespace Clif

open Effect

/-- What the node answers when every epoch before `cur` is settled: final, with the uptime vote in,
and passed by the next claimable epoch of everybody. -/
def SettledAt (cur : Int) : Event sig → Prop
  | ⟨.rpc (.currentRewardEpochId _), a⟩ => a = .result cur
  | ⟨.rpc (.rewardsHash _ e), a⟩ => ∃ h, a = .result h ∧ (e < cur → h ≠ zeroBytes32)
  | ⟨.rpc (.voterRewardsSignInfo ..), a⟩ => ∃ i, a = .result i
  | ⟨.rpc (.uptimeVoteHash ..), a⟩ => ∃ h, a = .result h
  | ⟨.rpc (.voterUptimeVoteSignInfo ..), a⟩ => ∃ i, a = .result i ∧ i.1 ≠ 0
  | ⟨.rpc (.nextClaimableRewardEpochId ..), a⟩ => ∃ n, a = .result n ∧ cur ≤ n
  | ⟨.rpc (.rewardEpochIdRange _), a⟩ => ∃ x, a = .result x
  | ⟨.rpc (.firstRewardEpochStartTs _), a⟩ => ∃ x, a = .result x
  | ⟨.rpc (.rewardEpochDurationSeconds _), a⟩ => ∃ x, a = .result x
  | _ => True

/-- The exchange only reads: it neither asks `fwd` for a signature, nor sends a blob, nor
reports. -/
def Op.Looks (op : Op) : Prop := op.kind = .view ∨ op.kind = .read ∨ op.kind = .entry

theorem rely_rpc {R G : Event sig → Prop} {o : RpcOp} {P : o.Res → Prop}
    (h : ∀ a, R ⟨.rpc o, a⟩ → ∃ x, a = .result x ∧ P x) (hg : ∀ a, G ⟨.rpc o, a⟩) :
    Rely R G (rpc o) P := by
  intro t r hr ht
  obtain ⟨a, rfl, rfl⟩ := runs_rpc.mp hr
  obtain ⟨x, rfl, hP⟩ := h a (ht _ (List.mem_singleton_self _))
  refine ⟨⟨x, rfl, hP⟩, fun e he => ?_⟩
  rw [List.mem_singleton.mp he]
  exact hg _

theorem rely_enter {R G : Event sig → Prop} {c : Call} (hg : G ⟨.called c, ()⟩) :
    Rely R G (enter c) fun _ => True :=
  rely_ask fun _ _ => ⟨trivial, hg⟩

/-! ## One epoch -/

section

variable [External] {cur epoch : Int}

abbrev Settles (cur : Int) {α : Type} (p : Py α) (Q : α → Prop) : Prop :=
  Rely (SettledAt cur) (fun e => e.op.Looks) p Q

abbrev SettlesOn (cur : Int) {σ α : Type} (p : StAct sig Exc σ α) (s : σ) (Q : α → σ → Prop) : Prop :=
  RelyOn (SettledAt cur) (fun e => e.op.Looks) p s Q

theorem settles_uptimePhase {a : DriveArgs} : Settles cur (uptimePhase a epoch) fun _ => True := by
  unfold uptimePhase
  split
  swap
  · exact rely_pure trivial
  refine rely_bind (P := fun _ => True) (rely_rpc (fun x hx => ?_) fun _ => .inr (.inl rfl))
    fun h _ => ?_
  · obtain ⟨h, rfl⟩ := hx
    exact ⟨h, rfl, trivial⟩
  split
  swap
  · exact rely_pure trivial
  refine rely_bind (rely_rpc (fun x hx => hx) fun _ => .inr (.inl rfl)) fun info hinfo => ?_
  rw [if_neg (by simpa using hinfo)]
  exact rely_pure trivial

/-- A final epoch goes on to its claims. -/
theorem settles_rewardPhase {a : DriveArgs} {actions : List Action} {m : Mem} (h : epoch < cur) :
    SettlesOn cur (rewardPhase a epoch actions) m fun x _ => x = .ok actions := by
  have hviews : Settles cur (rewardViews a epoch) fun fs => fs.1 = true := by
    unfold rewardViews
    refine rely_bind (rely_rpc (fun x hx => hx) fun _ => .inl rfl) fun hash hhash => ?_
    refine rely_bind (P := fun _ => True) (rely_rpc (fun x hx => ?_) fun _ => .inl rfl)
      fun info _ => rely_pure ?_
    · obtain ⟨i, rfl⟩ := hx
      exact ⟨i, rfl, trivial⟩
    · simpa using hhash h
  have hstate : SettlesOn cur (rewardState a epoch) m fun fs _ => fs.1 = true := by
    unfold rewardState
    refine relyOn_lift_bind (rely_attempt hviews) fun x hx => ?_
    obtain ⟨fs, rfl, hfs⟩ := hx
    exact relyOn_pure hfs
  unfold rewardPhase
  refine relyOn_bind hstate fun fs m' hfs => ?_
  rw [if_pos hfs]
  exact relyOn_pure rfl

omit [External] in
/-- A claimed epoch is no claim any more. -/
theorem settles_unclaimableReason {s : Settings} {b : String} (h : epoch < cur) :
    Settles cur (unclaimableReason s b epoch) fun reason => reason.isSome = true := by
  unfold unclaimableReason
  refine rely_bind (rely_rpc (fun x hx => hx) fun _ => .inl rfl) fun nxt hnxt => ?_
  refine rely_bind (P := fun _ => True) (rely_rpc (fun x hx => ?_) fun _ => .inl rfl)
    fun range _ => ?_
  · obtain ⟨x, rfl⟩ := hx
    exact ⟨x, rfl, trivial⟩
  have hsigned : Settles cur (signedInRange s epoch range.2) fun _ => True := by
    unfold signedInRange
    split
    · refine rely_bind (P := fun _ => True) (rely_rpc (fun x hx => ?_) fun _ => .inl rfl)
        fun hash _ => rely_pure trivial
      obtain ⟨hash, rfl, -⟩ := hx
      exact ⟨hash, rfl, trivial⟩
    · exact rely_pure trivial
  refine rely_bind hsigned fun signed _ => rely_pure ?_
  rw [reasonFromState, if_pos (lt_of_lt_of_le h hnxt)]
  rfl

theorem settles_runClaim {s : Settings} {ct : Int} {b : String} {wait : Bool} {timeout : Nat}
    {retry : Option String} (h : epoch < cur) (hct : (claimTypeOf ct).isOk = true) :
    Settles cur (runClaim s ct b (some epoch) wait timeout retry) fun co =>
      co.status = .nothingClaimable := by
  unfold runClaim
  refine rely_bind (rely_enter (.inr (.inr rfl))) fun _ _ => ?_
  obtain ⟨c, hc⟩ : ∃ c, claimTypeOf ct = .ok c := by
    cases hx : claimTypeOf ct with
    | ok c => exact ⟨c, rfl⟩
    | error e =>
      rw [hx] at hct
      cases hct
  refine rely_bind (P := fun _ => True) (rely_fromExcept hc trivial) fun c' _ => ?_
  refine rely_bind (rely_attempt (settles_unclaimableReason h)) fun x hx => ?_
  obtain ⟨reason, rfl, hsome⟩ := hx
  obtain ⟨text, rfl⟩ := Option.isSome_iff_exists.mp hsome
  exact rely_pure rfl

theorem settles_claimStreams {s : Settings} (h : epoch < cur) {claimers : List (Int × String)}
    (hclaimers : ∀ cb ∈ claimers, (claimTypeOf cb.1).isOk = true) :
    Settles cur (claimStreams s epoch claimers) fun cos =>
      ∀ co ∈ cos, co.status = .nothingClaimable := by
  induction claimers with
  | nil => exact rely_pure (by simp)
  | cons cb rest ih =>
    obtain ⟨hcb, hrest⟩ := List.forall_mem_cons.mp hclaimers
    refine rely_bind (settles_runClaim h hcb) fun co hco => ?_
    refine rely_bind (ih hrest) fun cos hcos => rely_pure ?_
    exact List.forall_mem_cons.mpr ⟨hco, hcos⟩

/-- A settled epoch is done in one cycle. -/
theorem settles_driveEpoch {a : DriveArgs} {m : Mem} (h : epoch < cur)
    (hclaimers : ∀ cb ∈ a.claimers, (claimTypeOf cb.1).isOk = true) :
    SettlesOn cur (driveEpoch a epoch) m fun obs _ =>
      obs.epoch = epoch ∧ obs.done = true ∧ obs.terminal = false := by
  unfold driveEpoch
  refine relyOn_lift_bind (rely_enter (.inr (.inr rfl))) fun _ _ => ?_
  refine relyOn_lift_bind settles_uptimePhase fun actions _ => ?_
  refine relyOn_bind (settles_rewardPhase h) fun x m' hx => ?_
  subst hx
  refine relyOn_lift_bind (settles_claimStreams h hclaimers) fun cos hcos => relyOn_pure ?_
  have hall : (cos.all fun co => claimDone.contains co.status) = true := by
    refine List.all_eq_true.mpr fun co hco => ?_
    rw [hcos co hco]
    rfl
  unfold claimObs
  rw [if_pos hall]
  exact ⟨rfl, rfl, rfl⟩

end

/-! ## One cycle -/

section

variable {σ : Type} {R G : Event sig → Prop} {drive : Int → StAct sig Exc σ EpochObs} {key : String}
  {now : ℚ} {cd : Int}

/-- Where every epoch is driven to its end, the watermark reaches the last one. -/
theorem relyOn_cycleLoop {st : AutoState} {es : List Int}
    (hdrive : ∀ e ∈ es, ∀ m, RelyOn R G (drive e) m fun obs _ =>
      obs.epoch = e ∧ obs.done = true ∧ obs.terminal = false)
    (hwarm : ∀ e ∈ es, st.inCooldown key e now = false) {w : Int} {m : σ} :
    RelyOn R G (cycleLoop drive key now cd es w true) (m, st) fun r u =>
      r.1 = es.getLast?.getD w ∧ (∀ o ∈ r.2, o.done = true) ∧ u.2 = st := by
  induction es generalizing w m with
  | nil => exact relyOn_pure ⟨rfl, by simp, rfl⟩
  | cons e es ih =>
    obtain ⟨hd, hdrive⟩ := List.forall_mem_cons.mp hdrive
    obtain ⟨hw, hwarm⟩ := List.forall_mem_cons.mp hwarm
    unfold cycleLoop
    refine relyOn_get_bind ?_
    rw [if_neg (by simpa using hw)]
    refine relyOn_bind (P := fun obs u => (obs.done = true ∧ obs.terminal = false) ∧ u.2 = st)
      (relyOn_focus ((hd m).mono fun obs m' hobs => ⟨hobs.2, rfl⟩)) fun obs u hobs => ?_
    obtain ⟨m', st'⟩ := u
    obtain ⟨⟨hdone, hterm⟩, rfl⟩ := hobs
    refine relyOn_modify_bind ?_
    simp only [hterm, hdone, Bool.and_self, if_true, if_neg Bool.false_ne_true]
    refine relyOn_bind (ih hdrive hwarm) fun r u hr => relyOn_pure ?_
    obtain ⟨hmark, hobs, hst⟩ := hr
    refine ⟨?_, List.forall_mem_cons.mpr ⟨hdone, hobs⟩, hst⟩
    rw [hmark]
    cases es with
    | nil => rfl
    | cons e' es => simp [List.getLast?_cons]

end

theorem getLast?_pyRange {a b : Int} (h : a < b) : (pyRange a b).getLast? = some (b - 1) := by
  obtain ⟨n, hn⟩ : ∃ n : Nat, (b - a).toNat = n + 1 := ⟨(b - a).toNat - 1, by omega⟩
  rw [pyRange, hn, List.range_succ, List.map_append, List.map_singleton, List.getLast?_concat]
  congr 1
  omega

/-- The watermark of a cycle that finds everything done. -/
theorem getLast?_cycle {w cur : Int} (h : 0 < cur) :
    (pyRange (cycleStart w cur) cur).getLast?.getD w = max w (cur - 1) := by
  unfold cycleStart maxCatchup
  by_cases hlt : max (max (w + 1) (cur - 8)) 0 < cur
  · rw [getLast?_pyRange hlt]
    show cur - 1 = _
    omega
  · have hnil : pyRange (max (max (w + 1) (cur - 8)) 0) cur = [] := by
      rw [pyRange, Int.toNat_eq_zero.mpr (by omega)]
      rfl
    rw [hnil]
    show w = _
    omega

section

variable [External] {cur : Int}

theorem settles_runCycle {a : DriveArgs} {lastDone : Option Int} {cd : Int} {m : Mem}
    {st : AutoState} (hcur : 0 < cur)
    (hclaimers : ∀ cb ∈ a.claimers, (claimTypeOf cb.1).isOk = true)
    (hwarm : ∀ e, st.inCooldown (stateKey a.settings.network) e a.now = false) :
    SettlesOn cur (runCycle a lastDone cd) (m, st) fun r u =>
      r.1 = max (startWatermark lastDone cur) (cur - 1) ∧ r.2.1 = cur ∧
        (∀ o ∈ r.2.2, o.done = true) ∧
        u.2 = recordCycle (stateKey a.settings.network) a.now r.2.2 st := by
  unfold runCycle runCycleWith
  refine relyOn_lift_bind (P := fun current => current = cur)
    (rely_rpc (fun x hx => ⟨cur, hx, rfl⟩) fun _ => .inl rfl) fun current hcurrent => ?_
  subst hcurrent
  refine relyOn_bind (relyOn_cycleLoop (fun e he m => settles_driveEpoch ?_ hclaimers)
    fun e _ => hwarm e) fun r u hr => ?_
  · obtain ⟨i, hi, rfl⟩ := List.mem_map.mp he
    have hlt := List.mem_range.mp hi
    omega
  obtain ⟨m', st'⟩ := u
  obtain ⟨hmark, hobs, rfl⟩ := hr
  rw [getLast?_cycle hcur] at hmark
  exact relyOn_modify_bind (relyOn_pure ⟨hmark, rfl, hobs, rfl⟩)

variable {s : Settings} {voter : String} {claimers : List (Int × String)} {interval : Int}
  {now reportNow : ℚ} {p : Process}

omit [External] in
theorem settles_timingOf {timing : Option (Int × Int)} :
    Settles cur (timingOf s timing) fun _ => True := by
  cases timing with
  | some timing => exact rely_pure trivial
  | none =>
    refine rely_bind (P := fun _ => True) (rely_rpc (fun x hx => ?_) fun _ => .inl rfl)
      fun first _ => ?_
    · obtain ⟨x, rfl⟩ := hx
      exact ⟨x, rfl, trivial⟩
    refine rely_bind (P := fun _ => True) (rely_rpc (fun x hx => ?_) fun _ => .inl rfl)
      fun duration _ => rely_pure trivial
    obtain ⟨x, rfl⟩ := hx
    exact ⟨x, rfl, trivial⟩

theorem settles_cycleBody (hcur : 0 < cur)
    (hclaimers : ∀ cb ∈ claimers, (claimTypeOf cb.1).isOk = true)
    (hwarm : ∀ e, p.auto.inCooldown (stateKey s.network) e now = false) :
    SettlesOn cur (cycleBody s voter claimers now) p fun r p' =>
      r.2 = cur ∧ (∀ o ∈ r.1, o.done = true) ∧
        p'.lastDone = some (max (startWatermark p.lastDone cur) (cur - 1)) ∧
        p'.auto = recordCycle (stateKey s.network) now r.1 p.auto := by
  unfold cycleBody
  refine relyOn_get_bind (relyOn_lift_bind settles_timingOf fun timing _ => relyOn_modify_bind ?_)
  refine relyOn_bind (P := fun r p' => (r.2.1 = cur ∧ (∀ o ∈ r.2.2, o.done = true) ∧
      r.1 = max (startWatermark p.lastDone cur) (cur - 1)) ∧
        p'.auto = recordCycle (stateKey s.network) now r.2.2 p.auto)
    (relyOn_focus ((settles_runCycle (a := daemonArgs s voter claimers now timing) hcur hclaimers
      hwarm).mono fun r u hr => ⟨⟨hr.2.1, hr.2.2.1, hr.1⟩, hr.2.2.2⟩)) fun r p' hr => ?_
  obtain ⟨⟨hread, hobs, hmark⟩, hauto⟩ := hr
  refine relyOn_modify_bind ?_
  -- nothing is left to tell the progress of
  have hnone : ((r.2.2.filter fun o => !o.done).map fun o => o.epoch) = [] := by
    rw [List.filter_eq_nil_iff.mpr fun o ho => by simp [hobs o ho]]
    rfl
  rw [hnone]
  refine relyOn_bind (P := fun _ u => u.lastDone = some r.1 ∧ u.auto = p'.auto)
    (relyOn_focus (relyOn_pure ⟨rfl, rfl⟩)) fun _ u hu => relyOn_pure ?_
  exact ⟨hread, hobs, by rw [hu.1, hmark], by rw [hu.2, hauto]⟩

end

/-! ## What the cycle leaves -/

/-- Only the one stream holds epochs. -/
def AutoState.Only (st : AutoState) (key : String) : Prop :=
  ∀ key', key ≠ key' → ∀ e, (st.s key').firstSeen.get? e = none

/-- Every cooldown of the stream ends by `T`. -/
def AutoState.CooledBy (st : AutoState) (key : String) (T : ℚ) : Prop :=
  ∀ e u, (st.s key).cooldownUntil.get? e = some u → u ≤ T

section

variable {key key' : String} {now T : ℚ} {obs : List EpochObs} {st : AutoState}

theorem s_recordCycle_of_ne (h : key ≠ key') : (recordCycle key now obs st).s key' = st.s key' := by
  unfold recordCycle
  dsimp only
  split
  · rw [AutoState.observe, AutoState.s_update_of_ne h]
  · split
    · rw [AutoState.recordSuccess, AutoState.s_update_of_ne h, AutoState.recordAttempt,
        AutoState.s_update_of_ne h, AutoState.observe, AutoState.s_update_of_ne h]
    · rw [AutoState.recordAttempt, AutoState.s_update_of_ne h, AutoState.observe,
        AutoState.s_update_of_ne h]

theorem AutoState.Only.recordCycle (h : st.Only key) : (recordCycle key now obs st).Only key := by
  intro key' hne e
  rw [s_recordCycle_of_ne hne]
  exact h key' hne e

theorem AutoState.Only.pruned (h : st.Only key) : (st.pruned now).Only key := by
  intro key' hne e
  rw [AutoState.s_pruned]
  exact h key' hne e

theorem AutoState.CooledBy.recordCycle (h : st.CooledBy key T) :
    (recordCycle key now obs st).CooledBy key T := by
  intro e u hu
  rw [cooldown_recordCycle] at hu
  split at hu
  · cases hu
  · exact h e u hu

theorem AutoState.CooledBy.pruned (h : st.CooledBy key T) : (st.pruned now).CooledBy key T := by
  intro e u hu
  rw [AutoState.s_pruned, Stream.prune, Dict.eraseAll, Dict.get?_filterKeys] at hu
  split at hu
  · exact h e u hu
  · cases hu

theorem AutoState.CooledBy.warm (h : st.CooledBy key T) (hT : 0 ≤ T) (hnow : T ≤ now) (e : Int) :
    st.inCooldown key e now = false := by
  refine decide_eq_false (not_lt.mpr ?_)
  cases hu : (st.s key).cooldownUntil.get? e with
  | none => exact hT.trans hnow
  | some u => exact (h e u hu).trans hnow

/-- A cycle that finds everything done leaves no epoch to degrade the report. -/
theorem evaluate_recordCycle_done (honly : st.Only key) (hobs : ∀ o ∈ obs, o.done = true) {t : ℚ}
    {stale : Int} : ((recordCycle key now obs st).evaluate t stale).1 = false := by
  by_contra hdeg
  obtain ⟨key', e, seen, hseen, -⟩ := AutoState.evaluate_iff.mp (Bool.eq_true_of_not_eq_false hdeg)
  by_cases hkey : key = key'
  · subst hkey
    rw [firstSeen_recordCycle, if_neg] at hseen
    · cases hseen
    · rintro ⟨o, ho, -, hopen⟩
      rw [hobs o ho] at hopen
      cases hopen
  · rw [honly.recordCycle key' hkey e] at hseen
    cases hseen

end

/-- The report shows nothing left to do before `cur`. -/
structure Report.AllDone (report : Report) (lastDone : Option Int) (cur : Int) : Prop where
  healthy : report.degraded = false
  current : report.currentEpoch = some cur
  mark : report.lastDoneEpoch = some (max (startWatermark lastDone cur) (cur - 1))
  done : ∀ v ∈ report.epochs, v.done = true

/-- A cycle after `T` that met a settled chain. -/
structure DaemonEvent.Settled (T : ℚ) (ev : DaemonEvent) : Prop where
  late : T ≤ ev.now
  answers : ∃ cur, 0 < cur ∧ ∀ e ∈ ev.trace, SettledAt cur e

section

variable [External] {s : Settings} {voter : String} {claimers : List (Int × String)}
  {interval : Int} {now reportNow T : ℚ} {p p₀ p' : Process} {cur : Int}

/-- What every process keeps: it tracks the epochs of one stream. -/
theorem DaemonStep.only {ev : DaemonEvent} (h : DaemonStep s voter claimers interval p ev p')
    (honly : p.auto.Only (stateKey s.network)) : p'.auto.Only (stateKey s.network) := by
  obtain ⟨auto, current, obs, hout, hauto, -⟩ := h.outcome
  have hdrives : ∀ ds, (recordDrives (stateKey s.network) ev.now s.epochTerminalCooldownSec ds
      p.auto).Only (stateKey s.network) := by
    intro ds key' hne e
    rw [firstSeen_recordDrives]
    exact honly key' hne e
  rw [hauto]
  refine AutoState.Only.pruned ?_
  generalize p'.lastDone = mark at hout
  cases hout with
  | unread => exact honly
  | raised hread hspec =>
    rw [(hspec.raised _ rfl).1]
    exact hdrives _
  | returned hread hspec =>
    obtain ⟨-, -, -, -, heq⟩ := hspec.returned _ _ _ rfl
    rw [heq]
    exact (hdrives _).recordCycle

theorem daemonRun_only {w₀ : Option Int} {es : List DaemonEvent}
    (h : Run (DaemonStep s voter claimers interval) { lastDone := w₀ } es p) :
    p.auto.Only (stateKey s.network) := by
  refine Run.invariant (fun _ p => p.auto.Only (stateKey s.network)) (fun _ _ _ => rfl)
    (fun es p ev p' _ honly hstep => hstep.only honly) h

/-- One cycle on a settled chain. -/
theorem settles_daemonCycle (hcur : 0 < cur)
    (hclaimers : ∀ cb ∈ claimers, (claimTypeOf cb.1).isOk = true)
    (honly : p.auto.Only (stateKey s.network)) (hcool : p.auto.CooledBy (stateKey s.network) T)
    (hT : 0 ≤ T) (hnow : T ≤ now) :
    SettlesOn cur (daemonCycle s voter claimers interval now reportNow) p fun report p' =>
      report.AllDone p.lastDone cur ∧ p'.auto.CooledBy (stateKey s.network) T := by
  unfold daemonCycle
  refine relyOn_attempt_bind (settles_cycleBody hcur hclaimers (hcool.warm hT hnow)) fun r u hr => ?_
  obtain ⟨hread, hobs, hmark, hauto⟩ := hr
  unfold Process.report
  refine relyOn_get_bind (relyOn_modify_bind (relyOn_pure ⟨?_, ?_⟩))
  · refine ⟨?_, congrArg some hread, hmark, fun v hv => ?_⟩
    · show (u.auto.evaluate _ _).1 = false
      rw [hauto]
      exact evaluate_recordCycle_done honly hobs
    · obtain ⟨o, ho, rfl⟩ := List.mem_map.mp hv
      exact hobs o ho
  · show (u.auto.pruned _).CooledBy _ _
    rw [hauto]
    exact hcool.recordCycle.pruned

/-- The cooldowns stay over as long as the chain stays settled. -/
theorem settledRun_cool {es : List DaemonEvent}
    (hclaimers : ∀ cb ∈ claimers, (claimTypeOf cb.1).isOk = true)
    (honly : p₀.auto.Only (stateKey s.network)) (hT : 0 ≤ T)
    (hcool : p₀.auto.CooledBy (stateKey s.network) T)
    (hrun : Run (DaemonStep s voter claimers interval) p₀ es p) (hes : ∀ ev ∈ es, ev.Settled T) :
    p.auto.Only (stateKey s.network) ∧ p.auto.CooledBy (stateKey s.network) T := by
  induction hrun with
  | nil => exact ⟨honly, hcool⟩
  | @snoc es p₁ ev p₂ h hs ih =>
    obtain ⟨hbefore, hlast⟩ := List.forall_mem_append.mp hes
    obtain ⟨honly, hcool⟩ := ih hbefore
    obtain ⟨hlate, cur, hcur, hans⟩ := hlast ev (List.mem_singleton_self ev)
    obtain ⟨⟨report, -, -, hleft⟩, -⟩ :=
      settles_daemonCycle hcur hclaimers honly hcool hT hlate _ _ _ hs hans
    exact ⟨hs.only honly, hleft⟩

/-- Whatever the process went through: once its cooldowns are over, each cycle that meets a settled
chain returns, asks for nothing, moves the watermark to the last closed epoch and reports
healthy. -/
theorem settled_quiet {w₀ : Option Int} {past es : List DaemonEvent}
    (hclaimers : ∀ cb ∈ claimers, (claimTypeOf cb.1).isOk = true)
    (hpast : Run (DaemonStep s voter claimers interval) { lastDone := w₀ } past p₀) (hT : 0 ≤ T)
    (hcool : p₀.auto.CooledBy (stateKey s.network) T)
    (hrun : Run (DaemonStep s voter claimers interval) p₀ es p) (hes : ∀ ev ∈ es, ev.Settled T)
    {t : Trace} {r : Except Exc Report}
    (hcycle : RunsOn (daemonCycle s voter claimers interval now reportNow) p t r p')
    (hnow : T ≤ now) (hcur : 0 < cur) (ht : ∀ e ∈ t, SettledAt cur e) :
    (∃ report, r = .ok report ∧ report.AllDone p.lastDone cur) ∧ ∀ e ∈ t, e.op.Looks := by
  obtain ⟨honly, hleft⟩ := settledRun_cool hclaimers (daemonRun_only hpast) hT hcool hrun hes
  obtain ⟨⟨report, hr, hdone, -⟩, hlooks⟩ :=
    settles_daemonCycle hcur hclaimers honly hleft hT hnow _ _ _ hcycle ht
  exact ⟨⟨report, hr, hdone⟩, hlooks⟩

end

/-! ### A chain that settles after a vote that could not be signed -/

/-- The epochs before 7 are settled. -/
def quietWorld : (op : Op) → op.Ans
  | .rpc (.currentRewardEpochId _) => .result 7
  | .rpc (.rewardsHash ..) => .result finalHash
  | .rpc (.uptimeVoteHash ..) => .result finalHash
  | .rpc (.voterRewardsSignInfo ..) => .result (0, 0)
  | .rpc (.voterUptimeVoteSignInfo ..) => .result (1, 1)
  | .rpc (.nextClaimableRewardEpochId ..) => .result 7
  | .rpc (.rewardEpochIdRange _) => .result (0, 7)
  | .rpc (.firstRewardEpochStartTs _) => .result 0
  | .rpc (.rewardEpochDurationSeconds _) => .result 100
  | op => deafWorld op

theorem finalHash_ne : finalHash ≠ zeroBytes32 := by decide

theorem settledAt_quietWorld (op : Op) : SettledAt 7 ⟨op, quietWorld op⟩ := by
  cases op with
  | rpc o =>
    cases o with
    | rewardsHash fsm epoch => exact ⟨finalHash, rfl, fun _ => finalHash_ne⟩
    | voterUptimeVoteSignInfo fsm epoch voter => exact ⟨(1, 1), rfl, by decide⟩
    | nextClaimableRewardEpochId rm owner => exact ⟨7, rfl, le_rfl⟩
    | _ => first | rfl | trivial | exact ⟨_, rfl⟩
  | _ => trivial

/-- Epoch 5 is over, and the vote on it cannot be signed. -/
def endedNode : (op : Op) → op.Ans
  | .rpc (.firstRewardEpochStartTs _) => .result 0
  | .rpc (.rewardEpochDurationSeconds _) => .result 100
  | op => endedWorld op

/-- A cycle of the daemon. -/
def cycleAt (world : (op : Op) → op.Ans) (now : ℚ) (p : Process) :
    Trace × Except Exc Report × Process :=
  @execOn sig Exc Process Report world
    (@daemonCycle External.static {} bareArgs.voter [(1, feeBeneficiary)] 1800 now (now + 1)) p

theorem cycleAt_step {world : (op : Op) → op.Ans} {now : ℚ} {p : Process}
    (hok : (cycleAt world now p).2.1.isOk = true) (chain : Int) : ∃ report,
    @DaemonStep External.static {} bareArgs.voter [(1, feeBeneficiary)] 1800 p
      ⟨now, now + 1, chain, (cycleAt world now p).1, report⟩ (cycleAt world now p).2.2 := by
  have hrun := execOn_runs (S := sig) world
    (@daemonCycle External.static {} bareArgs.voter [(1, feeBeneficiary)] 1800 now (now + 1)) p
  cases hres : (cycleAt world now p).2.1 with
  | ok report =>
    rw [show (execOn (S := sig) world _ p).2.1 = .ok report from hres] at hrun
    exact ⟨report, hrun⟩
  | error e =>
    rw [hres] at hok
    cases hok

theorem settledAt_cycle {now : ℚ} {p : Process} :
    ∀ e ∈ (cycleAt quietWorld now p).1, SettledAt 7 e := by
  intro e he
  have hans : e.ans = quietWorld e.op := Prog.exec_answers (S := sig) quietWorld _ e he
  obtain ⟨op, ans⟩ := e
  obtain rfl : ans = quietWorld op := hans
  exact settledAt_quietWorld op

/-- A process that resumed after epoch 4: the vote on epoch 5 ends in a cooldown until 8600. -/
def afterEnded : Process := (cycleAt endedNode 5000 { lastDone := some 4 }).2.2

/-- A cycle on the settled chain, at 9000. -/
def afterSettled : Process := (cycleAt quietWorld 9000 afterEnded).2.2

/-- The epoch was in cooldown, which is over; the next cycles are quiet. -/
theorem settled_quiet_cooled :
    afterEnded.auto.inCooldown (stateKey .flare) 5 8599 = true ∧
      (∃ report, (cycleAt quietWorld 10000 afterSettled).2.1 = .ok report ∧
        report.AllDone afterSettled.lastDone 7) ∧
      ∀ e ∈ (cycleAt quietWorld 10000 afterSettled).1, e.op.Looks := by
  have hfacts : ((cycleAt endedNode 5000 { lastDone := some 4 }).2.1.isOk = true ∧
      (cycleAt quietWorld 9000 afterEnded).2.1.isOk = true) ∧
      afterEnded.auto.inCooldown (stateKey .flare) 5 8599 = true ∧
      ∀ x ∈ (afterEnded.auto.s (stateKey .flare)).cooldownUntil.entries, x.2 ≤ 8600 := by
    decide +kernel
  obtain ⟨⟨hended, hsettled⟩, hcooling, hcooled⟩ := hfacts
  obtain ⟨report, hpast⟩ := cycleAt_step hended 6
  obtain ⟨report', hstep⟩ := cycleAt_step hsettled 7
  refine ⟨hcooling, @settled_quiet External.static {} bareArgs.voter [(1, feeBeneficiary)] 1800
    10000 (10000 + 1) 8600 afterSettled afterEnded _ 7 (some 4) _ _ (by decide) (.single hpast)
    (by norm_num) (fun e u hu => hcooled _ (Dict.mem_entries.mpr hu)) (.single hstep)
    (fun ev hev => ?_) _ _ (execOn_runs (S := sig) _ _ _) (by norm_num) (by decide) settledAt_cycle⟩
  obtain rfl := List.mem_singleton.mp hev
  exact ⟨by norm_num, 7, by decide, settledAt_cycle⟩

end Clif
