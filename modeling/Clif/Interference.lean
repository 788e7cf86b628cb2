import Clif.TerminalLoud

/-!
# Interference — what the uptime leg does to the other legs

Two drives of one epoch, with the uptime vote switched off and on, that hear the same about the
rewards and the claims.  `nonInterfering_iff` says when they do the same.
-/

namespace Clif

open Effect

section

variable [External]

/-- The arguments with the uptime vote switched on or off. -/
@[reducible] def DriveArgs.withUptime (a : DriveArgs) (on : Bool) : DriveArgs :=
  { a with uptimeEnabled := on }

/-- The same observation with more actions before its own. -/
def EpochObs.after (up : List Action) (o : EpochObs) : EpochObs :=
  { o with actions := up ++ o.actions }

/-- What the drive with the vote did apart from the vote is what the drive without it did. -/
structure NonInterfering (tOff tOn : Trace) (rOff rOn : Except Exc EpochObs) (mOff mOn : Mem) :
    Prop where
  asked : tOn = tOff
  kept : mOn = mOff
  shown : ∃ up : List Action, up.length ≤ 1 ∧ (∀ act ∈ up, act.1 = "uptime") ∧
    rOn = rOff.map (EpochObs.after up)

/-! ## The drive after the uptime phase -/

def shift (up : List Action) : Except EpochObs (List Action) → Except EpochObs (List Action)
  | .error o => .error (o.after up)
  | .ok acts => .ok (up ++ acts)

variable {a : DriveArgs} {epoch : Int} {m m' : Mem} {t : Trace} {up acts : List Action}

omit [External] in
theorem afterSign_shift {net : Network} {ro : FspOutcome} :
    afterSign epoch net (up ++ acts) ro =
      afterSign epoch net acts ro >>= fun x => pure (shift up x) := by
  unfold afterSign
  cases ro.status with
  | failedRetryable =>
    simp only [bind_assoc]
    refine bind_congr fun _ => bind_congr fun m => ?_
    split
    · simp [shift, EpochObs.after, List.append_assoc]
    · simp [shift, EpochObs.after, List.append_assoc]
  | _ => simp [shift, EpochObs.after, List.append_assoc]

theorem rewardSignPhase_shift {on : Bool} :
    rewardSignPhase (a.withUptime on) epoch (up ++ acts) =
      rewardSignPhase (a.withUptime false) epoch acts >>= fun x => pure (shift up x) := by
  unfold rewardSignPhase
  dsimp only [DriveArgs.withUptime]
  by_cases hwait : a.now < a.epochEndTs epoch + a.initialDelay
  · rw [if_pos hwait, if_pos hwait, pure_bind]
    rfl
  · rw [if_neg hwait, if_neg hwait, bind_assoc]
    refine bind_congr fun file => ?_
    cases file with
    | none => rw [pure_bind]; rfl
    | some file => simp only [bind_assoc, afterSign_shift]

theorem rewardPhase_shift {on : Bool} :
    rewardPhase (a.withUptime on) epoch (up ++ acts) =
      rewardPhase (a.withUptime false) epoch acts >>= fun x => pure (shift up x) := by
  unfold rewardPhase
  rw [bind_assoc]
  refine bind_congr fun st => ?_
  by_cases hfinal : st.1 = true
  · rw [if_pos hfinal, if_pos hfinal, pure_bind]
    rfl
  · rw [if_neg hfinal, if_neg hfinal]
    by_cases hsigned : st.2 = true
    · rw [if_pos hsigned, if_pos hsigned, pure_bind]
      rfl
    · rw [if_neg hsigned, if_neg hsigned]
      exact rewardSignPhase_shift

/-- The drive after its uptime phase. -/
def restOf (a : DriveArgs) (epoch : Int) (acts : List Action) : Daemon EpochObs := do
  match ← rewardPhase a epoch acts with
  | .error obs => return obs
  | .ok acts =>
    let cos ← lift (claimStreams a.settings epoch a.claimers)
    return claimObs epoch acts cos

theorem driveEpoch_eq : driveEpoch a epoch = (do
    lift (enter (.driveEpoch epoch))
    let acts ← lift (uptimePhase a epoch)
    restOf a epoch acts) := rfl

omit [External] in
theorem claimObs_after {cos : List ClaimOutcome} :
    claimObs epoch (up ++ acts) cos = (claimObs epoch acts cos).after up := by
  unfold claimObs
  dsimp only
  split
  · simp [EpochObs.after, List.append_assoc]
  · simp [EpochObs.after, List.append_assoc]

/-- The uptime actions pass through the rest of the drive. -/
theorem restOf_shift {on : Bool} : restOf (a.withUptime on) epoch (up ++ acts) =
    restOf (a.withUptime false) epoch acts >>= fun o => pure (o.after up) := by
  unfold restOf
  rw [rewardPhase_shift, bind_assoc, bind_assoc]
  refine bind_congr fun x => ?_
  rw [pure_bind]
  cases x with
  | error o => simp [shift]
  | ok acts' =>
    simp only [shift, bind_assoc, pure_bind, claimObs_after]

/-! ## The two drives -/

/-- What follows the uptime phase asks something. -/
theorem restOf_asks {r : Except Exc EpochObs} (h : RunsOn (restOf a epoch acts) m t r m') :
    t ≠ [] := by
  have hviews : ∀ {x : Except Exc (Bool × Bool)}, ¬ Runs (rewardViews a epoch) [] x := by
    intro x hx
    obtain ⟨ans, t', ht, -⟩ := runs_rpc_bind.mp hx
    cases ht
  have hstate : ∀ {m m' : Mem} {x : Except Exc (Bool × Bool)},
      ¬ RunsOn (rewardState a epoch) m [] x m' := by
    intro m m' x hx
    rcases runsOn_lift_bind.mp hx with ⟨y, t₁, t₂, ht, h₁, -⟩ | ⟨e, h₁, -, -⟩
    · obtain ⟨rfl, -⟩ := List.append_eq_nil_iff.mp ht.symm
      obtain ⟨z, hz, -⟩ := runs_attempt.mp h₁
      exact hviews hz
    · obtain ⟨z, hz, -⟩ := runs_attempt.mp h₁
      exact hviews hz
  rintro rfl
  rcases runsOn_bind.mp h with ⟨y, t₁, t₂, m₁, ht, h₁, -⟩ | ⟨e, h₁, -⟩
  · obtain ⟨rfl, -⟩ := List.append_eq_nil_iff.mp ht.symm
    rcases runsOn_bind.mp h₁ with ⟨z, t₃, t₄, m₂, ht, h₂, -⟩ | ⟨e, h₂, -⟩
    · obtain ⟨rfl, -⟩ := List.append_eq_nil_iff.mp ht.symm
      exact hstate h₂
    · exact hstate h₂
  · rcases runsOn_bind.mp h₁ with ⟨z, t₃, t₄, m₂, ht, h₂, -⟩ | ⟨e, h₂, -⟩
    · obtain ⟨rfl, -⟩ := List.append_eq_nil_iff.mp ht.symm
      exact hstate h₂
    · exact hstate h₂

/-- The mark of a drive. -/
def driveMark (epoch : Int) : Event sig := ⟨.called (.driveEpoch epoch), ()⟩

/-- A drive, after its mark: its uptime phase raises, or the rest follows. -/
theorem driveEpoch_split {r : Except Exc EpochObs}
    (h : RunsOn (driveEpoch a epoch) m (driveMark epoch :: t) r m') :
    (∃ acts u v, t = u ++ v ∧ Runs (uptimePhase a epoch) u (.ok acts) ∧
      RunsOn (restOf a epoch acts) m v r m') ∨
      ∃ e, Runs (uptimePhase a epoch) t (.error e) := by
  rw [driveEpoch_eq] at h
  obtain ⟨t', ht, h₁⟩ := runsOn_enter_bind.mp h
  obtain ⟨-, rfl⟩ := List.cons.inj ht
  rcases runsOn_lift_bind.mp h₁ with ⟨acts, u, v, rfl, hup, hrest⟩ | ⟨e, hup, -, -⟩
  · exact .inl ⟨acts, u, v, rfl, hup, hrest⟩
  · exact .inr ⟨e, hup⟩

/-- **The vote leaves the other legs alone exactly when its phase raises nothing.** -/
theorem nonInterfering_iff {tOff tOn u : Trace} {rOff rOn : Except Exc EpochObs} {mOff mOn : Mem}
    {x : Except Exc (List Action)}
    (hoff : RunsOn (driveEpoch (a.withUptime false) epoch) m (driveMark epoch :: tOff) rOff mOff)
    (hon : RunsOn (driveEpoch (a.withUptime true) epoch) m (driveMark epoch :: (u ++ tOn)) rOn mOn)
    (hup : Runs (uptimePhase (a.withUptime true) epoch) u x) (hagree : Agree tOff tOn) :
    NonInterfering tOff tOn rOff rOn mOff mOn ↔ ∃ acts, x = .ok acts := by
  have hoff' : RunsOn (restOf (a.withUptime false) epoch []) m tOff rOff mOff := by
    rcases driveEpoch_split hoff with ⟨acts, v, w, rfl, hnone, hrest⟩ | ⟨e, hnone⟩
    · obtain ⟨rfl, hacts⟩ := runs_pure.mp hnone
      cases hacts
      exact hrest
    · cases (runs_pure.mp hnone).2
  rcases driveEpoch_split hon with ⟨acts, v, w, ht, hup', hrest⟩ | ⟨e, hup'⟩
  · obtain ⟨rfl, rfl, rfl⟩ := Prog.Runs.prefix_unique hup hup' ht
    refine iff_of_true ?_ ⟨acts, rfl⟩
    obtain ⟨hlen, hleg⟩ := wp_uptimePhase (h := []) _ _ hup acts rfl
    rw [← List.append_nil acts, restOf_shift] at hrest
    have hshown : ∃ r, RunsOn (restOf (a.withUptime false) epoch []) m tOn r mOn ∧
        rOn = r.map (EpochObs.after acts) := by
      rcases runsOn_bind.mp hrest with ⟨o, t₁, t₂, m₁, rfl, h₁, h₂⟩ | ⟨e, h₁, rfl⟩
      · obtain ⟨rfl, rfl, rfl⟩ := runsOn_pure.mp h₂
        rw [List.append_nil]
        exact ⟨.ok o, h₁, rfl⟩
      · exact ⟨.error e, h₁, rfl⟩
    obtain ⟨r, hr, rfl⟩ := hshown
    obtain ⟨rfl, heq⟩ := Prog.Runs.of_agree hoff' hr hagree
    obtain ⟨rfl, rfl⟩ := Prod.mk.inj heq
    exact ⟨rfl, rfl, acts, hlen, hleg, rfl⟩
  · obtain ⟨-, rfl, hnil⟩ := @Prog.Runs.prefix_unique _ _ _ _ _ tOn [] _ _ hup hup' (by simp)
    refine iff_of_false (fun hni => ?_) fun ⟨acts, hacts⟩ => by cases hacts
    have hasked := hni.asked
    rw [hnil] at hasked
    exact restOf_asks hoff' hasked.symm

end

/-! ### An uptime read that fails -/

/-- The rewards of the epoch are final, and there is nobody to claim for; `vote` is the answer about
the uptime vote. -/
def uptimeWorld (vote : Reply String) : (op : Op) → op.Ans
  | .rpc (.uptimeVoteHash _ _) => vote
  | .rpc (.rewardsHash _ _) => .result ("0x" ++ String.ofList (List.replicate 64 '1'))
  | .rpc (.voterRewardsSignInfo ..) => .result (0, 0)
  | op => deafWorld op

def uptimeDrive (vote : Reply String) (on : Bool) : Trace × Except Exc EpochObs × Mem :=
  execOn (S := sig) (uptimeWorld vote)
    (@driveEpoch External.static (bareArgs.withUptime on) 5) {}

/-- The exchanges of its uptime phase. -/
def uptimeReads (vote : Reply String) : Trace × Except Exc (List Action) :=
  exec (S := sig) (uptimeWorld vote) (@uptimePhase External.static (bareArgs.withUptime true) 5)

theorem uptimeDrive_off (vote : Reply String) :
    RunsOn (@driveEpoch External.static (bareArgs.withUptime false) 5) {}
      (driveMark 5 :: (uptimeDrive vote false).1.tail) (.ok (claimObs 5 [] [])) {} :=
  execOn_runs (S := sig) (uptimeWorld vote)
    (@driveEpoch External.static (bareArgs.withUptime false) 5) {}

/-- The vote cannot be read: the epoch that is done without the vote is not even looked at. -/
theorem unreadUptime_interferes : ∃ tOff tOn u rOff rOn mOff mOn x,
    RunsOn (@driveEpoch External.static (bareArgs.withUptime false) 5) {} (driveMark 5 :: tOff) rOff
      mOff ∧
    RunsOn (@driveEpoch External.static (bareArgs.withUptime true) 5) {} (driveMark 5 :: (u ++ tOn))
      rOn mOn ∧
    Runs (@uptimePhase External.static (bareArgs.withUptime true) 5) u x ∧ Agree tOff tOn ∧
    rOff = .ok (claimObs 5 [] []) ∧ rOn = .error timedOut ∧
    ¬ NonInterfering tOff tOn rOff rOn mOff mOn := by
  have hon := execOn_runs (S := sig) (uptimeWorld (.transport "timed out"))
    (@driveEpoch External.static (bareArgs.withUptime true) 5) {}
  have hup := exec_runs (S := sig) (uptimeWorld (.transport "timed out"))
    (@uptimePhase External.static (bareArgs.withUptime true) 5)
  refine ⟨_, [], (uptimeReads (.transport "timed out")).1, _, .error timedOut, _, {}, _,
    uptimeDrive_off (.transport "timed out"), ?_, hup, agree_nil, rfl, rfl, fun hni => ?_⟩
  · rw [List.append_nil]
    exact hon
  · obtain ⟨up, -, -, hshown⟩ := hni.shown
    cases hshown

/-- The network has the uptime vote already. -/
theorem nonInterfering_iff_voted :
    NonInterfering (uptimeDrive (.result "0x01") false).1.tail
      (uptimeDrive (.result "0x01") false).1.tail (.ok (claimObs 5 [] []))
      (.ok (claimObs 5 [] [])) {} {} ↔
      ∃ acts, (uptimeReads (.result "0x01")).2 = .ok acts := by
  let _ := External.static
  exact nonInterfering_iff (a := bareArgs) (u := (uptimeReads (.result "0x01")).1)
    (uptimeDrive_off (.result "0x01"))
    (execOn_runs (S := sig) (uptimeWorld (.result "0x01"))
      (driveEpoch (bareArgs.withUptime true) 5) {})
    (exec_runs (S := sig) (uptimeWorld (.result "0x01"))
      (uptimePhase (bareArgs.withUptime true) 5)) (agree_refl _)

end Clif
