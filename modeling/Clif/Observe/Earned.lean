import Clif.Observe.LedgerExact
import Clif.Observe.Window

/-!
# Observe.Earned — a green light has its reasons on the chain

What a round in flight shows of AP, AP has sent: each write of a run comes from a transaction of a
block that was processed.  So a green snapshot speaks of transactions (`green_is_earned`).
-/

namespace Clif.Observe

/-! ## What AP sent for a round -/

/-- AP voted on the FDC requests of the round in a block of the run. -/
def VotedIn [Messaging] (cfg : EngineConfig) (setup : ObserverSetup) (r : Int)
    (hs : List Happening) : Prop :=
  ∃ h ∈ hs, ∃ blk fdcLogs fuLogs, h.event = .block blk fdcLogs fuLogs ∧
    ∃ tx ∈ blk.transactions, fdcVoteOf cfg setup tx = some r

/-- The time lies in the window. -/
def within (w : Int × Int) (t : Int) : Bool := decide (w.1 ≤ t ∧ t ≤ w.2)

/-- What a round shows of AP, AP has sent in the run. -/
structure Backed [Messaging] (cfg : EngineConfig) (setup : ObserverSetup) (hs : List Happening)
    (rs : RoundState) : Prop where
  commit : rs.submit1Seen = true → ∃ x ∈ submissionsIn cfg setup rs.roundId hs,
    x.2.kind = "submit1" ∧
      rs.submit1Ontime = within (setup.factory.submit1Window rs.roundId) x.1 ∧
        rs.submit1Commit = x.2.commitHash
  reveal : rs.submit2Seen = true → ∃ y ∈ submissionsIn cfg setup rs.roundId hs,
    y.2.kind = "submit2" ∧
      rs.submit2Ontime = within (setup.factory.submit2Window rs.roundId) y.1 ∧
        rs.submit2Random = y.2.revealRandom ∧ rs.submit2FeedBytes = y.2.revealFeedBytes
  vote : rs.fdcBitvoteSeen = true → VotedIn cfg setup rs.roundId hs

/-- AP sent a commit and the reveal of it, both in their windows, and a vote if there were
requests. -/
def Earned [FtsoRules] [Messaging] (cfg : EngineConfig) (setup : ObserverSetup)
    (hs : List Happening) (rs : RoundState) : Prop :=
  (∃ x ∈ submissionsIn cfg setup rs.roundId hs, ∃ y ∈ submissionsIn cfg setup rs.roundId hs,
    x.2.kind = "submit1" ∧ within (setup.factory.submit1Window rs.roundId) x.1 = true ∧
    y.2.kind = "submit2" ∧ within (setup.factory.submit2Window rs.roundId) y.1 = true ∧
    ∀ c, x.2.commitHash = some c → Py.toHex c = commitHash setup.ourSubmit rs.roundId
      (y.2.revealRandom.getD 0) (y.2.revealFeedBytes.getD [])) ∧
  (rs.fdcExpected = true → VotedIn cfg setup rs.roundId hs)

section

variable [Messaging] {cfg : EngineConfig} {setup : ObserverSetup} {s : EngineState} {h : Happening}
  {hs : List Happening} {rs : RoundState} {r : Int}

theorem submissionsIn_mono {x : Int × Decoded} (hx : x ∈ submissionsIn cfg setup r hs) :
    x ∈ submissionsIn cfg setup r (hs ++ [h]) := by
  rw [submissionsIn_concat]
  exact List.mem_append_left _ hx

theorem VotedIn.mono (hv : VotedIn cfg setup r hs) : VotedIn cfg setup r (hs ++ [h]) := by
  obtain ⟨h', hh', hblock⟩ := hv
  exact ⟨h', List.mem_append_left _ hh', hblock⟩

theorem Backed.mono (hb : Backed cfg setup hs rs) : Backed cfg setup (hs ++ [h]) rs := by
  refine ⟨fun hseen => ?_, fun hseen => ?_, fun hseen => (hb.vote hseen).mono⟩
  · obtain ⟨x, hx, hrest⟩ := hb.commit hseen
    exact ⟨x, submissionsIn_mono hx, hrest⟩
  · obtain ⟨y, hy, hrest⟩ := hb.reveal hseen
    exact ⟨y, submissionsIn_mono hy, hrest⟩

theorem backed_new : Backed cfg setup hs ({ roundId := r } : RoundState) where
  commit := nofun
  reveal := nofun
  vote := nofun

/-- A commit or a reveal that is written comes from a transaction of AP. -/
theorem submission_of_write {x : Int × RoundOp} (hx : x ∈ s.writes cfg h.event)
    (hsubmit : x.2.isSubmit = true) : ∃ y ∈ submissionsIn cfg s.obs.toObserverSetup x.1 (hs ++ [h]),
      submitOp s.obs.factory x.1 y = x.2 := by
  unfold EngineState.writes at hx
  split at hx
  · cases hx
  · rename_i blk fdcLogs fuLogs hevent
    have hmem : x.2 ∈ submitsFor x.1 (s.blockOps cfg blk fdcLogs fuLogs) := by
      refine List.mem_filter.mpr ⟨List.mem_filterMap.mpr ⟨x, hx, by simp⟩, hsubmit⟩
    rw [submitsFor_blockOps] at hmem
    obtain ⟨y, hy, hop⟩ := List.mem_map.mp hmem
    refine ⟨y, ?_, hop⟩
    rw [submissionsIn_concat]
    refine List.mem_append_right _ ?_
    simpa [submissionsIn, hevent] using hy
  · split at hx
    · rcases isSubmit_of_flushOps hx with hop | hop
      · rw [hop] at hsubmit
        cases hsubmit
      · rw [hop] at hsubmit
        cases hsubmit
    · cases hx

/-- So does a bitvote. -/
theorem vote_of_write {x : Int × RoundOp} (hx : x ∈ s.writes cfg h.event)
    (hvote : x.2.isBitvote = true) : VotedIn cfg s.obs.toObserverSetup x.1 (hs ++ [h]) := by
  have hflush : ∀ {tsMap : Dict Nat Int} {fdcLogs fuLogs : Option (List Nat)},
      x ∉ s.flushOps cfg tsMap fdcLogs fuLogs := by
    intro tsMap fdcLogs fuLogs hmem
    rcases isSubmit_of_flushOps hmem with hop | hop
    · rw [hop] at hvote
      cases hvote
    · rw [hop] at hvote
      cases hvote
  unfold EngineState.writes at hx
  split at hx
  · cases hx
  · rename_i blk fdcLogs fuLogs hevent
    rcases List.mem_append.mp hx with hx | hx
    · obtain ⟨tx, htx, hwritten⟩ := List.mem_flatMap.mp hx
      have hcounted : x.2.counted = true := by simp [RoundOp.counted, hvote]
      exact ⟨h, by simp, blk, fdcLogs, fuLogs, hevent, tx, htx,
        (txOps_counted hwritten hcounted).2⟩
    · split at hx
      · exact absurd hx hflush
      · cases hx
  · split at hx
    · exact absurd hx hflush
    · cases hx

/-- A write keeps a round backed. -/
theorem Backed.apply {x : Int × RoundOp} (hx : x ∈ s.writes cfg h.event) (hid : rs.roundId = x.1)
    (hb : Backed cfg s.obs.toObserverSetup (hs ++ [h]) rs) :
    Backed cfg s.obs.toObserverSetup (hs ++ [h]) (x.2.apply rs) := by
  obtain ⟨r, op⟩ := x
  subst hid
  cases op with
  | named | signatures | fdcSignature | fdcRequest | fastUpdate | reveal =>
    exact ⟨hb.commit, hb.reveal, hb.vote⟩
  | submit1 ontime commit =>
    obtain ⟨y, hy, hop⟩ := @submission_of_write _ cfg s h hs _ hx rfl
    unfold submitOp at hop
    dsimp only at hop
    split at hop
    · rename_i hkind
      obtain ⟨hontime, hcommit⟩ := RoundOp.submit1.inj hop
      exact ⟨fun _ => ⟨y, hy, hkind, hontime.symm, hcommit.symm⟩, hb.reveal, hb.vote⟩
    · cases hop
  | submit2 ontime random feedBytes =>
    obtain ⟨y, hy, hop⟩ := @submission_of_write _ cfg s h hs _ hx rfl
    unfold submitOp at hop
    dsimp only at hop
    split at hop
    · cases hop
    · rename_i hkind
      obtain ⟨hontime, hrandom, hfeed⟩ := RoundOp.submit2.inj hop
      have hreveal : y.2.kind = "submit2" := (submissionsIn_kind hy).resolve_left hkind
      exact ⟨hb.commit, fun _ => ⟨y, hy, hreveal, hontime.symm, hrandom.symm, hfeed.symm⟩, hb.vote⟩
  | bitvote len numRequests =>
    exact ⟨hb.commit, hb.reveal, fun _ => vote_of_write hx rfl⟩

end

/-! ## Green -/

section

variable [FtsoRules] [Messaging] {cfg : EngineConfig} {setup : ObserverSetup} {first : Nat}
  {file : List RoundRecord} {tallies : List IqrTally} {a : PauseAnswers} {hs : List Happening}
  {s : EngineState} {rs : RoundState}

/-- A round that is judged well was earned. -/
theorem earned_of_well
    (hrun : Effect.Run (EngineStep cfg) (EngineState.start cfg setup first file tallies a) hs s)
    (hrs : rs ∈ finalizedIn (noticesOf hs)) (hwell : rs.Well) : Earned cfg setup hs rs := by
  have hinv := inFlight_run (P := Backed cfg setup) EngineState.start_started
    (fun _ _ => backed_new) (fun _ _ _ => Backed.mono)
    (fun hs h s x rs hsetup hx hid hb => by
      rw [← hsetup] at hb ⊢
      exact Backed.apply hx hid hb) hrun
  obtain ⟨raw, hraw, _, _, _, rfl⟩ := hinv.2.2 rs hrs
  obtain ⟨hclean, hvote⟩ := hwell
  simp only [RoundState.clean, Bool.and_eq_true, Bool.not_eq_true'] at hclean
  obtain ⟨⟨⟨⟨hseen1, hontime1⟩, hseen2⟩, hontime2⟩, hoffence⟩ := hclean
  obtain ⟨x, hx, hkind1, hwithin1, hcommit⟩ := hraw.commit hseen1
  obtain ⟨y, hy, hkind2, hwithin2, hrandom, hfeed⟩ := hraw.reveal hseen2
  refine ⟨⟨x, hx, y, hy, hkind1, hwithin1.symm.trans hontime1, hkind2,
    hwithin2.symm.trans hontime2, fun c hc => ?_⟩, fun hexpected => hraw.vote (hvote hexpected)⟩
  -- the verdict found no mismatch
  have hmatch : raw.mismatch setup.ourSubmit = false := (Bool.or_eq_false_iff.mp hoffence).2
  unfold RoundState.mismatch at hmatch
  rw [hcommit, hc] at hmatch
  have hseen1' : raw.submit1Seen = true := hseen1
  have hseen2' : raw.submit2Seen = true := hseen2
  simp only [hseen1', hseen2', Bool.and_self, Bool.true_and, bne_eq_false_iff_eq] at hmatch
  rw [hmatch, hrandom, hfeed]
  rfl

/-- Behind every green snapshot, for each round of the window: AP's commit and its reveal in blocks
that were processed, each in its window, and AP's vote where requests were seen. -/
theorem green_is_earned
    (hrun : Effect.Run (EngineStep cfg) (EngineState.start cfg setup first file tallies a) hs s)
    (x : StatusInputs) (now : ℚ) (hgreen : (s.health cfg x).severity now = .ok) :
    lastOf setup.windowRounds (finalizedIn (noticesOf hs)) ≠ [] ∧
      ∀ rs ∈ lastOf setup.windowRounds (finalizedIn (noticesOf hs)), Earned cfg setup hs rs := by
  obtain ⟨-, hne, hwell⟩ := (health_ok_iff (window_run hrun) (window_judged hrun) x now).mp hgreen
  exact ⟨hne, fun rs hrs => earned_of_well hrun (List.mem_of_mem_drop hrs) (hwell rs hrs)⟩

end

/-- AP sent the commit and the reveal of the clean round. -/
theorem green_is_earned_clean :
    let _ := sampleRules
    let _ := sampleMessages
    ∀ rs ∈ lastOf sampleSetup.windowRounds
        (finalizedIn (noticesOf (happenings sampleConfig sampleStart cleanEvents))),
      Earned sampleConfig sampleSetup (happenings sampleConfig sampleStart cleanEvents) rs := by
  intro _ _
  have hgreen : ((after sampleConfig sampleStart cleanEvents).health sampleConfig
      sampleInputs).severity 310 = .ok := by decide +kernel
  have hrun := (run_of_allowed clean_shown.1).mono fun _ _ _ h => h.2
  exact (green_is_earned hrun sampleInputs 310 hgreen).2

end Clif.Observe
