import Clif.Cycle
import Clif.Effect.Run

/-!
# LastDone — where the watermark of a sequence of cycles may stand

`runCycle_mark` says what one returned cycle does to `last_done_epoch`; `watermark_sound` says it
of any sequence of cycles: the watermark passes no epoch that was neither done nor capped.
-/

namespace Clif

open Effect

/-! ## The mark of one loop -/

/-- Where the contiguous done prefix of the observations ends: `new_last_done`. -/
def advanceMark : Int → Bool → List EpochObs → Int
  | w, _, [] => w
  | w, adv, o :: os =>
    advanceMark (if o.done && adv then o.epoch else w) (o.done && adv) os

theorem advanceMark_false (w : Int) (obs : List EpochObs) : advanceMark w false obs = w := by
  induction obs with
  | nil => rfl
  | cons o os ih => simpa [advanceMark] using ih

/-- The mark stays, or stands on an observed epoch. -/
theorem advanceMark_eq_or_mem (w : Int) (adv : Bool) (obs : List EpochObs) :
    advanceMark w adv obs = w ∨ ∃ o ∈ obs, advanceMark w adv obs = o.epoch := by
  induction obs generalizing w adv with
  | nil => exact Or.inl rfl
  | cons o os ih =>
    unfold advanceMark
    rcases ih (if o.done && adv then o.epoch else w) (o.done && adv) with h | ⟨o', ho', h⟩
    · rw [h]
      split
      · exact Or.inr ⟨o, List.mem_cons_self .., rfl⟩
      · exact Or.inl rfl
    · exact Or.inr ⟨o', List.mem_cons_of_mem _ ho', h⟩

/-- Of the epochs above the old mark, those up to the new one are done. -/
theorem done_of_le_advanceMark {w : Int} {a : Bool} {obs : List EpochObs}
    (hw : ∀ o ∈ obs, w < o.epoch) (hs : (obs.map fun o => o.epoch).Pairwise (· < ·)) :
    ∀ o ∈ obs, o.epoch ≤ advanceMark w a obs → o.done = true := by
  induction obs generalizing w a with
  | nil => simp
  | cons o os ih =>
    rw [List.map_cons, List.pairwise_cons] at hs
    intro o' ho' hle
    unfold advanceMark at hle
    by_cases hadv : (o.done && a) = true
    · rw [hadv, if_pos rfl] at hle
      rcases List.mem_cons.mp ho' with rfl | ho'
      · simp_all
      · exact ih (fun o'' ho'' => hs.1 _ (List.mem_map_of_mem ho'')) hs.2 o' ho' hle
    · -- the prefix is broken: the mark stays below every epoch left
      rw [Bool.not_eq_true] at hadv
      rw [hadv, advanceMark_false, if_neg (by simp)] at hle
      have := hw o' ho'
      omega

section

variable {σ : Type} {drive : Int → StAct sig Exc σ EpochObs} {key : String} {now : ℚ} {cd : Int}

/-- A loop that returns observes every epoch and moves the mark over the done ones. -/
theorem cycleLoop_ok (hdrive : ∀ e, Yields (drive e) fun o => o.epoch = e) :
    ∀ {es : List Int} {w : Int} {adv : Bool} {s s' : σ × AutoState} {t : Trace}
      {x : Int × List EpochObs}, RunsOn (cycleLoop drive key now cd es w adv) s t (.ok x) s' →
      x.2.map (fun o => o.epoch) = es ∧ x.1 = advanceMark w adv x.2 := by
  intro es
  induction es with
  | nil =>
    intro w adv s s' t x h
    obtain ⟨-, hx, -⟩ := runsOn_pure.mp h
    cases hx
    exact ⟨rfl, rfl⟩
  | cons epoch es ih =>
    intro w adv s s' t x h
    rcases cycleLoop_cons h with ⟨-, r₀, h₁, hr⟩ | ⟨-, ⟨y, -, hr, -⟩ |
      ⟨obs, t₁, t₂, m₁, r₀, -, h₁, h₂, hr⟩⟩
    · cases r₀ with
      | error y => cases hr
      | ok y =>
        cases hr
        obtain ⟨hmap, hmark⟩ := ih h₁
        exact ⟨congrArg (epoch :: ·) hmap, by simpa [advanceMark, cooldownObs] using hmark⟩
    · cases hr
    · have hepoch : obs.epoch = epoch := hdrive _ _ _ _ _ h₁
      cases r₀ with
      | error y => cases hr
      | ok y =>
        cases hr
        obtain ⟨hmap, hmark⟩ := ih h₂
        refine ⟨by simp [hepoch, hmap], ?_⟩
        simpa only [advanceMark, hepoch] using hmark

end

/-- The mark of a cycle that observed all its epochs: up, not to the current epoch, and only over
done or capped epochs. -/
theorem advanceMark_covers {lastDone : Option Int} {w current : Int} {obs : List EpochObs}
    (hmap : obs.map (fun o => o.epoch) = cycleEpochs lastDone current)
    (hmark : w = advanceMark (startWatermark lastDone current) true obs)
    (hstart : startWatermark lastDone current < current) :
    startWatermark lastDone current ≤ w ∧ w < current ∧
      ∀ e, 0 ≤ e → startWatermark lastDone current < e → e ≤ w →
        e < current - maxCatchup ∨ ∃ o ∈ obs, o.epoch = e ∧ o.done = true := by
  have hseen : ∀ e, (∃ o ∈ obs, o.epoch = e) ↔ e ∈ cycleEpochs lastDone current := by
    intro e
    rw [← hmap]
    simp
  have hrange : ∀ e, e ∈ cycleEpochs lastDone current ↔
      (startWatermark lastDone current < e ∧ current - maxCatchup ≤ e ∧ 0 ≤ e) ∧ e < current := by
    intro e
    rw [cycleEpochs, mem_pyRange, cycleStart]
    omega
  have hnew : ∀ o ∈ obs, startWatermark lastDone current < o.epoch := fun o ho =>
    ((hrange _).mp ((hseen _).mp ⟨o, ho, rfl⟩)).1.1
  have hdone := done_of_le_advanceMark (a := true) hnew (hmap ▸ pairwise_pyRange _ _)
  have hw : startWatermark lastDone current ≤ w ∧ w < current := by
    rcases advanceMark_eq_or_mem (startWatermark lastDone current) true obs with heq | ⟨o, ho, heq⟩
    · rw [← hmark] at heq
      omega
    · rw [← hmark] at heq
      have := (hrange _).mp ((hseen _).mp ⟨o, ho, rfl⟩)
      omega
  refine ⟨hw.1, hw.2, fun e h0 hlt hle => ?_⟩
  by_cases hcap : e < current - maxCatchup
  · exact Or.inl hcap
  · obtain ⟨o, ho, rfl⟩ := (hseen e).mpr ((hrange e).mpr (by omega))
    exact Or.inr ⟨o, ho, rfl, hdone o ho (hmark ▸ hle)⟩

/-- A returned cycle, with what it returned, or one that raised. -/
inductive CycleEvent where
  | returned (newLastDone current : Int) (observations : List EpochObs)
  | raised

def CycleEvent.current : CycleEvent → Option Int
  | .returned _ c _ => some c
  | .raised => none

def CycleEvent.mark : CycleEvent → Option Int
  | .returned w _ _ => some w
  | .raised => none

/-- The current epochs the returned cycles read. -/
def currents (es : List CycleEvent) : List Int := es.filterMap CycleEvent.current

/-- The watermarks the returned cycles left. -/
def marks (es : List CycleEvent) : List Int := es.filterMap CycleEvent.mark

/-- The watermark the first returned cycle starts from. -/
def startMark (w₀ : Option Int) (es : List CycleEvent) : Option Int :=
  w₀.or ((currents es).head?.map fun c => c - 2)

/-- The epoch was returned done by a cycle. -/
def DoneIn (es : List CycleEvent) (e : Int) : Prop :=
  ∃ w c obs, .returned w c obs ∈ es ∧ ∃ o ∈ obs, o.epoch = e ∧ o.done = true

/-- The epoch was below the catch-up cap of a cycle. -/
def CappedIn (es : List CycleEvent) (e : Int) : Prop := ∃ c ∈ currents es, e < c - maxCatchup

structure WatermarkSound (w₀ : Option Int) (es : List CycleEvent) : Prop where
  mono : ((startMark w₀ es).toList ++ marks es).Pairwise (· ≤ ·)
  below : ∀ w c obs, .returned w c obs ∈ es → w < c
  covered : ∀ b ∈ startMark w₀ es, ∀ m ∈ marks es, ∀ e, 0 ≤ e → b < e → e ≤ m →
    DoneIn es e ∨ CappedIn es e

/-! ## Histories -/

section

variable {w₀ : Option Int} {es : List CycleEvent} {e : Int}

theorem DoneIn.append (h : DoneIn es e) (es' : List CycleEvent) : DoneIn (es ++ es') e := by
  obtain ⟨w, c, obs, hin, ho⟩ := h
  exact ⟨w, c, obs, List.mem_append_left _ hin, ho⟩

theorem CappedIn.append (h : CappedIn es e) (es' : List CycleEvent) : CappedIn (es ++ es') e := by
  obtain ⟨c, hc, hlt⟩ := h
  exact ⟨c, by rw [currents, List.filterMap_append]; exact List.mem_append_left _ hc, hlt⟩

theorem currents_returned (w c : Int) (obs : List EpochObs) :
    currents (es ++ [.returned w c obs]) = currents es ++ [c] := by
  simp [currents, CycleEvent.current]

theorem marks_returned (w c : Int) (obs : List EpochObs) :
    marks (es ++ [.returned w c obs]) = marks es ++ [w] := by
  simp [marks, CycleEvent.mark]

theorem mem_marks {m : Int} : m ∈ marks es ↔ ∃ c obs, .returned m c obs ∈ es := by
  unfold marks
  rw [List.mem_filterMap]
  constructor
  · rintro ⟨ev, hin, hm⟩
    cases ev with
    | returned w c obs =>
      cases hm
      exact ⟨c, obs, hin⟩
    | raised => cases hm
  · rintro ⟨c, obs, hin⟩
    exact ⟨_, hin, rfl⟩

theorem mem_currents {c : Int} : c ∈ currents es ↔ ∃ w obs, .returned w c obs ∈ es := by
  unfold currents
  rw [List.mem_filterMap]
  constructor
  · rintro ⟨ev, hin, hc⟩
    cases ev with
    | returned w c' obs =>
      cases hc
      exact ⟨w, obs, hin⟩
    | raised => cases hc
  · rintro ⟨w, obs, hin⟩
    exact ⟨_, hin, rfl⟩

/-- A watermark that was left fixes the one the cycles started from. -/
theorem startMark_isSome {m : Int} (h : m ∈ marks es) : ∃ b, startMark w₀ es = some b := by
  obtain ⟨c, obs, hin⟩ := mem_marks.mp h
  have hc : c ∈ currents es := mem_currents.mpr ⟨m, obs, hin⟩
  unfold startMark
  cases w₀ with
  | some v => exact ⟨v, rfl⟩
  | none =>
    cases hcs : currents es with
    | nil =>
      rw [hcs] at hc
      cases hc
    | cons c' cs => exact ⟨c' - 2, rfl⟩

theorem startMark_returned (w c : Int) (obs : List EpochObs) :
    startMark w₀ (es ++ [.returned w c obs]) = some ((startMark w₀ es).getD (c - 2)) := by
  unfold startMark
  rw [currents_returned]
  cases w₀ with
  | some v => rfl
  | none => cases currents es <;> rfl

end

section

variable [External]

/-- One call of `run_cycle`, with arbitrary arguments otherwise, threading `last_done_epoch`. -/
inductive WatermarkStep : Option Int → CycleEvent → Option Int → Prop where
  | returned {a : DriveArgs} {lastDone : Option Int} {cd : Int} {u u' : Mem × AutoState} {t : Trace}
      {w current : Int} {obs : List EpochObs}
      (h : RunsOn (runCycle a lastDone cd) u t (.ok (w, current, obs)) u') :
      WatermarkStep lastDone (.returned w current obs) (some w)
  | raised {a : DriveArgs} {lastDone : Option Int} {cd : Int} {u u' : Mem × AutoState} {t : Trace}
      {x : Exc} (h : RunsOn (runCycle a lastDone cd) u t (.error x) u') :
      WatermarkStep lastDone .raised lastDone

/-- One cycle moves the mark up, not to the current epoch, and only over done or capped epochs. -/
theorem runCycle_mark {a : DriveArgs} {lastDone : Option Int} {cd : Int} {u u' : Mem × AutoState}
    {t : Trace} {w current : Int} {obs : List EpochObs}
    (h : RunsOn (runCycle a lastDone cd) u t (.ok (w, current, obs)) u')
    (hstart : startWatermark lastDone current < current) :
    startWatermark lastDone current ≤ w ∧ w < current ∧
      ∀ e, 0 ≤ e → startWatermark lastDone current < e → e ≤ w →
        e < current - maxCatchup ∨ ∃ o ∈ obs, o.epoch = e ∧ o.done = true := by
  obtain ⟨ans, t', -, hr⟩ := runCycleWith_cases h
  rcases hr with ⟨x, -, -, hx, -⟩ | ⟨c, r₀, u₁, -, hloop, hend⟩
  · cases hx
  rcases hend with ⟨x, -, hx, -⟩ | ⟨w', obs', rfl, hx, -⟩
  · cases hx
  cases hx
  obtain ⟨hmap, hmark⟩ := cycleLoop_ok (yields_driveEpoch a) hloop
  exact advanceMark_covers hmap hmark hstart

/-! ## Runs -/

/-- What is known of the watermark `w` after the cycles `es`. -/
structure MarkInv (w₀ : Option Int) (es : List CycleEvent) (w : Option Int) : Prop where
  sound : WatermarkSound w₀ es
  top : ∀ x ∈ (startMark w₀ es).toList ++ marks es, ∃ v ∈ w, x ≤ v
  origin : ∀ v ∈ w, v ∈ w₀ ∨ v ∈ marks es

omit [External] in
theorem markInv_nil (w₀ : Option Int) : MarkInv w₀ [] w₀ where
  sound :=
    { mono := by cases w₀ <;> simp [startMark, marks]
      below := by simp
      covered := by simp [marks] }
  top := by
    intro x hx
    have hx' : x ∈ w₀ := by simpa [startMark, marks, currents] using hx
    exact ⟨x, hx', le_refl x⟩
  origin := fun v hv => Or.inl hv

omit [External] in
theorem MarkInv.raised {w₀ w : Option Int} {es : List CycleEvent} (h : MarkInv w₀ es w) :
    MarkInv w₀ (es ++ [.raised]) w := by
  have hc : currents (es ++ [.raised]) = currents es := by simp [currents, CycleEvent.current]
  have hm : marks (es ++ [.raised]) = marks es := by simp [marks, CycleEvent.mark]
  have hs : startMark w₀ (es ++ [.raised]) = startMark w₀ es := by rw [startMark, startMark, hc]
  refine ⟨⟨by rw [hs, hm]; exact h.sound.mono, ?_, ?_⟩, by rw [hs, hm]; exact h.top,
    by rw [hm]; exact h.origin⟩
  · intro w c obs hin
    exact h.sound.below w c obs (by simpa using hin)
  · rw [hs, hm]
    intro b hb m hm e h0 hlt hle
    rcases h.sound.covered b hb m hm e h0 hlt hle with hd | hcap
    · exact Or.inl (hd.append _)
    · exact Or.inr (hcap.append _)

theorem MarkInv.returned {w₀ w : Option Int} {es : List CycleEvent} (hi : MarkInv w₀ es w)
    {a : DriveArgs} {cd : Int} {u u' : Mem × AutoState} {t : Trace} {w' c : Int}
    {obs : List EpochObs} (h : RunsOn (runCycle a w cd) u t (.ok (w', c, obs)) u')
    (hsort : ∀ c' ∈ currents es, c' ≤ c) (hbelow : ∀ v ∈ w₀, v < c) :
    MarkInv w₀ (es ++ [.returned w' c obs]) (some w') := by
  have hstart : startWatermark w c < c := by
    cases w with
    | none =>
      show c - 2 < c
      omega
    | some v =>
      rcases hi.origin v rfl with hv | hv
      · exact hbelow v hv
      · obtain ⟨c', obs', hin⟩ := mem_marks.mp hv
        exact lt_of_lt_of_le (hi.sound.below v c' obs' hin)
          (hsort c' (mem_currents.mpr ⟨v, obs', hin⟩))
  obtain ⟨hle, hlt, hcov⟩ := runCycle_mark h hstart
  have hw : w = none → startMark w₀ es = none ∧ marks es = [] := by
    rintro rfl
    have hno : (startMark w₀ es).toList ++ marks es = [] :=
      List.eq_nil_iff_forall_not_mem.mpr fun x hx => by
        obtain ⟨v, hv, -⟩ := hi.top x hx
        cases hv
    obtain ⟨h₁, h₂⟩ := List.append_eq_nil_iff.mp hno
    exact ⟨Option.toList_eq_nil_iff.mp h₁, h₂⟩
  -- everything so far is at most the watermark the cycle started from
  have htop : ∀ x ∈ (startMark w₀ (es ++ [.returned w' c obs])).toList ++ marks es,
      x ≤ startWatermark w c := by
    rw [startMark_returned]
    intro x hx
    cases w with
    | none =>
      obtain ⟨hs, hm⟩ := hw rfl
      rw [hs, hm] at hx
      simp only [Option.getD_none, Option.toList_some, List.append_nil,
        List.mem_singleton] at hx
      rw [hx]
      exact le_refl _
    | some v =>
      obtain ⟨b, hb⟩ : ∃ b, startMark w₀ es = some b := by
        rcases hi.origin v rfl with hv | hv
        · rw [Option.mem_def.mp hv]
          exact ⟨v, rfl⟩
        · exact startMark_isSome hv
      rw [hb] at hx
      obtain ⟨v', hv', hxv⟩ := hi.top x (by rw [hb]; exact hx)
      cases hv'
      exact hxv
  refine ⟨⟨?_, ?_, ?_⟩, ?_, ?_⟩
  · rw [marks_returned, ← List.append_assoc, List.pairwise_append]
    refine ⟨?_, List.pairwise_singleton _ _, fun x hx y hy => ?_⟩
    · rw [startMark_returned]
      cases hs : startMark w₀ es with
      | some b =>
        have := hi.sound.mono
        rwa [hs] at this
      | none =>
        have hm : marks es = [] := by
          by_contra hne
          obtain ⟨m, hm⟩ := List.exists_mem_of_ne_nil _ hne
          obtain ⟨b, hb⟩ := @startMark_isSome w₀ _ _ hm
          rw [hs] at hb
          cases hb
        simp [hm]
    · rw [List.mem_singleton.mp hy]
      exact le_trans (htop x hx) hle
  · intro w₁ c₁ obs₁ hin
    rcases List.mem_append.mp hin with hin | hin
    · exact hi.sound.below w₁ c₁ obs₁ hin
    · cases List.mem_singleton.mp hin
      exact hlt
  · intro b hb m hm e h0 hbe hem
    rw [marks_returned] at hm
    have hold : ∀ m' ∈ marks es, e ≤ m' → DoneIn (es ++ [.returned w' c obs]) e ∨
        CappedIn (es ++ [.returned w' c obs]) e := by
      intro m' hm' hle'
      obtain ⟨b', hb'⟩ := @startMark_isSome w₀ _ _ hm'
      rw [startMark_returned, hb'] at hb
      obtain rfl : b' = b := Option.some.inj hb
      rcases hi.sound.covered b' hb' m' hm' e h0 hbe hle' with hd | hcap
      · exact Or.inl (hd.append _)
      · exact Or.inr (hcap.append _)
    rcases List.mem_append.mp hm with hm | hm
    · exact hold m hm hem
    rw [List.mem_singleton.mp hm] at hem
    by_cases hnew : startWatermark w c < e
    · rcases hcov e h0 hnew hem with hcap | hd
      · refine Or.inr ⟨c, ?_, hcap⟩
        rw [currents_returned]
        exact List.mem_append_right _ (List.mem_singleton_self c)
      · exact Or.inl ⟨w', c, obs, List.mem_append_right _ (List.mem_singleton_self _), hd⟩
    · -- the epoch was passed before this cycle
      rw [startMark_returned] at hb
      cases w with
      | none =>
        rw [(hw rfl).1] at hb
        cases hb
        exact absurd hbe hnew
      | some v =>
        rcases hi.origin v rfl with hv | hv
        · rw [Option.mem_def.mp hv] at hb
          cases hb
          exact absurd hbe hnew
        · exact hold v hv (not_lt.mp hnew)
  · rw [marks_returned, ← List.append_assoc]
    intro x hx
    refine ⟨w', rfl, ?_⟩
    rcases List.mem_append.mp hx with hx | hx
    · exact le_trans (htop x hx) hle
    · rw [List.mem_singleton.mp hx]
  · rintro v hv
    cases hv
    rw [marks_returned]
    exact Or.inr (List.mem_append_right _ (List.mem_singleton_self _))

/-- Over any sequence of cycles at non-decreasing epochs, from a watermark below the first of them
or none, the watermark never decreases, stays below the current epoch, and passes only epochs that
a cycle returned done or the catch-up cap skipped. -/
theorem watermark_sound {w₀ w : Option Int} {es : List CycleEvent}
    (h : Run WatermarkStep w₀ es w) (hsort : (currents es).Pairwise (· ≤ ·))
    (hbelow : ∀ v ∈ w₀, ∀ c ∈ (currents es).head?, v < c) : WatermarkSound w₀ es := by
  have hall : ∀ v ∈ w₀, ∀ c ∈ currents es, v < c := by
    intro v hv c hc
    cases hcs : currents es with
    | nil =>
      rw [hcs] at hc
      cases hc
    | cons c₀ cs =>
      rw [hcs] at hc hsort hbelow
      have h₀ := hbelow v hv c₀ rfl
      rcases List.mem_cons.mp hc with rfl | hc
      · exact h₀
      · exact lt_of_lt_of_le h₀ ((List.pairwise_cons.mp hsort).1 c hc)
  have hinv : (currents es).Pairwise (· ≤ ·) → (∀ v ∈ w₀, ∀ c ∈ currents es, v < c) →
      MarkInv w₀ es w := by
    refine h.invariant (fun es w => (currents es).Pairwise (· ≤ ·) →
      (∀ v ∈ w₀, ∀ c ∈ currents es, v < c) → MarkInv w₀ es w) (fun _ _ => markInv_nil w₀) ?_
    intro es w₁ ev w₂ hrun ih hstep hs hb
    cases hstep with
    | @returned a _ cd u u' t w' c obs hcycle =>
      rw [currents_returned] at hs hb
      obtain ⟨hs', -, hlast⟩ := List.pairwise_append.mp hs
      exact (ih hs' fun v hv c' hc' => hb v hv c' (List.mem_append_left _ hc')).returned hcycle
        (fun c' hc' => hlast c' hc' c (List.mem_singleton_self c))
        (fun v hv => hb v hv c (List.mem_append_right _ (List.mem_singleton_self c)))
    | raised hcycle =>
      have hc : currents (es ++ [.raised]) = currents es := by simp [currents, CycleEvent.current]
      rw [hc] at hs hb
      exact (ih hs hb).raised
  exact (hinv hsort hall).sound

end

/-! ### An epoch that is not published at first -/

/-- The rewards of the closed epochs are final, but for one that nothing is published of; there is
nobody to claim for. -/
def rewardsWorld (current : Int) (unpublished : Option Int) : (op : Op) → op.Ans
  | .rpc (.currentRewardEpochId _) => .result current
  | .rpc (.rewardsHash _ epoch) =>
    .result ("0x" ++
      String.ofList (List.replicate 64 (if unpublished = some epoch then '0' else '1')))
  | .rpc (.voterRewardsSignInfo ..) => .result (0, 0)
  | op => deafWorld op

def unpublishedObs (epoch : Int) : EpochObs :=
  { epoch := epoch, phase := .rewardWait, detail := "rewards not yet published" }

/-- Epoch 6 holds the mark at 5; a cycle raises; then all three epochs are done. -/
def unpublishedCycles : List CycleEvent :=
  [.returned 5 7 [claimObs 5 [] [], unpublishedObs 6], .raised,
    .returned 7 8 [claimObs 6 [] [], claimObs 7 [] []]]

/-- A cycle of the bare daemon that returns. -/
theorem bareCycle_returned (world : (op : Op) → op.Ans) {lastDone : Option Int} {w current : Int}
    {obs : List EpochObs}
    (h : (execOn (S := sig) world (@runCycle External.static bareArgs lastDone 3600) ({}, {})).2.1 =
      .ok (w, current, obs)) :
    @WatermarkStep External.static lastDone (.returned w current obs) (some w) := by
  have hruns := execOn_runs (S := sig) world (@runCycle External.static bareArgs lastDone 3600)
    ({}, {})
  rw [h] at hruns
  exact @WatermarkStep.returned External.static _ _ _ _ _ _ _ _ _ hruns

theorem unpublishedCycles_run :
    Run (@WatermarkStep External.static) (some 4) unpublishedCycles (some 7) := by
  have hfirst : @WatermarkStep External.static (some 4)
      (.returned 5 7 [claimObs 5 [] [], unpublishedObs 6]) (some 5) :=
    bareCycle_returned (rewardsWorld 7 (some 6)) (by with_unfolding_all rfl)
  have hraised : @WatermarkStep External.static (some 5) .raised (some 5) :=
    @WatermarkStep.raised External.static bareArgs _ 3600 ({}, {}) _ _ _
      (execOn_runs (S := sig) deafWorld
        (@runCycle External.static bareArgs (some 5) 3600) ({}, {}))
  have hlast : @WatermarkStep External.static (some 5)
      (.returned 7 8 [claimObs 6 [] [], claimObs 7 [] []]) (some 7) :=
    bareCycle_returned (rewardsWorld 8 none) (by with_unfolding_all rfl)
  exact .cons hfirst (.cons hraised (.single hlast))

theorem watermark_sound_unpublished : WatermarkSound (some 4) unpublishedCycles :=
  @watermark_sound External.static _ _ _ unpublishedCycles_run (by decide) (by decide)

end Clif
