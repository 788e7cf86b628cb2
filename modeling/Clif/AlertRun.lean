import Clif.Debounce

/-!
# AlertRun — the loop of `alert run`: read, decide, store the state, post

The state is stored before the page goes out.  `pageRetried_iff` says in which runs a page whose
POST failed is attempted again.
-/

namespace Clif

/-! ## The loop -/

inductive AlertEvent where
  /-- A cycle that stored its state; `delivered` is how the POST went, if a page was asked for.  A
  POST that the process did not survive failed. -/
  | cycle (level : Severity) (now : ℚ) (delivered : Bool)
  /-- An RPC error. -/
  | blind
  /-- The process ends, at any point before it stores a state, and is started again. -/
  | restart
deriving DecidableEq

structure AlertLoop where
  state : AlertState
  /-- The status file. -/
  stored : AlertState

namespace AlertLoop

/-- `_load_json` at the start. -/
def load (st : AlertState) : AlertLoop := ⟨st, st⟩

def step (a : AlertArgs) (s : AlertLoop) : AlertEvent → AlertLoop
  | .cycle level now _ =>
    let st := (s.state.decide a level now).2
    ⟨st, st⟩
  | .blind => s
  | .restart => ⟨s.stored, s.stored⟩

def after (a : AlertArgs) (s : AlertLoop) (evs : List AlertEvent) : AlertLoop :=
  evs.foldl (step a) s

end AlertLoop

section

variable (a : AlertArgs) (st : AlertState)

/-- The state in memory after the events. -/
def stateAfter (evs : List AlertEvent) : AlertState := ((AlertLoop.load st).after a evs).state

/-- After the events, a cycle that reads `level` asks for a page. -/
def Asks (evs : List AlertEvent) (level : Severity) (now : ℚ) : Prop :=
  ((stateAfter a st evs).page a level now).isSome = true

/-- The last page was asked for at `t`. -/
def LastAsked (evs : List AlertEvent) (t : ℚ) : Prop :=
  ∃ before level d since, evs = before ++ .cycle level t d :: since ∧ Asks a st before level t ∧
    ∀ more level' t' d' rest, since = more ++ .cycle level' t' d' :: rest →
      ¬ Asks a st (before ++ .cycle level t d :: more) level' t'

/-- A page whose POST failed, and the next cycle that reads its level. -/
structure FailedPage (evs : List AlertEvent) (level : Severity) (before : List AlertEvent)
    (t : ℚ) (since : List AlertEvent) (now : ℚ) : Prop where
  split : ∃ d rest, evs =
    before ++ .cycle level t false :: (since ++ .cycle level now d :: rest)
  asked : Asks a st before level t
  next : ∀ t' d', AlertEvent.cycle level t' d' ∉ since

/-- Every failed page is attempted again. -/
def PageRetried (evs : List AlertEvent) : Prop :=
  ∀ level before t since now, FailedPage a st evs level before t since now →
    Asks a st (before ++ .cycle level t false :: since) level now

end

section

variable {a : AlertArgs} {st : AlertState} {evs : List AlertEvent} {e : AlertEvent}
  {level : Severity} {t now : ℚ} {d : Bool}

theorem AlertLoop.after_snoc {s : AlertLoop} :
    s.after a (evs ++ [e]) = (s.after a evs).step a e := by
  simp [AlertLoop.after]

/-- What is in memory is stored. -/
theorem stored_eq : ((AlertLoop.load st).after a evs).stored = stateAfter a st evs := by
  unfold stateAfter
  induction evs using List.reverseRecOn with
  | nil => rfl
  | append_singleton evs e ih =>
    rw [AlertLoop.after_snoc]
    cases e with
    | cycle level now d => rfl
    | blind => exact ih
    | restart => rfl

theorem stateAfter_cycle : stateAfter a st (evs ++ [.cycle level now d]) =
    ((stateAfter a st evs).decide a level now).2 := by
  rw [stateAfter, AlertLoop.after_snoc]
  rfl

/-- Neither a failed read nor a restart changes anything. -/
theorem stateAfter_other (h : ∀ level now d, e ≠ .cycle level now d) :
    stateAfter a st (evs ++ [e]) = stateAfter a st evs := by
  rw [stateAfter, AlertLoop.after_snoc]
  cases e with
  | cycle level now d => exact absurd rfl (h level now d)
  | blind => rfl
  | restart => exact stored_eq

/-- A page is asked for at a change, and when the interval is over. -/
theorem asks_iff : Asks a st evs level now ↔
    (a.confirm ≤ (stateAfter a st evs).count level ∧ level ≠ (stateAfter a st evs).level) ∨
      ((stateAfter a st evs).level ≠ .ok ∧ a.repeatSec ≤ now - (stateAfter a st evs).lastSent) := by
  generalize hs : stateAfter a st evs = s
  rw [Asks, hs]
  have hbad : ∀ l : Severity, Severity.warn.order ≤ l.order ↔ l ≠ .ok := by
    intro l
    cases l <;> decide
  unfold AlertState.page AlertState.confirmed
  dsimp only
  by_cases hcount : a.confirm ≤ s.count level
  · rw [if_pos hcount]
    by_cases hnew : level = s.level
    · subst hnew
      simp [hbad]
    · simp [hnew, hcount]
  · rw [if_neg hcount]
    simp [hcount, hbad]

theorem stateAfter_lastSent : (stateAfter a st (evs ++ [.cycle level now d])).lastSent =
    if ((stateAfter a st evs).page a level now).isSome = true then now
    else (stateAfter a st evs).lastSent := by
  rw [stateAfter_cycle]
  rfl

/-- The state keeps the time of the last page that was asked for, however its POST went. -/
theorem LastAsked.lastSent (h : LastAsked a st evs t) : (stateAfter a st evs).lastSent = t := by
  obtain ⟨before, level, d, since, rfl, hasks, hsilent⟩ := h
  induction since using List.reverseRecOn with
  | nil =>
    rw [stateAfter_lastSent]
    exact if_pos hasks
  | append_singleton since e ih =>
    have hprev := ih fun more l t' d' rest hsplit =>
      hsilent more l t' d' (rest ++ [e]) (by rw [hsplit, List.append_assoc, List.cons_append])
    rw [← List.cons_append, ← List.append_assoc]
    cases e with
    | cycle l t' d' =>
      have hnot := hsilent since l t' d' [] rfl
      rw [stateAfter_lastSent]
      exact (if_neg hnot).trans hprev
    | blind =>
      rw [stateAfter_other (fun _ _ _ he => by cases he)]
      exact hprev
    | restart =>
      rw [stateAfter_other (fun _ _ _ he => by cases he)]
      exact hprev

/-- After a page that was asked for there is a last one. -/
theorem exists_lastAsked {before since : List AlertEvent} (hasks : Asks a st before level t) :
    ∃ t', LastAsked a st (before ++ .cycle level t d :: since) t' := by
  induction since using List.reverseRecOn with
  | nil => exact ⟨t, before, level, d, [], rfl, hasks, by simp⟩
  | append_singleton since e ih =>
    obtain ⟨t', before', level', d', since', hsplit, hasks', hsilent⟩ := ih
    have hevs : before ++ .cycle level t d :: (since ++ [e]) =
        before' ++ .cycle level' t' d' :: since' ++ [e] := by
      rw [← hsplit, List.append_assoc, List.cons_append]
    rw [hevs]
    by_cases hnew : ∃ l u x, e = .cycle l u x ∧
        Asks a st (before' ++ .cycle level' t' d' :: since') l u
    · obtain ⟨l, u, x, rfl, hasks''⟩ := hnew
      exact ⟨u, _, l, x, [], rfl, hasks'', by simp⟩
    · refine ⟨t', before', level', d', since' ++ [e], by simp, hasks', ?_⟩
      intro more l u x rest hmore hasks''
      rcases List.eq_nil_or_concat rest with rfl | ⟨rest, z, rfl⟩
      · obtain ⟨rfl, he⟩ := List.append_inj' hmore rfl
        exact hnew ⟨l, u, x, (List.cons.inj he).1, hasks''⟩
      · rw [List.concat_eq_append, ← List.cons_append, ← List.append_assoc] at hmore
        obtain ⟨rfl, -⟩ := List.append_inj' hmore rfl
        exact hsilent more l u x rest rfl hasks''

/-- A failed page is attempted again exactly if the read completes the confirmation of another
level, or the confirmed level is bad and the interval is over since the last page was asked for. -/
theorem pageRetried_iff : PageRetried a st evs ↔ ∀ level before t since now,
    FailedPage a st evs level before t since now →
      let h := before ++ .cycle level t false :: since
      (a.confirm ≤ (stateAfter a st h).count level ∧ level ≠ (stateAfter a st h).level) ∨
        ((stateAfter a st h).level ≠ .ok ∧ ∃ last, LastAsked a st h last ∧
          a.repeatSec ≤ now - last) := by
  refine forall_congr' fun level => forall_congr' fun before => forall_congr' fun t =>
    forall_congr' fun since => forall_congr' fun now => forall_congr' fun hfailed => ?_
  rw [asks_iff]
  refine or_congr_right (and_congr_right fun _ => ?_)
  constructor
  · intro hdue
    obtain ⟨last, hlast⟩ := @exists_lastAsked a st level t false before since hfailed.asked
    rw [hlast.lastSent] at hdue
    exact ⟨last, hlast, hdue⟩
  · rintro ⟨last, hlast, hdue⟩
    rw [hlast.lastSent]
    exact hdue

end

/-! ### A page that is lost -/

/-- The ALERT fails to go out, and the next cycle reads the same. -/
def lostAlert : List AlertEvent :=
  [.cycle .crit 4000 true, .cycle .crit 4120 false, .cycle .crit 4240 true]

/-- The state before was `CRIT`; the RESOLVED fails to go out. -/
def lostResolved : List AlertEvent :=
  [.cycle .ok 4000 true, .cycle .ok 4120 false, .cycle .ok 90000 true]

def critState : AlertState :=
  { level := .crit, lastSent := 3000, pending := some .crit, pendingN := 5 }

/-- The lost ALERT is not repeated in the next cycle, and the lost RESOLVED not after a day. -/
theorem lostPage_forgotten :
    ¬ PageRetried pagerArgs {} lostAlert ∧ ¬ PageRetried pagerArgs critState lostResolved := by
  constructor
  · intro h
    have hfailed : FailedPage pagerArgs {} lostAlert .crit [.cycle .crit 4000 true] 4120 [] 4240 :=
      ⟨⟨true, [], rfl⟩, by unfold Asks; decide +kernel, by simp⟩
    have hasks := h _ _ _ _ _ hfailed
    unfold Asks at hasks
    exact absurd hasks (by decide +kernel)
  · intro h
    have hfailed : FailedPage pagerArgs critState lostResolved .ok [.cycle .ok 4000 true] 4120 []
        90000 := ⟨⟨true, [], rfl⟩, by unfold Asks; decide +kernel, by simp⟩
    have hasks := h _ _ _ _ _ hfailed
    unfold Asks at hasks
    exact absurd hasks (by decide +kernel)

end Clif
