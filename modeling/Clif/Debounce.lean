import Clif.Alert

/-!
# Debounce — `decide`: which reads of the level lead to a page

A level is confirmed when it was read `confirm` times in a row; a change of the confirmed level is
paged, and a bad one is paged again every `repeat_sec`.  `steady_pages` is what this comes to over
a run of reads, and `oscillation_silent` is what it does not come to.
-/

namespace Clif

/-! ## One call -/

/-- The state between two calls; an absent key has the default. -/
structure AlertState where
  level : Severity := .ok
  lastSent : ℚ := 0
  pending : Option Severity := none
  pendingN : Nat := 0
deriving DecidableEq

/-- `none`: no page, the empty string. -/
inductive AlertKind where
  | alert
  | update
  | resolved
  | reminder
deriving DecidableEq

structure AlertArgs where
  repeatSec : ℚ
  confirm : Nat

namespace AlertState

/-- How often the level was read in a row, this read included. -/
def count (st : AlertState) (level : Severity) : Nat :=
  if some level = st.pending then st.pendingN + 1 else 1

/-- The confirmed level after a read. -/
def confirmed (a : AlertArgs) (st : AlertState) (level : Severity) : Severity :=
  if a.confirm ≤ st.count level then level else st.level

/-- `kind` of a page, if there is one. -/
def page (a : AlertArgs) (st : AlertState) (level : Severity) (now : ℚ) : Option AlertKind :=
  let confirmed := st.confirmed a level
  if confirmed ≠ st.level then
    some (if st.level.order < confirmed.order then .alert
      else if confirmed = .ok then .resolved else .update)
  else if Severity.warn.order ≤ confirmed.order ∧ a.repeatSec ≤ now - st.lastSent then
    some .reminder
  else none

/-- `decide`; `send` is whether there is a page. -/
def decide (a : AlertArgs) (st : AlertState) (level : Severity) (now : ℚ) :
    Option AlertKind × AlertState :=
  (st.page a level now,
    { level := st.confirmed a level
      lastSent := if (st.page a level now).isSome then now else st.lastSent
      pending := some level
      pendingN := st.count level })

end AlertState

/-! ## Runs -/

/-- A level, and the time of the read. -/
abbrev LevelRead := Severity × ℚ

/-- The state after the reads. -/
def AlertState.after (a : AlertArgs) (st : AlertState) (reads : List LevelRead) : AlertState :=
  reads.foldl (fun st r => (st.decide a r.1 r.2).2) st

/-- The page for a read after the others. -/
def AlertState.pageAfter (a : AlertArgs) (st : AlertState) (reads : List LevelRead)
    (r : LevelRead) : Option AlertKind := (st.after a reads).page a r.1 r.2

section

variable {a : AlertArgs} {st : AlertState} {reads : List LevelRead} {r : LevelRead}
  {level : Severity} {now : ℚ}

theorem AlertState.after_snoc :
    st.after a (reads ++ [r]) = ((st.after a reads).decide a r.1 r.2).2 := by
  simp [AlertState.after]

theorem AlertState.after_append {more : List LevelRead} :
    st.after a (reads ++ more) = (st.after a reads).after a more := by
  simp [AlertState.after]

/-- Where a level is bad and stays so, only the time holds a page back. -/
theorem AlertState.page_none (h : st.page a level now = none) :
    st.confirmed a level = st.level ∧ (st.level ≠ .ok → now - st.lastSent < a.repeatSec) := by
  unfold AlertState.page at h
  dsimp only at h
  split at h
  · cases h
  rename_i hsame
  have hsame : st.confirmed a level = st.level := not_not.mp hsame
  split at h
  · cases h
  rename_i hheld
  refine ⟨hsame, fun hbad => lt_of_not_ge fun hdue => hheld ⟨?_, hdue⟩⟩
  rw [hsame]
  cases hl : st.level with
  | ok => exact absurd hl hbad
  | warn => exact le_refl _
  | crit => exact Nat.le_succ _

/-- What is pending was read as often as it counts; the count of the stored state goes on. -/
theorem pending_reads (hp : (st.after a reads).pending = some level) :
    ∃ before run, reads = before ++ run ∧ (∀ r ∈ run, r.1 = level) ∧
      ((st.after a reads).pendingN = run.length ∨
        before = [] ∧ st.pending = some level ∧
          (st.after a reads).pendingN = st.pendingN + run.length) := by
  induction reads using List.reverseRecOn with
  | nil => exact ⟨[], [], rfl, by simp, Or.inr ⟨rfl, hp, rfl⟩⟩
  | append_singleton reads r ih =>
    rw [AlertState.after_snoc] at hp ⊢
    obtain rfl : r.1 = level := Option.some.inj hp
    show ∃ before run, _ ∧ _ ∧ ((st.after a reads).count r.1 = _ ∨ _ ∧ _ ∧
      (st.after a reads).count r.1 = _)
    unfold AlertState.count
    by_cases hsame : some r.1 = (st.after a reads).pending
    · obtain ⟨before, run, hreads, hrun, hcount⟩ := ih hsame.symm
      rw [if_pos hsame]
      refine ⟨before, run ++ [r], by rw [hreads, List.append_assoc], ?_, ?_⟩
      · intro x hx
        rcases List.mem_append.mp hx with hx | hx
        · exact hrun x hx
        · rw [List.mem_singleton.mp hx]
      · rw [List.length_append, List.length_singleton]
        rcases hcount with hcount | ⟨hbefore, hpending, hcount⟩
        · exact Or.inl (by omega)
        · exact Or.inr ⟨hbefore, hpending, by omega⟩
    · rw [if_neg hsame]
      exact ⟨reads, [r], rfl, by simp, Or.inl rfl⟩

/-- Reads of one level in a row are counted. -/
theorem count_run {run : List LevelRead} (hrun : ∀ r ∈ run, r.1 = level) (hne : run ≠ []) :
    (st.after a run).pending = some level ∧ run.length ≤ (st.after a run).pendingN ∧
      (a.confirm ≤ run.length → (st.after a run).level = level) := by
  induction run using List.reverseRecOn with
  | nil => exact absurd rfl hne
  | append_singleton run r ih =>
    have hr : r.1 = level := hrun r (by simp)
    have hcount : run.length + 1 ≤ (st.after a run).count level := by
      by_cases hempty : run = []
      · subst hempty
        unfold AlertState.count
        split <;> simp
      · obtain ⟨hpending, hlength, -⟩ := ih (fun x hx => hrun x (by simp [hx])) hempty
        rw [AlertState.count, if_pos hpending.symm]
        omega
    rw [AlertState.after_snoc, List.length_append, List.length_singleton, hr]
    refine ⟨rfl, hcount, fun hconfirm => ?_⟩
    show (st.after a run).confirmed a level = level
    exact if_pos (by omega)

/-! ## Pages -/

/-- The last page of the run, at `r`: since then the confirmed level is what it was after it. -/
structure LastPage (a : AlertArgs) (st : AlertState) (before : List LevelRead) (r : LevelRead)
    (since : List LevelRead) : Prop where
  paged : (st.pageAfter a before r).isSome = true
  silent : ∀ more x rest, since = more ++ x :: rest →
    st.pageAfter a (before ++ r :: more) x = none

/-- A change of the confirmed level over a run is paged in it, and the last page is not older than
the interval. -/
theorem last_page (hok : st.level = .ok) (hbad : (st.after a reads).level ≠ .ok) :
    ∃ before r since, reads = before ++ r :: since ∧ LastPage a st before r since ∧
      (st.after a (before ++ [r])).level = (st.after a reads).level ∧
      (st.after a reads).lastSent = r.2 ∧
      ∀ last, since.getLast? = some last → last.2 - r.2 < a.repeatSec := by
  induction reads using List.reverseRecOn with
  | nil => exact absurd hok hbad
  | append_singleton reads x ih =>
    cases hpage : st.pageAfter a reads x with
    | some kind =>
      refine ⟨reads, x, [], rfl, ⟨by rw [hpage]; rfl, ?_⟩, rfl, ?_, ?_⟩
      · intro more y rest hnil
        simp at hnil
      · rw [AlertState.after_snoc]
        have hsome : ((st.after a reads).page a x.1 x.2).isSome = true := by
          rw [show (st.after a reads).page a x.1 x.2 = some kind from hpage]
          rfl
        exact if_pos hsome
      · intro last hlast
        cases hlast
    | none =>
      have hnone : (st.after a reads).page a x.1 x.2 = none := hpage
      obtain ⟨hsame, hheld⟩ := AlertState.page_none hnone
      have hlevel : (st.after a (reads ++ [x])).level = (st.after a reads).level := by
        rw [AlertState.after_snoc]
        exact hsame
      have hsent : (st.after a (reads ++ [x])).lastSent = (st.after a reads).lastSent := by
        rw [AlertState.after_snoc]
        exact if_neg (by rw [hnone]; simp)
      rw [hlevel] at hbad
      obtain ⟨before, r, since, hreads, hlast, hthen, htime, -⟩ := ih hbad
      refine ⟨before, r, since ++ [x], by simp [hreads], ⟨hlast.paged, ?_⟩, ?_, ?_, ?_⟩
      · intro more y rest hsplit
        rcases List.eq_nil_or_concat rest with rfl | ⟨rest, z, rfl⟩
        · obtain ⟨rfl, hy⟩ := List.append_inj' hsplit rfl
          cases hy
          rw [← hreads]
          exact hpage
        · rw [List.concat_eq_append, ← List.cons_append, ← List.append_assoc] at hsplit
          obtain ⟨rfl, -⟩ := List.append_inj' hsplit rfl
          exact hlast.silent more y rest rfl
      · rw [hthen, hlevel]
      · rw [hsent, htime]
      · intro last hlast'
        obtain rfl : x = last := by simpa using hlast'
        rw [← htime]
        exact hheld hbad

/-- The level was read `confirm` times in a row, the reads that a stored count stands for
included. -/
def ReadInARow (a : AlertArgs) (st : AlertState) (reads : List LevelRead) (level : Severity) :
    Prop :=
  ∃ before run, reads = before ++ run ∧ (∀ r ∈ run, r.1 = level) ∧
    (a.confirm ≤ run.length ∨
      before = [] ∧ st.pending = some level ∧ a.confirm ≤ st.pendingN + run.length)

/-- Only a level that was read often enough becomes the confirmed one. -/
theorem change_read (hc : (st.after a reads).confirmed a r.1 ≠ (st.after a reads).level) :
    ReadInARow a st (reads ++ [r]) r.1 := by
  have hcount : a.confirm ≤ (st.after a reads).count r.1 := by
    by_contra hless
    exact hc (if_neg hless)
  have hpending : (st.after a (reads ++ [r])).pending = some r.1 := by
    rw [AlertState.after_snoc]
    rfl
  obtain ⟨before, run, hreads, hrun, hn⟩ := pending_reads hpending
  have hcounted : (st.after a (reads ++ [r])).pendingN = (st.after a reads).count r.1 := by
    rw [AlertState.after_snoc]
    rfl
  rw [hcounted] at hn
  refine ⟨before, run, hreads, hrun, ?_⟩
  rcases hn with hn | ⟨hbefore, hstored, hn⟩
  · exact Or.inl (by omega)
  · exact Or.inr ⟨hbefore, hstored, by omega⟩

end

/-! ## The paging of a bad state -/

/-- Every stretch of at least `2 * confirm` bad reads at the end has a page, and a change is paged
for what was read `confirm` times in a row. -/
structure PagesPersistent (a : AlertArgs) (st : AlertState) (reads : List LevelRead) : Prop where
  paged : ∀ before run, reads = before ++ run → 2 * a.confirm ≤ run.length →
    (∀ r ∈ run, r.1 ≠ .ok) → ∃ more r rest, run = more ++ r :: rest ∧
      (st.pageAfter a (before ++ more) r).isSome = true
  confirmed : ∀ before r rest, reads = before ++ r :: rest →
    (st.after a before).confirmed a r.1 ≠ (st.after a before).level →
      ∃ h run, before ++ [r] = h ++ run ∧ run.length = a.confirm ∧ ∀ x ∈ run, x.1 = r.1

/-- A bad level that is read `confirm` times in a row is paged when it is not yet confirmed; once
it is, the last page is at most the interval old. -/
structure PagesSteady (a : AlertArgs) (st : AlertState) (reads : List LevelRead) : Prop where
  paged : ∀ before run rest level, reads = before ++ run ++ rest → run.length = a.confirm →
    (∀ r ∈ run, r.1 = level) → level ≠ (st.after a before).level →
      ∃ more r others, run = more ++ r :: others ∧
        (st.pageAfter a (before ++ more) r).isSome = true
  repaged : ∀ before run level, reads = before ++ run → run.length = a.confirm →
    (∀ r ∈ run, r.1 = level) → level ≠ .ok → (st.after a reads).level = level ∧
      ∃ h r since, reads = h ++ r :: since ∧ LastPage a st h r since ∧
        (st.after a (h ++ [r])).level = level ∧
          ∀ last, since.getLast? = some last → last.2 - r.2 < a.repeatSec
  confirmed : ∀ before r rest, reads = before ++ r :: rest →
    (st.after a before).confirmed a r.1 ≠ (st.after a before).level →
      ReadInARow a st (before ++ [r]) r.1

section

variable {a : AlertArgs} {st : AlertState} {run : List LevelRead} {level : Severity}

/-- Over reads without a page the confirmed level stays. -/
theorem level_of_silent
    (h : ∀ more r others, run = more ++ r :: others → st.pageAfter a more r = none) :
    (st.after a run).level = st.level := by
  induction run using List.reverseRecOn with
  | nil => rfl
  | append_singleton run r ih =>
    have hnone := h run r [] rfl
    rw [AlertState.after_snoc]
    refine (AlertState.page_none hnone).1.trans (ih fun more x others hsplit => ?_)
    exact h more x (others ++ [r]) (by rw [hsplit, List.append_assoc, List.cons_append])

theorem after_run_level (hconfirm : 1 ≤ a.confirm) (hlength : run.length = a.confirm)
    (hrun : ∀ r ∈ run, r.1 = level) : (st.after a run).level = level := by
  have hne : run ≠ [] := by
    rintro rfl
    rw [List.length_nil] at hlength
    omega
  exact (count_run hrun hne).2.2 (by omega)

end

/-- From a stored state at `OK`, every run of reads pages every level that holds. -/
theorem steady_pages (a : AlertArgs) (st : AlertState) (reads : List LevelRead)
    (hconfirm : 1 ≤ a.confirm) (hok : st.level = .ok) : PagesSteady a st reads := by
  refine ⟨?_, ?_, ?_⟩
  · rintro before run rest level - hlength hrun hnew
    have hlevel : ((st.after a before).after a run).level = level :=
      after_run_level hconfirm hlength hrun
    by_contra hsilent
    have hsame := @level_of_silent a (st.after a before) run ?_
    · exact hnew (hlevel.symm.trans hsame)
    · intro more r others hsplit
      by_contra hpage
      refine hsilent ⟨more, r, others, hsplit, ?_⟩
      rw [AlertState.pageAfter, AlertState.after_append]
      exact Option.isSome_iff_ne_none.mpr hpage
  · rintro before run level rfl hlength hrun hbad
    have hlevel : (st.after a (before ++ run)).level = level := by
      rw [AlertState.after_append]
      exact after_run_level hconfirm hlength hrun
    refine ⟨hlevel, ?_⟩
    have hbad' : (st.after a (before ++ run)).level ≠ .ok := by rwa [hlevel]
    obtain ⟨h, r, since, hreads, hlast, hthen, -, hage⟩ := last_page hok hbad'
    exact ⟨h, r, since, hreads, hlast, hthen.trans hlevel, hage⟩
  · rintro before r rest - hchange
    exact change_read hchange

/-! ### Alternating levels, a level already paged, and a stored count -/

def pagerArgs : AlertArgs := { repeatSec := 3600, confirm := 2 }

/-- `WARN` and `CRIT` in turn, every minute. -/
def oscillation : List LevelRead := [(.warn, 60), (.crit, 120), (.warn, 180), (.crit, 240)]

def steadyCrit : List LevelRead :=
  [(.crit, 4000), (.crit, 4060), (.crit, 4120), (.crit, 4180), (.crit, 4240), (.crit, 4300)]

/-- One read of `CRIT` was stored. -/
def oncePending : AlertState := { pending := some .crit, pendingN := 1 }

theorem silent_of_none {a : AlertArgs} {st : AlertState} {before run : List LevelRead}
    (hnone : ∀ n < run.length, ∀ r ∈ run[n]?, st.pageAfter a (before ++ run.take n) r = none) :
    ¬ ∃ more r rest, run = more ++ r :: rest ∧
      (st.pageAfter a (before ++ more) r).isSome = true := by
  rintro ⟨more, r, rest, hsplit, hpage⟩
  have hlength : more.length < run.length := by
    rw [hsplit, List.length_append, List.length_cons]
    omega
  have htake : run.take more.length = more := by rw [hsplit, List.take_left]
  have hget : run[more.length]? = some r := by simp [hsplit]
  have hquiet := hnone more.length hlength r hget
  rw [htake] at hquiet
  rw [hquiet] at hpage
  cases hpage

/-- Alternating levels are never paged; a level that was paged a minute ago is not paged again; and
a stored count completes a confirmation. -/
theorem oscillation_silent :
    ¬ PagesPersistent pagerArgs {} oscillation ∧ ¬ PagesPersistent pagerArgs {} steadyCrit ∧
      ¬ PagesPersistent pagerArgs oncePending [(.crit, 60)] := by
  refine ⟨fun h => ?_, fun h => ?_, fun h => ?_⟩
  · exact silent_of_none (by decide +kernel) (h.paged [] oscillation rfl (by decide) (by decide))
  · exact silent_of_none (by decide +kernel)
      (h.paged (steadyCrit.take 2) (steadyCrit.drop 2) rfl (by decide) (by decide))
  · obtain ⟨before, run, hsplit, hlength, -⟩ := h.confirmed [] (.crit, 60) [] rfl (by decide)
    have htwo := congrArg List.length hsplit
    simp only [List.nil_append, List.length_singleton, List.length_append, hlength] at htwo
    have hconfirm : pagerArgs.confirm = 2 := rfl
    omega

/-- Two reads of `CRIT` after one of `WARN`. -/
theorem steady_pages_crit :
    PagesSteady pagerArgs {} [(.warn, 60), (.crit, 120), (.crit, 180)] ∧
      AlertState.pageAfter pagerArgs {} [(.warn, 60), (.crit, 120)] (.crit, 180) = some .alert :=
  ⟨steady_pages pagerArgs {} _ (by decide) rfl, by decide +kernel⟩

end Clif
