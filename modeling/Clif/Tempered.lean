import Mathlib.Data.List.Chain
import Mathlib.Data.Rat.Defs
import Mathlib.Algebra.Order.Ring.Unbundled.Rat
import Clif.Effect.Run

/-!
# Tempered — a log that does not repeat itself

A line is written when it is an alarm, when its key is another than the remembered one, or when the
last one that was remembered is old.  Between the lines stand notes, which are always written.
`current_iff` says when the last line of the log still tells what was read last; `temperate` that a
line is not repeated too soon.
-/

namespace Tempered

open Effect

variable {ρ κ ω ε : Type}

/-- What a line tells of a reading is its key; an alarm tells that it is one. -/
structure Policy (ρ κ : Type) where
  key : ρ → κ
  alarm : ρ → Bool
  told : ∀ r r', key r = key r' → alarm r = alarm r'
  heartbeat : ℚ
  /-- Whether the line of an alarm takes the place of the remembered one. -/
  remembersAlarms : Bool

/-- The remembered line, with its time, and all lines and notes. -/
structure Log (ρ κ ω : Type) where
  last : Option κ := none
  time : ℚ := 0
  entries : List ((ℚ × ρ) ⊕ ω) := []
deriving DecidableEq

namespace Log

def lines (l : Log ρ κ ω) : List (ℚ × ρ) := l.entries.filterMap Sum.getLeft?

def notes (l : Log ρ κ ω) : List ω := l.entries.filterMap Sum.getRight?

def add (l : Log ρ κ ω) (os : List ω) : Log ρ κ ω := { l with entries := l.entries ++ os.map .inr }

/-- The last line is `y`. -/
def EndsWith (l : Log ρ κ ω) (y : ℚ × ρ) : Prop :=
  ∃ (front : List ((ℚ × ρ) ⊕ ω)) (rest : List ω), l.entries = front ++ .inl y :: rest.map .inr

variable {l : Log ρ κ ω} {os : List ω}

@[simp] theorem add_last : (l.add os).last = l.last := rfl

@[simp] theorem add_time : (l.add os).time = l.time := rfl

@[simp] theorem add_lines : (l.add os).lines = l.lines := by
  have hnone : (os.map (.inr : ω → (ℚ × ρ) ⊕ ω)).filterMap Sum.getLeft? = [] :=
    List.filterMap_eq_nil_iff.mpr (by simp)
  rw [lines, add, List.filterMap_append, hnone, List.append_nil, lines]

@[simp] theorem add_notes : (l.add os).notes = l.notes ++ os := by
  have hall : (os.map (.inr : ω → (ℚ × ρ) ⊕ ω)).filterMap Sum.getRight? = os := by
    rw [List.filterMap_map]
    exact List.filterMap_some
  rw [notes, add, List.filterMap_append, hall, notes]

theorem EndsWith.last {y : ℚ × ρ} (h : l.EndsWith y) : l.lines.getLast? = some y := by
  obtain ⟨front, rest, hentries⟩ := h
  have hnone : (rest.map (.inr : ω → (ℚ × ρ) ⊕ ω)).filterMap Sum.getLeft? = [] :=
    List.filterMap_eq_nil_iff.mpr (by simp)
  rw [lines, hentries, List.filterMap_append, List.filterMap_cons, hnone]
  exact List.getLast?_concat

/-- Behind the last line there are notes alone. -/
theorem endsWith_iff {y : ℚ × ρ} : l.lines.getLast? = some y ↔ l.EndsWith y := by
  refine ⟨fun h => ?_, EndsWith.last⟩
  obtain ⟨last, time, entries⟩ := l
  replace h : (entries.filterMap Sum.getLeft?).getLast? = some y := h
  show ∃ (front : List ((ℚ × ρ) ⊕ ω)) (rest : List ω), entries = front ++ .inl y :: rest.map .inr
  induction entries using List.reverseRecOn with
  | nil => cases h
  | append_singleton entries x ih =>
    rw [List.filterMap_append] at h
    cases x with
    | inl x =>
      obtain rfl : x = y := by simpa using h
      exact ⟨entries, [], rfl⟩
    | inr o =>
      obtain ⟨front, rest, rfl⟩ := ih (by simpa using h)
      exact ⟨front, rest ++ [o], by simp⟩

end Log

namespace Policy

variable [DecidableEq κ] (p : Policy ρ κ)

def speaks (l : Log ρ κ ω) (x : ℚ × ρ) : Bool :=
  p.alarm x.2 || decide (l.last ≠ some (p.key x.2)) || decide (p.heartbeat ≤ x.1 - l.time)

/-- Whether the line of the reading, if there is one, is remembered. -/
def keeps (x : ℚ × ρ) : Bool := p.remembersAlarms || !p.alarm x.2

def hear (l : Log ρ κ ω) (x : ℚ × ρ) : Log ρ κ ω :=
  if p.speaks l x then
    if p.keeps x then
      { last := some (p.key x.2), time := x.1, entries := l.entries ++ [.inl x] }
    else { l with entries := l.entries ++ [.inl x] }
  else l

/-- A cycle, with what it read, if anything, and its notes. -/
def cycle (l : Log ρ κ ω) (reading : Option (ℚ × ρ)) (notes : List ω) : Log ρ κ ω :=
  match reading with
  | some x => (p.hear l x).add notes
  | none => l.add notes

/-- The lines that are remembered. -/
def kept (l : Log ρ κ ω) : List (ℚ × ρ) := l.lines.filter p.keeps

/-- The last line tells what was read last: it is the line of that reading, or one of the same key,
not yet old. -/
def Current (l : Log ρ κ ω) (xs : List (ℚ × ρ)) : Prop :=
  ∀ x ∈ xs.getLast?, ∃ y ∈ l.lines.getLast?, p.key y.2 = p.key x.2 ∧
    (y = x ∨ p.alarm x.2 = false ∧ x.1 - y.1 < p.heartbeat)

/-- A return from an alarm to the line before it, without a word. -/
def Silent (l : Log ρ κ ω) (x : ℚ × ρ) : Prop :=
  p.speaks l x = false ∧ ∃ y ∈ l.lines.getLast?, p.alarm y.2 = true

instance (l : Log ρ κ ω) (x : ℚ × ρ) : Decidable (p.Silent l x) :=
  inferInstanceAs (Decidable (p.speaks l x = false ∧ ∃ y ∈ l.lines.getLast?, p.alarm y.2 = true))

end Policy

/-- A step that does this with the log, and whose label shows the reading and the notes. -/
def Tells [DecidableEq κ] (p : Policy ρ κ) (reading : ε → Option (ℚ × ρ)) (notes : ε → List ω)
    (step : Log ρ κ ω → ε → Log ρ κ ω → Prop) : Prop :=
  ∀ l e l', step l e l' → l' = p.cycle l (reading e) (notes e)

section

variable [DecidableEq κ] {p : Policy ρ κ} {reading : ε → Option (ℚ × ρ)} {notes : ε → List ω}
  {step : Log ρ κ ω → ε → Log ρ κ ω → Prop} {l l' : Log ρ κ ω} {x : ℚ × ρ} {e : ε} {es : List ε}

/-! ## What a line does -/

theorem hear_lines : (p.hear l x).lines = if p.speaks l x then l.lines ++ [x] else l.lines := by
  have hone : (l.entries ++ [Sum.inl x]).filterMap Sum.getLeft? = l.lines ++ [x] := by
    rw [List.filterMap_append]
    rfl
  unfold Policy.hear
  split
  · split
    · exact hone
    · exact hone
  · rfl

theorem hear_notes : (p.hear l x).notes = l.notes := by
  have hnone : (l.entries ++ [Sum.inl x]).filterMap Sum.getRight? = l.notes := by
    rw [List.filterMap_append]
    exact List.append_nil _
  unfold Policy.hear
  split
  · split
    · exact hnone
    · exact hnone
  · rfl

theorem hear_silent (h : p.speaks l x = false) : p.hear l x = l := by
  unfold Policy.hear
  rw [h]
  rfl

/-- What is not said is remembered, and not yet old. -/
theorem speaks_eq_false : p.speaks l x = false ↔
    p.alarm x.2 = false ∧ l.last = some (p.key x.2) ∧ x.1 - l.time < p.heartbeat := by
  simp [Policy.speaks, and_assoc]

/-- The memory holds the last of the remembered lines. -/
def Remembers (p : Policy ρ κ) (l : Log ρ κ ω) : Prop :=
  (p.kept l).getLast?.map (fun y => (p.key y.2, y.1)) = l.last.map fun k => (k, l.time)

omit [DecidableEq κ] in
theorem filter_keeps {xs : List (ℚ × ρ)} :
    (xs ++ [x]).filter p.keeps = xs.filter p.keeps ++ if p.keeps x then [x] else [] := by
  rw [List.filter_append, List.filter_cons, List.filter_nil]

omit [DecidableEq κ] in
@[simp] theorem kept_add {os : List ω} : p.kept (l.add os) = p.kept l := by
  rw [Policy.kept, Log.add_lines, Policy.kept]

omit [DecidableEq κ] in
theorem Remembers.add {os : List ω} (h : Remembers p l) : Remembers p (l.add os) := by
  rw [Remembers, kept_add]
  exact h

theorem Remembers.hear (h : Remembers p l) : Remembers p (p.hear l x) := by
  by_cases hspeaks : p.speaks l x = true
  · by_cases hkept : p.keeps x = true
    · have hhear : p.hear l x =
          { last := some (p.key x.2), time := x.1, entries := l.entries ++ [.inl x] } := by
        rw [Policy.hear, if_pos hspeaks, if_pos hkept]
      rw [Remembers, Policy.kept, hear_lines, if_pos hspeaks, filter_keeps, if_pos hkept, hhear]
      simp
    · have hhear : p.hear l x = { l with entries := l.entries ++ [.inl x] } := by
        rw [Policy.hear, if_pos hspeaks, if_neg hkept]
      rw [Remembers, Policy.kept, hear_lines, if_pos hspeaks, filter_keeps, if_neg hkept,
        List.append_nil, hhear]
      exact h
  · rw [hear_silent (by simpa using hspeaks)]
    exact h

theorem Remembers.cycle {x : Option (ℚ × ρ)} {os : List ω} (h : Remembers p l) :
    Remembers p (p.cycle l x os) := by
  cases x with
  | none => exact h.add
  | some x => exact h.hear.add

theorem remembers_run (ht : Tells p reading notes step) (hrun : Run step {} es l) :
    Remembers p l := by
  refine hrun.invariant (fun _ l => Remembers p l) (rfl : Remembers p {}) ?_
  rintro es l e l' - h hstep
  rw [ht l e l' hstep]
  exact h.cycle

/-- The notes of the log are those of the cycles, one after the other. -/
theorem notes_run (ht : Tells p reading notes step) (hrun : Run step {} es l) :
    l.notes = es.flatMap notes := by
  refine hrun.invariant (fun es l => l.notes = es.flatMap notes) rfl ?_
  rintro es l e l' - h hstep
  rw [ht l e l' hstep, List.flatMap_append, ← h]
  cases reading e with
  | none => simp [Policy.cycle]
  | some x => simp [Policy.cycle, hear_notes]

theorem Tells.deterministic (ht : Tells p reading notes step) (l : Log ρ κ ω) (e : ε)
    (l₁ l₂ : Log ρ κ ω) (h₁ : step l e l₁) (h₂ : step l e l₂) : l₁ = l₂ := by
  rw [ht l e l₁ h₁, ht l e l₂ h₂]

/-- After a reading the log is current, unless that is a silent return. -/
theorem current_hear {xs : List (ℚ × ρ)} (hr : Remembers p l) :
    p.Current (p.hear l x) (xs ++ [x]) ↔ ¬ p.Silent l x := by
  unfold Policy.Current
  rw [hear_lines]
  simp only [List.getLast?_append, List.getLast?_singleton, Option.some_or, Option.mem_def,
    Option.some.injEq, forall_eq']
  cases hspeaks : p.speaks l x with
  | true =>
    have hsaid : ¬ p.Silent l x := by
      intro h
      rw [h.1] at hspeaks
      cases hspeaks
    refine iff_of_true ⟨x, by simp, rfl, .inl rfl⟩ hsaid
  | false =>
    obtain ⟨hquiet, hlast, hyoung⟩ := speaks_eq_false.mp hspeaks
    rw [Remembers, hlast, Option.map_some] at hr
    obtain ⟨y, hy, hsame⟩ := Option.map_eq_some_iff.mp hr
    obtain ⟨hkey, htime⟩ := Prod.mk.inj hsame
    have hmem : y ∈ p.kept l := List.mem_of_getLast? hy
    obtain ⟨z, hz⟩ : ∃ z, l.lines.getLast? = some z := by
      have hne : l.lines ≠ [] := List.ne_nil_of_mem (List.mem_of_mem_filter hmem)
      exact ⟨_, List.getLast?_eq_some_getLast hne⟩
    simp only [Bool.false_eq_true, if_false]
    constructor
    · rintro ⟨z', hz', hkey', -⟩ ⟨-, w, hw, halarm⟩
      rw [hz'] at hw
      cases hw
      rw [p.told _ _ hkey', hquiet] at halarm
      cases halarm
    · intro hnot
      have hcalm : p.alarm z.2 = false := by
        by_contra h
        exact hnot ⟨hspeaks, z, hz, by simpa using h⟩
      obtain ⟨front, hfront⟩ := List.getLast?_eq_some_iff.mp hz
      have hyz : y = z := by
        have hkeeps : p.keeps z = true := by simp [Policy.keeps, hcalm]
        rw [Policy.kept, hfront, filter_keeps, if_pos hkeeps, List.getLast?_concat] at hy
        exact (Option.some.inj hy).symm
      subst hyz
      refine ⟨y, hz, hkey, .inr ⟨hquiet, ?_⟩⟩
      rw [htime]
      exact hyoung

omit [DecidableEq κ] in
@[simp] theorem current_add {xs : List (ℚ × ρ)} {os : List ω} :
    p.Current (l.add os) xs ↔ p.Current l xs := by
  rw [Policy.Current, Log.add_lines, Policy.Current]

/-! ## What the log tells -/

/-- Along a run the log stays current exactly if there is no silent return. -/
theorem current_iff (ht : Tells p reading notes step) (hrun : Run step {} es l) :
    Throughout step {} (fun es l => p.Current l (es.filterMap reading)) es ↔
      EachStep step {} (fun l e => ∀ x ∈ reading e, ¬ p.Silent l x) es := by
  refine Run.throughout_iff ht.deterministic (by simp [Policy.Current]) ?_ hrun
  intro es l e l' hrun hstep hcurrent
  rw [ht l e l' hstep, List.filterMap_append]
  cases hread : reading e with
  | none => simpa [List.filterMap_cons, hread, Policy.cycle] using hcurrent
  | some x =>
    have hone : [e].filterMap reading = [x] := by simp [hread]
    rw [hone, Policy.cycle, current_add]
    exact (current_hear (remembers_run ht hrun)).trans (by simp)

/-- Where alarms are remembered there is none. -/
theorem not_silent (hr : Remembers p l) (hp : p.remembersAlarms = true) : ¬ p.Silent l x := by
  rintro ⟨hspeaks, y, hy, halarm⟩
  obtain ⟨hquiet, hlast, -⟩ := speaks_eq_false.mp hspeaks
  have hkept : p.kept l = l.lines :=
    List.filter_eq_self.mpr fun z _ => by simp [Policy.keeps, hp]
  rw [Remembers, hkept, hlast, Option.mem_def.mp hy] at hr
  have hkey : p.key y.2 = p.key x.2 := congrArg Prod.fst (Option.some.inj hr)
  rw [p.told _ _ hkey, hquiet] at halarm
  cases halarm

theorem current_of_remembers (hp : p.remembersAlarms = true) (ht : Tells p reading notes step)
    (hrun : Run step {} es l) : p.Current l (es.filterMap reading) := by
  have hall := (current_iff ht hrun).mpr fun es₁ e l₁ _ hrun₁ x _ =>
    not_silent (remembers_run ht hrun₁) hp
  exact hall es l List.prefix_rfl hrun

/-- A remembered line is an alarm, or tells something else than the one before it, or comes a
heartbeat after that. -/
theorem temperate (ht : Tells p reading notes step) (hrun : Run step {} es l) :
    (p.kept l).IsChain fun a b =>
      p.alarm b.2 = true ∨ p.key a.2 ≠ p.key b.2 ∨ p.heartbeat ≤ b.1 - a.1 := by
  refine hrun.invariant (fun _ l => (p.kept l).IsChain _) .nil ?_
  intro es l e l' hrun hchain hstep
  rw [ht l e l' hstep]
  cases reading e with
  | none =>
    rw [Policy.cycle, kept_add]
    exact hchain
  | some x =>
    have hr := remembers_run ht hrun
    rw [Policy.cycle, kept_add, Policy.kept, hear_lines]
    split
    · rename_i hspeaks
      rw [filter_keeps]
      refine List.isChain_append.mpr ⟨hchain, ?_, fun a ha b hb => ?_⟩
      · split
        · exact .singleton x
        · exact .nil
      · have hbx : b = x := by
          split at hb
          · exact (Option.some.inj hb).symm
          · cases hb
        subst hbx
        rw [Remembers, Policy.kept, Option.mem_def.mp ha] at hr
        by_contra hnot
        simp only [not_or, not_not, not_le, Bool.not_eq_true] at hnot
        obtain ⟨hquiet, hkey, hyoung⟩ := hnot
        cases hlast : l.last with
        | none => simp [hlast] at hr
        | some k =>
          rw [hlast] at hr
          obtain ⟨hk, htime⟩ := Prod.mk.inj (Option.some.inj hr)
          have hsilent : p.speaks l b = false := by
            refine speaks_eq_false.mpr ⟨hquiet, ?_, ?_⟩
            · rw [hlast, ← hk, hkey]
            · rw [← htime]
              exact hyoung
          rw [hsilent] at hspeaks
          cases hspeaks
    · exact hchain

end

end Tempered
