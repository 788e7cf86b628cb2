import Mathlib.Data.List.Basic

/-!
# Lines — cutting text at line breaks and joining it again

Text is a list over any alphabet.  Some characters break a line; one of them, `nl`, is the one that
lines are joined with, and `cr` directly before `nl` makes one break of the two.
-/

namespace Lines

variable {α : Type} [DecidableEq α]

/-- The line breaks of an alphabet. -/
structure Breaks (α : Type) where
  isBreak : α → Bool
  cr : α
  nl : α
  nl_isBreak : isBreak nl = true
  nl_ne_cr : nl ≠ cr

variable (B : Breaks α)

/-- `line` is what was read of the current line; `afterCr` says that the last break was a `cr`. -/
def splitFrom (afterCr : Bool) (line : List α) : List α → List (List α)
  | [] => if line.isEmpty then [] else [line]
  | c :: cs =>
    if afterCr && decide (c = B.nl) then splitFrom false [] cs
    else if B.isBreak c then line :: splitFrom (decide (c = B.cr)) [] cs
    else splitFrom false (line ++ [c]) cs

def split (text : List α) : List (List α) := splitFrom B false [] text

/-- The lines with `nl` after each. -/
def unlines (lines : List (List α)) : List α := lines.flatMap fun l => l ++ [B.nl]

/-- The lines that a line written with `nl` after it is read back as. -/
def pieces (line : List α) : List (List α) := split B (line ++ [B.nl])

def BreakFree (l : List α) : Prop := ∀ c ∈ l, B.isBreak c = false

instance (l : List α) : Decidable (BreakFree B l) :=
  inferInstanceAs (Decidable (∀ c ∈ l, B.isBreak c = false))

variable {B}

/-- After `nl` the reading starts afresh. -/
theorem splitFrom_nl {rest : List α} : ∀ {text : List α} {afterCr : Bool} {line : List α},
    splitFrom B afterCr line (text ++ B.nl :: rest) =
      splitFrom B afterCr line (text ++ [B.nl]) ++ split B rest := by
  have hcr : decide (B.nl = B.cr) = false := decide_eq_false B.nl_ne_cr
  intro text
  induction text with
  | nil =>
    intro afterCr line
    simp only [List.nil_append, splitFrom, B.nl_isBreak, if_true, hcr, decide_true, Bool.and_true]
    split
    · simp [split]
    · simp [split]
  | cons c text ih =>
    intro afterCr line
    simp only [List.cons_append, splitFrom]
    split
    · exact ih
    split
    · rw [ih, List.cons_append]
    · exact ih

theorem split_nl {text rest : List α} :
    split B (text ++ B.nl :: rest) = pieces B text ++ split B rest := splitFrom_nl

/-- Joined lines are read back line by line. -/
theorem split_unlines {lines : List (List α)} :
    split B (unlines B lines) = lines.flatMap (pieces B) := by
  induction lines with
  | nil => rfl
  | cons l lines ih =>
    rw [unlines, List.flatMap_cons, List.append_assoc, List.singleton_append, split_nl,
      List.flatMap_cons, ← ih]
    rfl

theorem splitFrom_breakFree {l line : List α} (h : BreakFree B l) :
    splitFrom B false line (l ++ [B.nl]) = [line ++ l] := by
  induction l generalizing line with
  | nil => simp [splitFrom, B.nl_isBreak]
  | cons c l ih =>
    obtain ⟨hc, hl⟩ := List.forall_mem_cons.mp h
    simp [splitFrom, hc, ih hl]

theorem mem_splitFrom {l : List α} : ∀ {text : List α} {afterCr : Bool} {line : List α},
    BreakFree B line → l ∈ splitFrom B afterCr line text → BreakFree B l := by
  intro text
  induction text with
  | nil =>
    intro afterCr line hline hl
    unfold splitFrom at hl
    split at hl
    · cases hl
    · rw [List.mem_singleton.mp hl]
      exact hline
  | cons c text ih =>
    intro afterCr line hline hl
    have hnil : BreakFree B ([] : List α) := fun c hc => by cases hc
    unfold splitFrom at hl
    split at hl
    · exact ih hnil hl
    split at hl
    · rcases List.mem_cons.mp hl with rfl | hl
      · exact hline
      · exact ih hnil hl
    · rename_i hc
      refine ih ?_ hl
      intro x hx
      rcases List.mem_append.mp hx with hx | hx
      · exact hline x hx
      · rw [List.mem_singleton.mp hx]
        simpa using hc

/-- A line that was read has no break. -/
theorem breakFree_of_mem_split {text l : List α} (h : l ∈ split B text) : BreakFree B l :=
  mem_splitFrom (fun c hc => by cases hc) h

theorem mem_of_mem_splitFrom {l : List α} {c : α} : ∀ {text : List α} {afterCr : Bool}
    {line : List α}, l ∈ splitFrom B afterCr line text → c ∈ l → c ∈ line ∨ c ∈ text := by
  intro text
  induction text with
  | nil =>
    intro afterCr line hl hc
    unfold splitFrom at hl
    split at hl
    · cases hl
    · rw [List.mem_singleton.mp hl] at hc
      exact .inl hc
  | cons x text ih =>
    intro afterCr line hl hc
    have hrest : c ∈ ([] : List α) ∨ c ∈ text → c ∈ line ∨ c ∈ x :: text := by
      rintro (hc | hc)
      · cases hc
      · exact .inr (List.mem_cons_of_mem _ hc)
    unfold splitFrom at hl
    split at hl
    · exact hrest (ih hl hc)
    split at hl
    · rcases List.mem_cons.mp hl with rfl | hl
      · exact .inl hc
      · exact hrest (ih hl hc)
    · rcases ih hl hc with hc | hc
      · rcases List.mem_append.mp hc with hc | hc
        · exact .inl hc
        · rw [List.mem_singleton.mp hc]
          exact .inr List.mem_cons_self
      · exact .inr (List.mem_cons_of_mem _ hc)

/-- What is read stands in the text. -/
theorem mem_of_mem_split {text l : List α} {c : α} (hl : l ∈ split B text) (hc : c ∈ l) :
    c ∈ text := by
  rcases mem_of_mem_splitFrom hl hc with hc | hc
  · cases hc
  · exact hc

theorem exists_mem_splitFrom {c : α} (hbreak : B.isBreak c = false) : ∀ {text : List α}
    {afterCr : Bool} {line : List α}, (afterCr = true → line = []) → c ∈ line ∨ c ∈ text →
      ∃ l ∈ splitFrom B afterCr line text, c ∈ l := by
  have hne : ∀ {x : α} {text : List α}, B.isBreak x = true → c ∈ x :: text → c ∈ text := by
    intro x text hx hc
    rcases List.mem_cons.mp hc with rfl | hc
    · rw [hbreak] at hx
      cases hx
    · exact hc
  intro text
  induction text with
  | nil =>
    rintro afterCr line - (hc | hc)
    · refine ⟨line, ?_, hc⟩
      cases line with
      | nil => cases hc
      | cons _ _ => exact List.mem_singleton_self _
    · cases hc
  | cons x text ih =>
    intro afterCr line hcr hc
    unfold splitFrom
    by_cases hskip : (afterCr && decide (x = B.nl)) = true
    · obtain ⟨hafter, hx⟩ : afterCr = true ∧ x = B.nl := by simpa using hskip
      rw [if_pos hskip]
      rw [hcr hafter] at hc
      rcases hc with hc | hc
      · cases hc
      · exact ih (fun _ => rfl) (.inr (hne (hx ▸ B.nl_isBreak) hc))
    rw [if_neg hskip]
    by_cases hx : B.isBreak x = true
    · rw [if_pos hx]
      rcases hc with hc | hc
      · exact ⟨line, List.mem_cons_self, hc⟩
      · obtain ⟨l, hl, hcl⟩ := ih (fun _ => rfl) (.inr (hne hx hc))
        exact ⟨l, List.mem_cons_of_mem _ hl, hcl⟩
    · rw [if_neg hx]
      refine ih nofun ?_
      rcases hc with hc | hc
      · exact .inl (List.mem_append_left _ hc)
      · rcases List.mem_cons.mp hc with rfl | hc
        · exact .inl (List.mem_append_right _ (List.mem_singleton_self _))
        · exact .inr hc

/-- What is no line break stands in a line. -/
theorem exists_mem_split {text : List α} {c : α} (hbreak : B.isBreak c = false) (hc : c ∈ text) :
    ∃ l ∈ split B text, c ∈ l :=
  exists_mem_splitFrom hbreak (fun _ => rfl) (.inr hc)

/-- A line is read back as it was written exactly if it has no break. -/
theorem pieces_eq_singleton {l : List α} : pieces B l = [l] ↔ BreakFree B l := by
  constructor
  · intro h
    have hmem : l ∈ pieces B l := by
      rw [h]
      exact List.mem_singleton_self l
    exact breakFree_of_mem_split hmem
  · exact fun h => splitFrom_breakFree h

theorem takeWhile_mem_splitFrom {l : List α} : ∀ {line : List α},
    line ++ l.takeWhile (fun c => !B.isBreak c) ∈ splitFrom B false line (l ++ [B.nl]) := by
  induction l with
  | nil =>
    intro line
    simp [splitFrom, B.nl_isBreak]
  | cons c l ih =>
    intro line
    cases hc : B.isBreak c with
    | true => simp [splitFrom, hc]
    | false => simpa [splitFrom, hc] using @ih (line ++ [c])

/-- The first piece of a line ends at its first break. -/
theorem takeWhile_mem_pieces {l : List α} : l.takeWhile (fun c => !B.isBreak c) ∈ pieces B l :=
  takeWhile_mem_splitFrom

/-- Text without a break joins the first line of what follows it. -/
theorem splitFrom_first {text : List α} : ∀ {line : List α},
    splitFrom B false line (text ++ [B.nl]) =
      (line ++ text.takeWhile fun c => !B.isBreak c) :: (pieces B text).tail := by
  induction text with
  | nil => simp [splitFrom, pieces, split, B.nl_isBreak]
  | cons c text ih =>
    intro line
    rw [List.cons_append]
    by_cases hc : B.isBreak c = true
    · simp [splitFrom, pieces, split, hc]
    · have hrest : pieces B (c :: text) = splitFrom B false [c] (text ++ [B.nl]) := by
        simp [pieces, split, splitFrom, hc]
      have hstep : splitFrom B false line (c :: (text ++ [B.nl])) =
          splitFrom B false (line ++ [c]) (text ++ [B.nl]) := by simp [splitFrom, hc]
      rw [hstep, ih, hrest, ih]
      simp [hc]

theorem pieces_append {l text : List α} (h : BreakFree B l) : pieces B (l ++ text) =
    (l ++ text.takeWhile fun c => !B.isBreak c) :: (pieces B text).tail := by
  have hread : ∀ {l line : List α}, BreakFree B l → splitFrom B false line (l ++ (text ++ [B.nl])) =
      splitFrom B false (line ++ l) (text ++ [B.nl]) := by
    intro l
    induction l with
    | nil => simp
    | cons c l ih =>
      intro line h
      obtain ⟨hc, hl⟩ := List.forall_mem_cons.mp h
      simp [splitFrom, hc, ih hl]
  rw [pieces, split, List.append_assoc, hread h, splitFrom_first]
  rfl

theorem infix_of_mem_splitFrom {l : List α} : ∀ {text : List α} {afterCr : Bool} {line : List α},
    l ∈ splitFrom B afterCr line text → l <:+: line ++ text := by
  intro text
  induction text with
  | nil =>
    intro afterCr line hl
    unfold splitFrom at hl
    split at hl
    · cases hl
    · obtain rfl := List.mem_singleton.mp hl
      exact ⟨[], [], rfl⟩
  | cons c text ih =>
    intro afterCr line hl
    have hrest : l <:+: text → l <:+: line ++ c :: text := fun h =>
      h.trans ⟨line ++ [c], [], by simp⟩
    unfold splitFrom at hl
    split at hl
    · exact hrest (ih hl)
    split at hl
    · rcases List.mem_cons.mp hl with rfl | hl
      · exact ⟨[], c :: text, rfl⟩
      · exact hrest (ih hl)
    · have hstep := ih hl
      rwa [List.append_assoc] at hstep

/-- A line is a part of the text. -/
theorem infix_of_mem_pieces {l text : List α} (h : l ∈ pieces B text) : l <:+: text := by
  have hinfix : l <:+: [] ++ (text ++ [B.nl]) := infix_of_mem_splitFrom h
  rw [List.nil_append] at hinfix
  rcases List.infix_concat_iff.mp hinfix with hsuffix | hinfix
  · rcases List.suffix_concat_iff.mp hsuffix with rfl | ⟨t, rfl, -⟩
    · exact List.nil_infix
    · have hbreak := breakFree_of_mem_split h B.nl (by simp)
      rw [B.nl_isBreak] at hbreak
      cases hbreak
  · exact hinfix

/-- Lines that were read are read back as they were. -/
theorem flatMap_pieces {lines : List (List α)} (h : ∀ l ∈ lines, BreakFree B l) :
    lines.flatMap (pieces B) = lines := by
  induction lines with
  | nil => rfl
  | cons l lines ih =>
    obtain ⟨hl, hlines⟩ := List.forall_mem_cons.mp h
    rw [List.flatMap_cons, pieces_eq_singleton.mpr hl, ih hlines, List.singleton_append]

/-! ## One line in the place of those that match -/

section

variable (p : List α → Bool) (new : List α)

/-- `new` takes the place of the first line that matches, or comes last; later matches go. -/
def collapse : Bool → List (List α) → List (List α)
  | placed, [] => if placed then [] else [new]
  | placed, l :: ls =>
    if p l then
      if placed then collapse true ls else new :: collapse true ls
    else l :: collapse placed ls

variable {p new}

omit [DecidableEq α] in
theorem mem_collapse {x : List α} : ∀ {lines : List (List α)} {placed : Bool},
    x ∈ collapse p new placed lines ↔
      (x ∈ lines ∧ p x = false) ∨ (x = new ∧ placed = false) := by
  intro lines
  induction lines with
  | nil =>
    intro placed
    cases placed <;> simp [collapse]
  | cons l lines ih =>
    intro placed
    unfold collapse
    by_cases hl : p l = true
    · cases placed with
      | true =>
        rw [if_pos hl, if_pos rfl, ih]
        constructor
        · rintro (⟨hx, hp⟩ | ⟨-, hf⟩)
          · exact .inl ⟨List.mem_cons_of_mem _ hx, hp⟩
          · cases hf
        · rintro (⟨hx, hp⟩ | ⟨-, hf⟩)
          · rcases List.mem_cons.mp hx with rfl | hx
            · rw [hl] at hp
              cases hp
            · exact .inl ⟨hx, hp⟩
          · cases hf
      | false =>
        rw [if_pos hl, if_neg Bool.false_ne_true, List.mem_cons, ih]
        constructor
        · rintro (rfl | ⟨hx, hp⟩ | ⟨-, hf⟩)
          · exact .inr ⟨rfl, rfl⟩
          · exact .inl ⟨List.mem_cons_of_mem _ hx, hp⟩
          · cases hf
        · rintro (⟨hx, hp⟩ | ⟨rfl, -⟩)
          · rcases List.mem_cons.mp hx with rfl | hx
            · rw [hl] at hp
              cases hp
            · exact .inr (.inl ⟨hx, hp⟩)
          · exact .inl rfl
    · rw [if_neg hl, List.mem_cons, ih]
      have hpl : p l = false := by simpa using hl
      constructor
      · rintro (rfl | ⟨hx, hp⟩ | ⟨rfl, hf⟩)
        · exact .inl ⟨List.mem_cons_self, hpl⟩
        · exact .inl ⟨List.mem_cons_of_mem _ hx, hp⟩
        · exact .inr ⟨rfl, hf⟩
      · rintro (⟨hx, hp⟩ | ⟨rfl, hf⟩)
        · rcases List.mem_cons.mp hx with rfl | hx
          · exact .inl rfl
          · exact .inr (.inl ⟨hx, hp⟩)
        · exact .inr (.inr ⟨rfl, hf⟩)

omit [DecidableEq α] in
/-- The lines that `q` selects stay in order, if it selects neither a match nor the new line. -/
theorem filter_collapse {q : List α → Bool} (hp : ∀ l, q l = true → p l = false)
    (hnew : q new = false) : ∀ {lines : List (List α)} {placed : Bool},
      (collapse p new placed lines).filter q = lines.filter q := by
  intro lines
  induction lines with
  | nil =>
    intro placed
    cases placed <;> simp [collapse, hnew]
  | cons l lines ih =>
    intro placed
    unfold collapse
    by_cases hl : p l = true
    · have hql : q l = false := by
        by_contra hq
        rw [hp l (by simpa using hq)] at hl
        cases hl
      cases placed with
      | true => rw [if_pos hl, if_pos rfl, ih, List.filter_cons, hql]; rfl
      | false =>
        rw [if_pos hl, if_neg Bool.false_ne_true, List.filter_cons, hnew, List.filter_cons, hql]
        exact ih
    · rw [if_neg hl, List.filter_cons, List.filter_cons, ih]

omit [DecidableEq α] in
/-- Once the new line stands, a collapse only drops matches. -/
theorem collapse_true {lines : List (List α)} :
    collapse p new true lines = lines.filter fun l => !p l := by
  induction lines with
  | nil => rfl
  | cons l lines ih =>
    unfold collapse
    by_cases hl : p l = true
    · rw [if_pos hl, if_pos rfl, ih, List.filter_cons_of_neg (by simp [hl])]
    · rw [if_neg hl, ih, List.filter_cons_of_pos (by simpa using hl)]

omit [DecidableEq α] in
/-- The new line stands where the first match stood; the other lines keep their order. -/
theorem collapse_false {lines : List (List α)} :
    collapse p new false lines = (lines.takeWhile fun l => !p l) ++
      new :: (lines.dropWhile fun l => !p l).filter fun l => !p l := by
  induction lines with
  | nil => rfl
  | cons l lines ih =>
    unfold collapse
    by_cases hl : p l = true
    · simp [hl, collapse_true]
    · have hpl : p l = false := by simpa using hl
      rw [if_neg hl, ih]
      simp [hpl]

omit [DecidableEq α] in
theorem filter_match_collapse (hnew : p new = true) {lines : List (List α)} :
    (collapse p new false lines).filter p = [new] := by
  have hbefore : (lines.takeWhile fun l => !p l).filter p = [] := by
    refine List.filter_eq_nil_iff.mpr fun l hl => ?_
    simpa using List.all_eq_true.mp List.all_takeWhile l hl
  have hafter : ((lines.dropWhile fun l => !p l).filter fun l => !p l).filter p = [] := by
    refine List.filter_eq_nil_iff.mpr fun l hl => ?_
    simpa using (List.mem_filter.mp hl).2
  rw [collapse_false, List.filter_append, hbefore, List.filter_cons_of_pos hnew, hafter]
  rfl

omit [DecidableEq α] in
theorem takeWhile_collapse (hnew : p new = true) {lines : List (List α)} :
    ((collapse p new false lines).takeWhile fun l => !p l) = lines.takeWhile fun l => !p l := by
  have hbefore : ∀ l ∈ lines.takeWhile fun l => !p l, (!p l) = true :=
    List.all_eq_true.mp List.all_takeWhile
  rw [collapse_false, List.takeWhile_append_of_pos hbefore,
    List.takeWhile_cons_of_neg (by simp [hnew]),
    List.append_nil]

omit [DecidableEq α] in
theorem collapse_collapse (hnew : p new = true) {lines : List (List α)} :
    collapse p new false (collapse p new false lines) = collapse p new false lines := by
  have hbefore : ∀ l ∈ lines.takeWhile fun l => !p l, (!p l) = true :=
    List.all_eq_true.mp List.all_takeWhile
  rw [collapse_false, takeWhile_collapse hnew, @collapse_false _ p new lines,
    List.dropWhile_append_of_pos hbefore, List.dropWhile_cons_of_neg (by simp [hnew]),
    List.filter_cons_of_neg (by simp [hnew]), List.filter_filter]
  simp

omit [DecidableEq α] in
/-- Two collapses whose matches are apart commute, where neither has to add its line at the end. -/
theorem collapse_comm {q : List α → Bool} {new' : List α} (hpq : ∀ l, p l = true → q l = false)
    (hnew : p new = true) (hnew' : q new' = true) : ∀ {lines : List (List α)} {x y : Bool},
      (x = true ∨ ∃ l ∈ lines, p l = true) → (y = true ∨ ∃ l ∈ lines, q l = true) →
      collapse p new x (collapse q new' y lines) = collapse q new' y (collapse p new x lines) := by
  have hqp : ∀ l, q l = true → p l = false := by
    intro l hl
    by_contra hp
    rw [hpq l (by simpa using hp)] at hl
    cases hl
  intro lines
  induction lines with
  | nil =>
    intro x y hx hy
    have hxt : x = true := by simpa using hx
    have hyt : y = true := by simpa using hy
    subst hxt
    subst hyt
    rfl
  | cons l lines ih =>
    intro x y hx hy
    by_cases hl : p l = true
    · have hlq : q l = false := hpq l hl
      have hy' : y = true ∨ ∃ l ∈ lines, q l = true := by simpa [hlq] using hy
      have hrest := @ih true y (.inl rfl) hy'
      cases x with
      | true => simpa [collapse, hl, hlq] using hrest
      | false => simpa [collapse, hl, hlq, hpq new hnew] using hrest
    · have hlp : p l = false := by simpa using hl
      have hx' : x = true ∨ ∃ l ∈ lines, p l = true := by simpa [hlp] using hx
      by_cases hm : q l = true
      · have hrest := @ih x true hx' (.inl rfl)
        cases y with
        | true => simpa [collapse, hlp, hm] using hrest
        | false => simpa [collapse, hlp, hm, hqp new' hnew'] using hrest
      · have hlq : q l = false := by simpa using hm
        have hy' : y = true ∨ ∃ l ∈ lines, q l = true := by simpa [hlq] using hy
        simpa [collapse, hlp, hlq] using @ih x y hx' hy'

/-- A line that replaced no match is written back as itself only if it has no break. -/
theorem flatMap_collapse {lines : List (List α)} (h : ∀ l ∈ lines, BreakFree B l) :
    ∀ {placed : Bool}, (collapse p new placed lines).flatMap (pieces B) =
      collapse p new placed lines ↔ (placed = false → BreakFree B new) := by
  induction lines with
  | nil =>
    intro placed
    cases placed with
    | true => simp [collapse]
    | false => simp [collapse, pieces_eq_singleton]
  | cons l lines ih =>
    obtain ⟨hl, hlines⟩ := List.forall_mem_cons.mp h
    intro placed
    have hrest : (collapse p new true lines).flatMap (pieces B) = collapse p new true lines :=
      (ih hlines).mpr fun hf => by cases hf
    unfold collapse
    by_cases hm : p l = true
    · cases placed with
      | true =>
        rw [if_pos hm, if_pos rfl]
        simp [hrest]
      | false =>
        rw [if_pos hm, if_neg Bool.false_ne_true, List.flatMap_cons, hrest]
        constructor
        · intro heq _
          rw [← List.singleton_append (x := new)] at heq
          exact pieces_eq_singleton.mp (List.append_cancel_right heq)
        · intro hfree
          rw [pieces_eq_singleton.mpr (hfree rfl)]
          rfl
    · rw [if_neg hm, List.flatMap_cons, pieces_eq_singleton.mpr hl, List.singleton_append,
        List.cons_inj_right]
      exact ih hlines

end

end Lines
