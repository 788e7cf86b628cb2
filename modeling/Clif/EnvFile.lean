import Clif.PyStr

/-!
# EnvFile — the line editor of `credentials.py`

`upsertEnvVar` works on the text of an env file.  On its lines it is `Lines.collapse`, except that a
value with a line break falls apart: `splitlines_upsert`.
-/

namespace Clif

open PyStr

/-- The name a line assigns: the `key` of `_is_assignment`. -/
def assignedName (line : PyStr) : Option PyStr :=
  let s := strip line
  if s.isEmpty || (py "#").isPrefixOf s || !s.contains 0x3D then none
  else
    let key := strip (s.takeWhile fun c => c != 0x3D)
    some (if (py "export ").isPrefixOf key then strip (key.drop 7) else key)

/-- `_is_assignment`. -/
def isAssignment (line name : PyStr) : Bool := assignedName line == some name

/-- What stands after the `=`. -/
def assignedValue (line : PyStr) : PyStr := (line.dropWhile fun c => c != 0x3D).tail

/-- The line that assigns `value`. -/
def assignment (name value : PyStr) : PyStr := name ++ 0x3D :: value

/-- `upsert_env_var`. -/
def upsertEnvVar (text name value : PyStr) : PyStr :=
  let out := Lines.collapse (fun line => isAssignment line name) (assignment name value) false
    (splitlines text)
  (py "\n").intercalate out ++ py "\n"

/-- The upserts of one import, in order. -/
def upsertAll (text : PyStr) (ws : List (PyStr × PyStr)) : PyStr :=
  ws.foldl (fun text w => upsertEnvVar text w.1 w.2) text

/-- The upserts of one name write one value. -/
def OneValue (ws : List (PyStr × PyStr)) : Prop := ∀ w ∈ ws, ∀ w' ∈ ws, w.1 = w'.1 → w.2 = w'.2

instance (ws : List (PyStr × PyStr)) : Decidable (OneValue ws) :=
  inferInstanceAs (Decidable (∀ w ∈ ws, ∀ w' ∈ ws, w.1 = w'.1 → w.2 = w'.2))

/-- The names that a text assigns. -/
def Assigns (text name : PyStr) : Prop := ∃ line ∈ splitlines text, assignedName line = some name

theorem isAssignment_iff {line name : PyStr} :
    isAssignment line name = true ↔ assignedName line = some name := by
  simp [isAssignment]

/-! ## The lines after an upsert -/

theorem intercalate_unlines {ls : List PyStr} (h : ls ≠ []) :
    (py "\n").intercalate ls ++ py "\n" = Lines.unlines lineBreaks ls := by
  induction ls with
  | nil => exact absurd rfl h
  | cons l ls ih =>
    cases ls with
    | nil => simp [List.intercalate, Lines.unlines, py, lineBreaks]
    | cons l' ls =>
      have hrest := ih (by simp)
      have hstep : (py "\n").intercalate (l :: l' :: ls) =
          l ++ py "\n" ++ (py "\n").intercalate (l' :: ls) := by
        simp [List.intercalate]
      rw [hstep, List.append_assoc, hrest]
      rfl

/-- The old lines, with the new one in place; a value with a line break falls apart. -/
theorem splitlines_upsert {text name value : PyStr} : splitlines (upsertEnvVar text name value) =
    (Lines.collapse (fun line => isAssignment line name) (assignment name value) false
      (splitlines text)).flatMap pieces := by
  have hne : Lines.collapse (fun line => isAssignment line name) (assignment name value) false
      (splitlines text) ≠ [] :=
    List.ne_nil_of_mem (Lines.mem_collapse.mpr (.inr ⟨rfl, rfl⟩))
  rw [upsertEnvVar, intercalate_unlines hne, splitlines, Lines.split_unlines]

theorem breakFree_of_mem {text line : PyStr} (h : line ∈ splitlines text) : BreakFree line :=
  Lines.breakFree_of_mem_split h

theorem mem_pieces_of_mem {text line l : PyStr} (h : l ∈ splitlines text) :
    line ∈ pieces l ↔ line = l := by
  rw [pieces, Lines.pieces_eq_singleton.mpr (breakFree_of_mem h), List.mem_singleton]

theorem mem_splitlines_upsert {text name value line : PyStr} :
    line ∈ splitlines (upsertEnvVar text name value) ↔
      (line ∈ splitlines text ∧ assignedName line ≠ some name) ∨
        line ∈ pieces (assignment name value) := by
  rw [splitlines_upsert, List.mem_flatMap]
  simp only [Lines.mem_collapse, isAssignment, beq_eq_false_iff_ne]
  constructor
  · rintro ⟨l, ⟨hl, hne⟩ | ⟨rfl, -⟩, hmem⟩
    · rw [mem_pieces_of_mem hl] at hmem
      exact .inl ⟨hmem ▸ hl, hmem ▸ hne⟩
    · exact .inr hmem
  · rintro (⟨hl, hne⟩ | hmem)
    · exact ⟨line, .inl ⟨hl, hne⟩, (mem_pieces_of_mem hl).mpr rfl⟩
    · exact ⟨_, .inr ⟨rfl, trivial⟩, hmem⟩

theorem upsertAll_snoc {text : PyStr} {ws : List (PyStr × PyStr)} {w : PyStr × PyStr} :
    upsertAll text (ws ++ [w]) = upsertEnvVar (upsertAll text ws) w.1 w.2 := by
  simp [upsertAll]

/-- The lines after an import: what is left of the old ones, and every piece of a written line
whose name no later upsert writes. -/
theorem mem_splitlines_upsertAll {text line : PyStr} {ws : List (PyStr × PyStr)} :
    line ∈ splitlines (upsertAll text ws) ↔
      (line ∈ splitlines text ∧ ∀ w ∈ ws, assignedName line ≠ some w.1) ∨
        ∃ pre w post, ws = pre ++ w :: post ∧ line ∈ pieces (assignment w.1 w.2) ∧
          ∀ w' ∈ post, assignedName line ≠ some w'.1 := by
  induction ws using List.reverseRecOn with
  | nil => simp [upsertAll]
  | append_singleton ws w ih =>
    rw [upsertAll_snoc, mem_splitlines_upsert, ih]
    constructor
    · rintro (⟨⟨hold, hws⟩ | ⟨pre, w', post, rfl, hmem, hpost⟩, hw⟩ | hmem)
      · refine .inl ⟨hold, fun w' hw' => ?_⟩
        rcases List.mem_append.mp hw' with hw' | hw'
        · exact hws w' hw'
        · rw [List.mem_singleton.mp hw']
          exact hw
      · refine .inr ⟨pre, w', post ++ [w], by simp, hmem, fun w'' hw'' => ?_⟩
        rcases List.mem_append.mp hw'' with hw'' | hw''
        · exact hpost w'' hw''
        · rw [List.mem_singleton.mp hw'']
          exact hw
      · exact .inr ⟨ws, w, [], rfl, hmem, by simp⟩
    · rintro (⟨hold, hws⟩ | ⟨pre, w', post, heq, hmem, hpost⟩)
      · exact .inl ⟨.inl ⟨hold, fun w' hw' => hws w' (List.mem_append_left _ hw')⟩,
          hws w (List.mem_append_right _ (List.mem_singleton_self _))⟩
      · rcases List.eq_nil_or_concat post with rfl | ⟨post', w'', rfl⟩
        · obtain ⟨-, hw⟩ := List.append_inj' heq rfl
          rw [(List.cons.inj hw).1]
          exact .inr hmem
        · rw [List.concat_eq_append, ← List.cons_append, ← List.append_assoc] at heq
          obtain ⟨rfl, hw⟩ := List.append_inj' heq rfl
          obtain ⟨rfl, -⟩ := List.cons.inj hw
          rw [List.concat_eq_append] at hpost
          refine .inl ⟨.inr ⟨pre, w', post', rfl, hmem, fun x hx => ?_⟩, ?_⟩
          · exact hpost x (List.mem_append_left _ hx)
          · exact hpost w (List.mem_append_right _ (List.mem_singleton_self _))

/-- Of the upserts of a name there is a last one. -/
theorem exists_last_upsert {ws : List (PyStr × PyStr)} {w : PyStr × PyStr} (h : w ∈ ws) :
    ∃ pre w' post, ws = pre ++ w' :: post ∧ w'.1 = w.1 ∧ ∀ x ∈ post, x.1 ≠ w.1 := by
  induction ws using List.reverseRecOn with
  | nil => cases h
  | append_singleton ws x ih =>
    by_cases hx : x.1 = w.1
    · exact ⟨ws, x, [], rfl, hx, fun y hy => by cases hy⟩
    · have hw : w ∈ ws := by
        rcases List.mem_append.mp h with hw | hw
        · exact hw
        · rw [List.mem_singleton.mp hw] at hx
          exact absurd rfl hx
      obtain ⟨pre, w', post, rfl, hname, hpost⟩ := ih hw
      refine ⟨pre, w', post ++ [x], by simp, hname, fun y hy => ?_⟩
      rcases List.mem_append.mp hy with hy | hy
      · exact hpost y hy
      · rw [List.mem_singleton.mp hy]
        exact hx

/-! ## Names -/

/-- A name of an env file: no space, no `=` and no comment. -/
structure PlainName (name : PyStr) : Prop where
  nonempty : name ≠ []
  comment : (py "#").isPrefixOf name = false
  plain : ∀ c ∈ name, isSpace c = false ∧ c ≠ 0x3D

theorem strip_assignment {name value : PyStr} (h : PlainName name) :
    strip (assignment name value) = assignment name (rstrip value) := by
  cases hn : name with
  | nil => exact absurd hn h.nonempty
  | cons c cs =>
    have hc : isSpace c = false := (h.plain c (by rw [hn]; exact List.mem_cons_self)).1
    rw [strip, assignment, List.cons_append, lstrip_cons hc, ← List.cons_append,
      rstrip_append_cons (by decide)]
    rfl

theorem takeWhile_assignment {name value : PyStr} (h : PlainName name) :
    (assignment name value).takeWhile (fun c => c != 0x3D) = name := by
  have hall : ∀ c ∈ name, (c != 0x3D) = true := fun c hc => by simpa using (h.plain c hc).2
  rw [assignment, List.takeWhile_append_of_pos hall]
  simp

theorem assignedValue_assignment {name value : PyStr} (h : PlainName name) :
    assignedValue (assignment name value) = value := by
  have hall : ∀ c ∈ name, (c != 0x3D) = true := fun c hc => by simpa using (h.plain c hc).2
  rw [assignedValue, assignment, List.dropWhile_append_of_pos hall]
  simp

/-- The assignment of a name assigns it, whatever the value. -/
theorem assignedName_assignment {name value : PyStr} (h : PlainName name) :
    assignedName (assignment name value) = some name := by
  have hempty : (assignment name (rstrip value)).isEmpty = false := by simp [assignment]
  have hcomment : (py "#").isPrefixOf (assignment name (rstrip value)) = false := by
    cases hn : name with
    | nil => exact absurd hn h.nonempty
    | cons c cs =>
      have hc := h.comment
      rw [hn] at hc
      simpa [py, assignment, List.isPrefixOf] using hc
  have hequals : (assignment name (rstrip value)).contains 0x3D = true := by simp [assignment]
  have hexport : (py "export ").isPrefixOf name = false := by
    by_contra hpre
    obtain ⟨t, ht⟩ : py "export " <+: name := by simpa using hpre
    have hspace : (0x20 : Nat) ∈ name := by
      rw [← ht]
      exact List.mem_append_left _ (by decide)
    exact absurd (h.plain _ hspace).1 (by decide)
  unfold assignedName
  simp only [strip_assignment h, takeWhile_assignment h,
    strip_of_forall fun c hc => (h.plain c hc).1, hempty, hcomment, hequals, hexport]
  rfl

end Clif
