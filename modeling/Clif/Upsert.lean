import Clif.ImportSafe

/-!
# Upsert — `upsert_env_var` as an update of a map

The names that a text assigns are the keys, the lines that assign a name its values.  An upsert
leaves one line for its name, and does nothing to the lines of another.
-/

namespace Clif

open PyStr

/-- A letter, a digit or an underscore of ASCII. -/
def isWordChar (c : Nat) : Bool :=
  decide (0x41 ≤ c ∧ c ≤ 0x5A) || decide (0x61 ≤ c ∧ c ≤ 0x7A) || decide (0x30 ≤ c ∧ c ≤ 0x39) ||
    c == 0x5F

/-- Nothing in the name is a space, an `=` or a `#`: so for letters, digits and underscores of any
script. -/
def WordName (name : PyStr) : Prop := ∀ c ∈ name, isSpace c = false ∧ c ≠ 0x3D ∧ c ≠ 0x23

theorem wordName_of_ascii {name : PyStr} (h : ∀ c ∈ name, isWordChar c = true) : WordName name := by
  intro c hc
  have hword := h c hc
  simp only [isWordChar, Bool.or_eq_true, decide_eq_true_eq, beq_iff_eq] at hword
  refine ⟨?_, by omega, by omega⟩
  by_contra hspace
  have hspace' : isSpace c = true := by simpa using hspace
  simp only [isSpace, Bool.or_eq_true, Bool.and_eq_true, decide_eq_true_eq, beq_iff_eq] at hspace'
  omega

section

variable {text name name' value value' : PyStr}

theorem WordName.plainName (h : WordName name) (hne : name ≠ []) : PlainName name where
  nonempty := hne
  comment := by
    cases name with
    | nil => exact absurd rfl hne
    | cons c cs =>
      have hc : c ≠ 0x23 := (h c List.mem_cons_self).2.2
      simpa [py, List.isPrefixOf] using Ne.symm hc
  plain := fun c hc => ⟨(h c hc).1, (h c hc).2.1⟩

theorem WordName.assignedName (h : WordName name) :
    assignedName (assignment name value) = some name := by
  by_cases hne : name = []
  · -- the line begins with the `=`
    subst hne
    have hstrip : strip (assignment [] value) = 0x3D :: rstrip value := by
      rw [strip, assignment, List.nil_append, lstrip_cons (by decide)]
      exact @rstrip_append_cons 0x3D [] value (by decide)
    unfold Clif.assignedName
    rw [hstrip]
    simp [py, List.isPrefixOf, strip, lstrip, rstrip]
  · exact assignedName_assignment (h.plainName hne)

theorem WordName.breakFree (h : WordName name) (hvalue : BreakFree value) :
    BreakFree (assignment name value) := by
  have hequals : lineBreaks.isBreak 0x3D = false := by decide
  rw [assignment, breakFree_append]
  refine ⟨fun c hc => ?_, List.forall_mem_cons.mpr ⟨hequals, hvalue⟩⟩
  show isLineBreak c = false
  by_contra hbreak
  have hspace := isSpace_of_isLineBreak (by simpa using hbreak)
  rw [(h c hc).1] at hspace
  cases hspace

theorem WordName.assignedValue (h : WordName name) :
    assignedValue (assignment name value) = value := by
  have hall : ∀ c ∈ name, (c != 0x3D) = true := fun c hc => by simpa using (h c hc).2.1
  rw [Clif.assignedValue, assignment, List.dropWhile_append_of_pos hall]
  simp

/-- The lines of an upsert, with nothing left to split. -/
theorem WordName.splitlines_upsert (h : WordName name) (hvalue : BreakFree value) :
    splitlines (upsertEnvVar text name value) =
      Lines.collapse (fun line => isAssignment line name) (assignment name value) false
        (splitlines text) := by
  rw [Clif.splitlines_upsert, Lines.flatMap_collapse fun line hline => breakFree_of_mem hline]
  exact fun _ => h.breakFree hvalue

theorem WordName.isAssignment (h : WordName name) :
    isAssignment (assignment name value) name = true := isAssignment_iff.mpr h.assignedName

/-- A line assigns one name. -/
theorem isAssignment_other {line : PyStr} (hne : name ≠ name')
    (h : isAssignment line name = true) : isAssignment line name' = false := by
  have hassign : assignedName line = some name := isAssignment_iff.mp h
  unfold isAssignment
  rw [hassign]
  simpa using hne

/-- `upsert_env_var` updates the map of the assignments. -/
theorem upsert_updates (hname : WordName name) (hvalue : BreakFree value) :
    let own := fun line => isAssignment line name
    let lines := splitlines text
    let after := splitlines (upsertEnvVar text name value)
    -- one line, with the value, where the first of the old ones stood or else at the end
    after.filter own = [assignment name value] ∧
    assignedValue (assignment name value) = value ∧
    after = (lines.takeWhile fun line => !own line) ++ assignment name value ::
      ((lines.dropWhile fun line => !own line).filter fun line => !own line) ∧
    -- the other lines, in their order
    (after.filter fun line => !own line) = (lines.filter fun line => !own line) ∧
    upsertEnvVar (upsertEnvVar text name value) name value = upsertEnvVar text name value ∧
    ∀ name', name ≠ name' →
      (after.filter fun line => isAssignment line name') =
        (lines.filter fun line => isAssignment line name') ∧
      ∀ value', WordName name' → BreakFree value' → Assigns text name → Assigns text name' →
        upsertEnvVar (upsertEnvVar text name value) name' value' =
          upsertEnvVar (upsertEnvVar text name' value') name value := by
  intro own lines after
  have hafter : after = Lines.collapse own (assignment name value) false lines :=
    hname.splitlines_upsert hvalue
  have hnew : own (assignment name value) = true := hname.isAssignment
  refine ⟨?_, hname.assignedValue, ?_, ?_, ?_, fun name' hne => ⟨?_, ?_⟩⟩
  · rw [hafter]
    exact Lines.filter_match_collapse hnew
  · rw [hafter]
    exact Lines.collapse_false
  · rw [hafter]
    exact Lines.filter_collapse (fun line hline => by simpa using hline) (by simp [hnew])
  · show upsertEnvVar (upsertEnvVar text name value) name value = _
    rw [upsertEnvVar, hname.splitlines_upsert hvalue, Lines.collapse_collapse hnew]
    rfl
  · rw [hafter]
    exact @Lines.filter_collapse _ own (assignment name value)
      (fun line => isAssignment line name') (fun line hline => isAssignment_other hne.symm hline)
      (isAssignment_other hne hnew) lines false
  · intro value' hname' hvalue' hold hold'
    have hmatch : ∃ line ∈ splitlines text, isAssignment line name = true := by
      obtain ⟨line, hline, hassign⟩ := hold
      exact ⟨line, hline, isAssignment_iff.mpr hassign⟩
    have hmatch' : ∃ line ∈ splitlines text, isAssignment line name' = true := by
      obtain ⟨line, hline, hassign⟩ := hold'
      exact ⟨line, hline, isAssignment_iff.mpr hassign⟩
    have hcomm := @Lines.collapse_comm _ (fun line => isAssignment line name')
      (assignment name' value') (fun line => isAssignment line name) (assignment name value)
      (fun line hline => isAssignment_other hne.symm hline) hname'.isAssignment hnew
      (splitlines text) false false (.inr hmatch') (.inr hmatch)
    rw [upsertEnvVar, hname.splitlines_upsert hvalue, hcomm, ← hname'.splitlines_upsert hvalue']
    rfl

/-- A duplicate, an exported and a commented assignment. -/
theorem upsert_updates_sample :
    let text := py "A=1\n# A=2\nB=3\nexport A=4"
    let after := splitlines (upsertEnvVar text (py "A") (py "5"))
    (after.filter fun line => isAssignment line (py "A")) = [assignment (py "A") (py "5")] ∧
    upsertEnvVar (upsertEnvVar text (py "A") (py "5")) (py "B") (py "6") =
      upsertEnvVar (upsertEnvVar text (py "B") (py "6")) (py "A") (py "5") := by
  have hA : WordName (py "A") := wordName_of_ascii (by decide)
  have hB : WordName (py "B") := wordName_of_ascii (by decide)
  obtain ⟨hone, -, -, -, -, hother⟩ := @upsert_updates (py "A=1\n# A=2\nB=3\nexport A=4") (py "A")
    (py "5") hA (by decide)
  obtain ⟨-, hcomm⟩ := hother (py "B") (by decide)
  exact ⟨hone, hcomm (py "6") hB (by decide) ⟨py "A=1", by decide, by decide⟩
    ⟨py "B=3", by decide, by decide⟩⟩

end

end Clif
