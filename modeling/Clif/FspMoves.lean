import Clif.FspAuto

/-!
# FspMoves — what the moves of `clif fsp auto` change

One lemma for each part of the state: the log, the watermark, what is pending and the cooldowns;
first for one move, then for the moves of a pass.
-/

namespace Clif

open Effect

/-! ## What a move changes -/

inductive FspVerdict where
  | ok
  | transient
  | terminal
deriving DecidableEq

/-- The outcome a line reports. -/
def FspLine.verdict : FspLine → Option ((MessageType × Int) × FspVerdict)
  | .ok mt epoch _ _ => some ((mt, epoch), .ok)
  | .transient mt epoch _ => some ((mt, epoch), .transient)
  | .terminal mt epoch _ => some ((mt, epoch), .terminal)
  | _ => none

/-- The epoch of a line after which the watermark moves. -/
def FspLine.moved : FspLine → Option Int
  | .ok _ epoch _ _ => some epoch
  | .terminal _ epoch _ => some epoch
  | _ => none

/-- The last epoch after which the watermark moved. -/
def movedTo (ls : List FspLine) : Option Int := (ls.filterMap FspLine.moved).getLast?

/-- The lines report a terminal outcome of the pair. -/
def TerminalIn (ls : List FspLine) (p : MessageType × Int) : Prop :=
  ∃ l ∈ ls, l.verdict = some (p, .terminal)

/-- The cooldown on record for the pair. -/
def FspAuto.coolsUntil (u : FspAuto) (net : Network) (p : MessageType × Int) : Option ℚ :=
  (u.auto.s (fspStreamKey net p.1)).cooldownUntil.get? p.2

/-- The stream counts the epoch of the pair as pending. -/
def FspAuto.Pending (u : FspAuto) (net : Network) (p : MessageType × Int) : Prop :=
  p.2 ∈ u.auto.active (fspStreamKey net p.1)

theorem fspStreamKey_ne {net : Network} {mt mt' : MessageType} (h : mt ≠ mt') :
    fspStreamKey net mt ≠ fspStreamKey net mt' := by
  cases net <;> cases mt <;> cases mt' <;> first | exact absurd rfl h | decide

/-- The lines of an outcome name its pair. -/
theorem FspMove.verdict_lines {m : FspMove} {l : FspLine} {p : MessageType × Int} {k : FspVerdict}
    (hl : l ∈ m.lines) (hv : l.verdict = some (p, k)) : ∃ o, m = .sign p.1 p.2 (.ok o) := by
  cases m with
  | observe mt => cases hl
  | skip mt epoch =>
    rw [List.mem_singleton.mp hl] at hv
    cases hv
  | sign mt epoch x =>
    cases x with
    | error x => cases hl
    | ok o =>
      refine ⟨o, ?_⟩
      change l ∈ outcomeLine mt epoch o at hl
      unfold outcomeLine at hl
      have hp : ((mt, epoch) : MessageType × Int) = p := by
        split at hl
        · rw [List.mem_singleton.mp hl] at hv
          exact congrArg Prod.fst (Option.some.inj hv)
        split at hl
        · rw [List.mem_singleton.mp hl] at hv
          exact congrArg Prod.fst (Option.some.inj hv)
        split at hl
        · rw [List.mem_singleton.mp hl] at hv
          exact congrArg Prod.fst (Option.some.inj hv)
        · cases hl
      rw [← hp]

/-- A move logs one line at most. -/
theorem FspMove.lines_of_mem {m : FspMove} {l : FspLine} (hl : l ∈ m.lines) : m.lines = [l] := by
  have hlen : m.lines.length ≤ 1 := by
    unfold lines outcomeLine
    split
    · exact le_rfl
    · split
      · exact le_rfl
      split
      · exact le_rfl
      split
      · exact le_rfl
      · exact Nat.zero_le _
    · exact Nat.zero_le _
  obtain ⟨l', hl'⟩ := List.length_eq_one_iff.mp (le_antisymm hlen (List.length_pos_of_mem hl))
  rw [hl'] at hl ⊢
  rw [List.mem_singleton.mp hl]

section

variable {net : Network} {now : ℚ} {cd : Int} {closed : List Int} {u u' : FspAuto} {m : FspMove}

theorem FspTurn.log (h : FspTurn net now cd closed u m u') : u'.log = u.log ++ m.lines := by
  cases h with
  | observe => exact (List.append_nil _).symm
  | skip => rfl
  | returned =>
    unfold FspAuto.record FspMove.lines FspMove.outcomeLine
    dsimp only
    split
    · rfl
    split
    · rfl
    split
    · rfl
    · exact (List.append_nil _).symm
  | raised => exact (List.append_nil _).symm

theorem FspTurn.mark (h : FspTurn net now cd closed u m u') :
    u'.watermark = (movedTo m.lines).elim u.watermark fun e => some (e + 1) := by
  cases h with
  | observe => rfl
  | skip => rfl
  | returned =>
    unfold FspAuto.record FspMove.lines FspMove.outcomeLine
    dsimp only
    split
    · rfl
    split
    · rfl
    split
    · rfl
    · rfl
  | raised => rfl

theorem FspTurn.pending (h : FspTurn net now cd closed u m u') (p : MessageType × Int) :
    u'.Pending net p ↔
      (m = .observe p.1 ∧ p.2 ∈ closed) ∨ (m ≠ .observe p.1 ∧ u.Pending net p) := by
  obtain ⟨mt, e⟩ := p
  cases h with
  | @observe mt' =>
    by_cases hmt : mt' = mt
    · subst hmt
      simp [FspAuto.Pending, FspAuto.observe, AutoState.mem_active_observe]
    · have hkey := @fspStreamKey_ne net _ _ hmt
      simp [FspAuto.Pending, FspAuto.observe, AutoState.active, AutoState.observe,
        AutoState.s_update_of_ne hkey, hmt]
  | skip => simp [FspAuto.Pending, FspAuto.skip, AutoState.active]
  | @returned mt' epoch o hin hwarm =>
    have hkeep : (u.record net now cd mt' epoch o).Pending net (mt, e) ↔
        u.Pending net (mt, e) := by
      unfold FspAuto.record
      dsimp only
      split
      · simp [FspAuto.Pending, AutoState.active]
      split
      · simp [FspAuto.Pending, AutoState.active]
      split
      · simp [FspAuto.Pending, AutoState.active]
      · simp [FspAuto.Pending, AutoState.active]
    simpa using hkeep
  | raised => simp

/-- The cooldown of a closed epoch changes with a terminal outcome only; no other is added. -/
theorem FspTurn.cooling (h : FspTurn net now cd closed u m u') (p : MessageType × Int) :
    (p.2 ∈ closed → ¬ TerminalIn m.lines p → u'.coolsUntil net p = u.coolsUntil net p) ∧
    (TerminalIn m.lines p → u'.coolsUntil net p = some (now + cd)) ∧
    ∀ v, u'.coolsUntil net p = some v → u.coolsUntil net p = some v ∨
      (TerminalIn m.lines p ∧ v = now + cd) := by
  obtain ⟨mt, e⟩ := p
  cases h with
  | @observe mt' =>
    have hobs := @AutoState.cooldown_observe u.auto (fspStreamKey net mt')
      (fspStreamKey net mt) now closed e
    refine ⟨fun he _ => hobs.1 he, ?_, fun v hv => .inl (hobs.2 v hv)⟩
    rintro ⟨l, hl, -⟩
    cases hl
  | @skip mt' epoch hin hcold =>
    have hkeep : (u.skip net now mt' epoch).coolsUntil net (mt, e) = u.coolsUntil net (mt, e) := by
      simp [FspAuto.coolsUntil, FspAuto.skip]
    refine ⟨fun _ _ => hkeep, ?_, fun v hv => .inl (hkeep ▸ hv)⟩
    rintro ⟨l, hl, hv⟩
    rw [List.mem_singleton.mp hl] at hv
    cases hv
  | @returned mt' epoch o hin hwarm =>
    by_cases hterm : o.ok = false ∧ o.status ≠ .failedRetryable ∧ o.status = .failedTerminal
    · obtain ⟨hok, hretry, hterm⟩ := hterm
      have hlines : (FspMove.sign mt' epoch (.ok o)).lines = [.terminal mt' epoch o.detail] := by
        simp [FspMove.lines, FspMove.outcomeLine, hok, hterm]
      have hiff : TerminalIn (FspMove.sign mt' epoch (.ok o)).lines (mt, e) ↔
          mt' = mt ∧ epoch = e := by
        rw [hlines]
        simp [TerminalIn, FspLine.verdict]
      have hcool : (u.record net now cd mt' epoch o).coolsUntil net (mt, e) =
          if mt' = mt ∧ epoch = e then some (now + cd) else u.coolsUntil net (mt, e) := by
        have hkey : fspStreamKey net mt' = fspStreamKey net mt ↔ mt' = mt :=
          ⟨fun hk => by_contra fun hne => fspStreamKey_ne hne hk, fun hk => by rw [hk]⟩
        simp [FspAuto.coolsUntil, FspAuto.record, hok, hterm, AutoState.cooldown_recordTerminal,
          hkey]
      rw [hiff, hcool]
      by_cases hp : mt' = mt ∧ epoch = e
      · simp [hp]
      · simp [hp]
    · have hlines : ¬ TerminalIn (FspMove.sign mt' epoch (.ok o)).lines (mt, e) := by
        rintro ⟨l, hl, hv⟩
        change l ∈ FspMove.outcomeLine mt' epoch o at hl
        unfold FspMove.outcomeLine at hl
        split at hl
        · rw [List.mem_singleton.mp hl] at hv
          cases hv
        split at hl
        · rw [List.mem_singleton.mp hl] at hv
          cases hv
        split at hl
        · rename_i hok hretry ht
          exact hterm ⟨by simpa using hok, hretry, ht⟩
        · cases hl
      have hkeep : (u.record net now cd mt' epoch o).coolsUntil net (mt, e) =
          u.coolsUntil net (mt, e) := by
        unfold FspAuto.record
        dsimp only
        split
        · simp [FspAuto.coolsUntil]
        split
        · simp [FspAuto.coolsUntil]
        split
        · rename_i hok hretry ht
          exact absurd ⟨by simpa using hok, hretry, ht⟩ hterm
        · simp [FspAuto.coolsUntil]
      exact ⟨fun _ _ => hkeep, fun ht => absurd ht hlines, fun v hv => .inl (hkeep ▸ hv)⟩
  | raised =>
    refine ⟨fun _ _ => rfl, ?_, fun v hv => .inl hv⟩
    rintro ⟨l, hl, -⟩
    cases hl

/-! ## What the moves of a pass change -/

theorem movedTo_append {ls ls' : List FspLine} {w : Option Int} :
    (movedTo (ls ++ ls')).elim w (fun e => some (e + 1)) =
      (movedTo ls').elim ((movedTo ls).elim w fun e => some (e + 1)) fun e => some (e + 1) := by
  unfold movedTo
  rw [List.filterMap_append, List.getLast?_append]
  cases (ls'.filterMap FspLine.moved).getLast? with
  | none => rfl
  | some e => rfl

variable {ms : List FspMove}

theorem fspMoves_log (h : Run (FspTurn net now cd closed) u ms u') :
    u'.log = u.log ++ ms.flatMap FspMove.lines := by
  refine Run.invariant (fun ms u' => u'.log = u.log ++ ms.flatMap FspMove.lines) (by simp) ?_ h
  intro ms u₁ m u₂ _ hi ht
  rw [ht.log, hi]
  simp

theorem fspMoves_mark (h : Run (FspTurn net now cd closed) u ms u') : u'.watermark =
    (movedTo (ms.flatMap FspMove.lines)).elim u.watermark fun e => some (e + 1) := by
  refine Run.invariant (fun ms u' => u'.watermark =
    (movedTo (ms.flatMap FspMove.lines)).elim u.watermark fun e => some (e + 1)) rfl ?_ h
  intro ms u₁ m u₂ _ hi ht
  rw [ht.mark, hi, List.flatMap_append, movedTo_append]
  simp

theorem fspMoves_pending (h : Run (FspTurn net now cd closed) u ms u') (p : MessageType × Int) :
    u'.Pending net p ↔
      (.observe p.1 ∈ ms ∧ p.2 ∈ closed) ∨ (.observe p.1 ∉ ms ∧ u.Pending net p) := by
  refine Run.invariant (fun ms u' => u'.Pending net p ↔
    (.observe p.1 ∈ ms ∧ p.2 ∈ closed) ∨ (.observe p.1 ∉ ms ∧ u.Pending net p)) (by simp) ?_ h
  intro ms u₁ m u₂ _ hi ht
  rw [ht.pending p, hi]
  by_cases hm : m = .observe p.1
  · simp [hm]
  · have hm' : FspMove.observe p.1 ≠ m := fun heq => hm heq.symm
    simp [hm, hm']

theorem terminalIn_append {ls ls' : List FspLine} {p : MessageType × Int} :
    TerminalIn (ls ++ ls') p ↔ TerminalIn ls p ∨ TerminalIn ls' p := by
  simp only [TerminalIn, List.mem_append, or_and_right, exists_or]

theorem fspMoves_cooling (h : Run (FspTurn net now cd closed) u ms u') (p : MessageType × Int) :
    (p.2 ∈ closed → ¬ TerminalIn (ms.flatMap FspMove.lines) p →
      u'.coolsUntil net p = u.coolsUntil net p) ∧
    (p.2 ∈ closed → TerminalIn (ms.flatMap FspMove.lines) p →
      u'.coolsUntil net p = some (now + cd)) ∧
    ∀ v, u'.coolsUntil net p = some v → u.coolsUntil net p = some v ∨
      (TerminalIn (ms.flatMap FspMove.lines) p ∧ v = now + cd) := by
  refine Run.invariant (fun ms u' => (p.2 ∈ closed → ¬ TerminalIn (ms.flatMap FspMove.lines) p →
      u'.coolsUntil net p = u.coolsUntil net p) ∧
    (p.2 ∈ closed → TerminalIn (ms.flatMap FspMove.lines) p →
      u'.coolsUntil net p = some (now + cd)) ∧
    ∀ v, u'.coolsUntil net p = some v → u.coolsUntil net p = some v ∨
      (TerminalIn (ms.flatMap FspMove.lines) p ∧ v = now + cd)) ?_ ?_ h
  · refine ⟨fun _ _ => rfl, ?_, fun v hv => .inl hv⟩
    rintro - ⟨l, hl, -⟩
    cases hl
  intro ms u₁ m u₂ _ ⟨hkept, hset, hsub⟩ ht
  have hlines : (ms ++ [m]).flatMap FspMove.lines = ms.flatMap FspMove.lines ++ m.lines := by simp
  obtain ⟨hkeep, hput, hadd⟩ := ht.cooling p
  rw [hlines]
  simp only [terminalIn_append, not_or]
  refine ⟨?_, ?_, ?_⟩
  · rintro hin ⟨hms, hm⟩
    rw [hkeep hin hm, hkept hin hms]
  · rintro hin hor
    by_cases hm : TerminalIn m.lines p
    · exact hput hm
    · rw [hkeep hin hm, hset hin (hor.resolve_right hm)]
  · intro v hv
    rcases hadd v hv with hold | ⟨hm, rfl⟩
    · rcases hsub v hold with hold' | ⟨hms, rfl⟩
      · exact .inl hold'
      · exact .inr ⟨.inl hms, rfl⟩
    · exact .inr ⟨.inr hm, rfl⟩

/-- Only a signer's outcome of the pair is reported for it. -/
theorem terminalIn_signed {p : MessageType × Int} (h : TerminalIn (ms.flatMap FspMove.lines) p) :
    ∃ o, .sign p.1 p.2 (.ok o) ∈ ms := by
  obtain ⟨l, hl, hv⟩ := h
  obtain ⟨m, hm, hlm⟩ := List.mem_flatMap.mp hl
  obtain ⟨o, rfl⟩ := FspMove.verdict_lines hlm hv
  exact ⟨o, hm⟩

theorem mem_attempted {p : MessageType × Int} :
    p ∈ ms.filterMap FspMove.attempted ↔ ∃ x, .sign p.1 p.2 x ∈ ms := by
  rw [List.mem_filterMap]
  constructor
  · rintro ⟨m, hm, hp⟩
    cases m with
    | sign mt epoch x =>
      cases hp
      exact ⟨x, hm⟩
    | observe mt => cases hp
    | skip mt epoch => cases hp
  · rintro ⟨x, hx⟩
    exact ⟨_, hx, rfl⟩

/-- Only closed epochs are signed for. -/
theorem fspMoves_closed (h : Run (FspTurn net now cd closed) u ms u') {p : MessageType × Int}
    {x : Except Exc FspOutcome} (hx : .sign p.1 p.2 x ∈ ms) : p.2 ∈ closed := by
  obtain ⟨ms₁, ms₂, u₁, u₂, -, -, ht⟩ := h.split hx
  cases ht with
  | returned hin hwarm => exact hin
  | raised hin hwarm => exact hin

/-- A closed epoch whose cooldown is on is not signed for. -/
theorem fspMoves_quiet (h : Run (FspTurn net now cd closed) u ms u') {p : MessageType × Int} {v : ℚ}
    (hin : p.2 ∈ closed) (hcool : u.coolsUntil net p = some v) (hv : now < v) :
    p ∉ ms.filterMap FspMove.attempted := by
  refine (Run.invariant (fun ms u' => p ∉ ms.filterMap FspMove.attempted ∧
    u'.coolsUntil net p = some v) ⟨by simp, hcool⟩ ?_ h).1
  intro ms u₁ m u₂ _ ⟨hno, hv₁⟩ ht
  have hm : ∀ x, m ≠ .sign p.1 p.2 x := by
    rintro x rfl
    have hcold : u₁.auto.inCooldown (fspStreamKey net p.1) p.2 now = true := by
      change decide (now < (u₁.coolsUntil net p).getD 0) = true
      rw [hv₁]
      exact decide_eq_true hv
    cases ht with
    | returned _ hwarm => rw [hcold] at hwarm; cases hwarm
    | raised _ hwarm => rw [hcold] at hwarm; cases hwarm
  refine ⟨?_, ?_⟩
  · rw [mem_attempted] at hno ⊢
    rintro ⟨x, hx⟩
    rcases List.mem_append.mp hx with hx | hx
    · exact hno ⟨x, hx⟩
    · exact hm x (List.mem_singleton.mp hx).symm
  · rw [(ht.cooling p).1 hin, hv₁]
    rintro ⟨l, hl, hverd⟩
    obtain ⟨o, ho⟩ := FspMove.verdict_lines hl hverd
    exact hm _ ho

/-- A closed epoch that was skipped was in cooldown before, or was signed for before. -/
theorem fspMoves_skipped (h : Run (FspTurn net now cd closed) u ms u') {p : MessageType × Int}
    (hskip : .skip p.1 p.2 ∈ ms) (hnow : 0 ≤ now) :
    (∃ v, u.coolsUntil net p = some v ∧ now < v) ∨ p ∈ ms.filterMap FspMove.attempted := by
  obtain ⟨ms₁, ms₂, u₁, u₂, rfl, h₁, ht⟩ := h.split hskip
  have hcold : now < (u₁.coolsUntil net p).getD 0 := by
    cases ht with
    | skip hin hcold => exact of_decide_eq_true hcold
  cases hget : u₁.coolsUntil net p with
  | none =>
    rw [hget] at hcold
    exact absurd hcold (not_lt.mpr hnow)
  | some v =>
    rw [hget] at hcold
    rcases (fspMoves_cooling h₁ p).2.2 v hget with hold | ⟨hterm, -⟩
    · exact .inl ⟨v, hold, hcold⟩
    · obtain ⟨o, ho⟩ := terminalIn_signed hterm
      exact .inr (mem_attempted.mpr ⟨_, List.mem_append_left _ ho⟩)

end

end Clif
