import Mathlib.Algebra.Order.Ring.Int
import Clif.Rpc

/-!
# Observe.BlockSearch — `_find_block_for_ts` of `observe/reward_rule.py`

A binary search over the blocks of a node that no longer serves the oldest ones: what is not found
counts as too low.
-/

namespace Clif.Observe

open Effect

/-! ## The search -/

/-- The tries of `_block_ts_retry` that are left; `last` is what the one before raised. -/
def retryFrom (block : Int) : Nat → Option Exc → Py Int
  | 0, last => throw (last.getD (.other "TypeError" "exceptions must derive from BaseException"))
  | tries + 1, _ => do
    match ← attempt (blockTimestamp block) with
    | .ok ts => return ts
    | .error (.rpcError msg) => retryFrom block tries (some (.rpcError msg))
    | .error exc => throw exc

/-- `_block_ts_retry`. -/
def blockTsRetry (block : Int) : Py Int := retryFrom block 4 none

/-- The loop of `_find_block_for_ts`. -/
def searchLoop (targetTs lo hi : Int) : Py Int :=
  if lo < hi then do
    match ← attempt (blockTsRetry ((lo + hi) / 2)) with
    | .ok ts =>
      if ts < targetTs then searchLoop targetTs ((lo + hi) / 2 + 1) hi
      else searchLoop targetTs lo ((lo + hi) / 2)
    | .error (.rpcError msg) =>
      -- pruned, so older than the target
      if Py.isIn "not found" msg then searchLoop targetTs ((lo + hi) / 2 + 1) hi
      else throw (.rpcError msg)
    | .error exc => throw exc
  else return lo
termination_by (hi - lo).toNat
decreasing_by all_goals omega

/-- `_find_block_for_ts`. -/
def findBlockForTs (targetTs : Int) : Py Int := do
  let hi ← rpc .blockNumber
  searchLoop targetTs 1 hi

/-! ## The first place -/

/-- `b` is the first place from `lo` on that satisfies `P`; it is `hi` if there is none below. -/
structure IsFirst (P : Int → Prop) (lo hi b : Int) : Prop where
  lower : lo ≤ b
  upper : b ≤ hi
  before : ∀ x, lo ≤ x → x < b → ¬ P x
  here : b < hi → P b

section

variable {P : Int → Prop} {lo hi mid b : Int}

theorem isFirst_self : IsFirst P lo lo lo :=
  ⟨le_rfl, le_rfl, fun _ hx hlt => absurd hx (not_le.mpr hlt), fun h => absurd h (lt_irrefl lo)⟩

/-- The search goes on above `mid`. -/
theorem IsFirst.above (h : IsFirst P (mid + 1) hi b) (hmid : lo ≤ mid)
    (hnot : ∀ x, lo ≤ x → x ≤ mid → ¬ P x) : IsFirst P lo hi b where
  lower := by
    have := h.lower
    omega
  upper := h.upper
  before x hx hlt := by
    by_cases hle : x ≤ mid
    · exact hnot x hx hle
    · exact h.before x (by omega) hlt
  here := h.here

/-- The search goes on below `mid`. -/
theorem IsFirst.below (h : IsFirst P lo mid b) (hmid : mid ≤ hi) (hP : P mid) :
    IsFirst P lo hi b where
  lower := h.lower
  upper := h.upper.trans hmid
  before := h.before
  here _ := by
    rcases lt_or_eq_of_le h.upper with hlt | heq
    · exact h.here hlt
    · rw [heq]
      exact hP

end

/-! ## The node -/

/-- What `block_timestamp` makes of an answer. -/
def blockOutcome (block : Int) (a : Reply (Option Int)) : Except Exc Int :=
  match rpcResult (RpcOp.blockTimestamp block).method a with
  | .ok (some ts) => .ok ts
  | .ok none => .error (.rpcError s!"block {block} not found")
  | .error exc => .error exc

/-- The exchange was a try at this block, and failed. -/
def FailedOn (block : Int) (e : Event sig) : Prop :=
  ∃ a msg, e = ⟨.rpc (.blockTimestamp block), a⟩ ∧ blockOutcome block a = .error (.rpcError msg)

/-- A node of height `height` that serves the blocks from `floor` on.  It may fail, but not four
times in a row on a block that it serves. -/
structure PrunedNode (height floor : Int) (ts : Int → Int) (t : Trace) : Prop where
  head : ∀ a, ⟨.rpc .blockNumber, a⟩ ∈ t → a = .result height
  pruned : ∀ b a, ⟨.rpc (.blockTimestamp b), a⟩ ∈ t → b < floor →
    ∃ msg, blockOutcome b a = .error (.rpcError msg) ∧ Py.isIn "not found" msg = true
  served : ∀ b a, ⟨.rpc (.blockTimestamp b), a⟩ ∈ t → floor ≤ b →
    blockOutcome b a = .ok (ts b) ∨ ∃ msg, blockOutcome b a = .error (.rpcError msg)
  transient : ∀ b, floor ≤ b → ∀ es, es <:+: t → es.length = 4 → ∃ e ∈ es, ¬ FailedOn b e

section

variable {height floor : Int} {ts : Int → Int} {t t' : Trace}

theorem PrunedNode.infix (h : PrunedNode height floor ts t) (ht : t' <:+: t) :
    PrunedNode height floor ts t' where
  head a ha := h.head a (ht.mem ha)
  pruned b a ha := h.pruned b a (ht.mem ha)
  served b a ha := h.served b a (ht.mem ha)
  transient b hb es hes := h.transient b hb es (hes.trans ht)

theorem PrunedNode.left {u : Trace} (h : PrunedNode height floor ts (t ++ u)) :
    PrunedNode height floor ts t := h.infix (List.prefix_append t u).isInfix

theorem PrunedNode.right {u : Trace} (h : PrunedNode height floor ts (t ++ u)) :
    PrunedNode height floor ts u := h.infix (List.suffix_append t u).isInfix

theorem runs_blockTimestamp {block : Int} {r : Except Exc Int}
    (h : Runs (blockTimestamp block) t r) :
    ∃ a, t = [⟨.rpc (.blockTimestamp block), a⟩] ∧ r = blockOutcome block a := by
  unfold blockTimestamp at h
  obtain ⟨a, t', rfl, hr⟩ := runs_rpc_bind.mp h
  refine ⟨a, ?_⟩
  unfold blockOutcome
  rcases hr with ⟨x, hx, h'⟩ | ⟨e, he, rfl, rfl⟩
  · rw [hx]
    cases x with
    | none =>
      obtain ⟨rfl, rfl⟩ := h'
      exact ⟨rfl, rfl⟩
    | some ts =>
      obtain ⟨rfl, rfl⟩ := h'
      exact ⟨rfl, rfl⟩
  · rw [he]
    exact ⟨rfl, rfl⟩

/-- The text of a missing block says so. -/
theorem notFound_isIn (b : Int) : Py.isIn "not found" s!"block {b} not found" = true := by
  have htext : (s!"block {b} not found").toList =
      ("block " ++ toString b).toList ++ ([' '] ++ "not found".toList) := String.toList_append
  exact decide_eq_true ⟨("block " ++ toString b).toList ++ [' '], [], by
    rw [List.append_nil, htext, List.append_assoc]⟩

/-- A probe ends with an answer, or every try of it failed. -/
theorem runs_retryFrom {block : Int} : ∀ {tries : Nat} {last : Option Exc} {t : Trace}
    {r : Except Exc Int}, Runs (retryFrom block tries last) t r →
    (∀ a, ⟨.rpc (.blockTimestamp block), a⟩ ∈ t →
      (∃ ts, blockOutcome block a = .ok ts) ∨
        ∃ msg, blockOutcome block a = .error (.rpcError msg)) →
    t.length ≤ tries ∧
      ((∃ a ts, ⟨.rpc (.blockTimestamp block), a⟩ ∈ t ∧ blockOutcome block a = .ok ts ∧ r = .ok ts) ∨
        (t.length = tries ∧ (∀ e ∈ t, FailedOn block e) ∧
          (t = [] ∨ ∃ a msg, ⟨.rpc (.blockTimestamp block), a⟩ ∈ t ∧
            blockOutcome block a = .error (.rpcError msg) ∧ r = .error (.rpcError msg))))
  | 0, last, t, r, h, _ => by
    obtain ⟨rfl, -⟩ := runs_throw.mp h
    exact ⟨le_rfl, .inr ⟨rfl, by simp, .inl rfl⟩⟩
  | tries + 1, last, t, r, h, hans => by
    unfold retryFrom at h
    obtain ⟨x, t₁, t₂, rfl, h₁, h₂⟩ := runs_attempt_bind.mp h
    obtain ⟨a, rfl, rfl⟩ := runs_blockTimestamp h₁
    have hmem : (⟨.rpc (.blockTimestamp block), a⟩ : Event sig) ∈
        [⟨.rpc (.blockTimestamp block), a⟩] ++ t₂ := by simp
    rcases hans a hmem with ⟨ts, hts⟩ | ⟨msg, hmsg⟩
    · rw [hts] at h₂
      obtain ⟨rfl, rfl⟩ := runs_pure.mp h₂
      exact ⟨by simp, .inl ⟨a, ts, hmem, hts, rfl⟩⟩
    · rw [hmsg] at h₂
      obtain ⟨hlen, hcases⟩ := runs_retryFrom h₂ fun a' ha' =>
        hans a' (List.mem_append_right _ ha')
      rw [List.length_append, List.length_singleton]
      refine ⟨by omega, ?_⟩
      rcases hcases with ⟨a', ts, ha', hts, rfl⟩ | ⟨hlen', hall, hlast⟩
      · exact .inl ⟨a', ts, List.mem_append_right _ ha', hts, rfl⟩
      · refine .inr ⟨by omega, fun e he => ?_, .inr ?_⟩
        · rcases List.mem_append.mp he with he | he
          · rw [List.mem_singleton.mp he]
            exact ⟨a, msg, rfl, hmsg⟩
          · exact hall e he
        · rcases hlast with rfl | ⟨a', msg', ha', hmsg', rfl⟩
          · -- it was the last try
            cases tries with
            | zero =>
              obtain ⟨-, rfl⟩ := runs_throw.mp h₂
              exact ⟨a, msg, hmem, hmsg, rfl⟩
            | succ tries => cases hlen'
          · exact ⟨a', msg', List.mem_append_right _ ha', hmsg', rfl⟩

/-- What a probe finds: a block that is served has its timestamp, and no other is found. -/
theorem PrunedNode.probe (hnode : PrunedNode height floor ts t) {block : Int} {r : Except Exc Int}
    (h : Runs (blockTsRetry block) t r) : t.length ≤ 4 ∧
      ((floor ≤ block ∧ r = .ok (ts block)) ∨
        (block < floor ∧ ∃ msg, r = .error (.rpcError msg) ∧ Py.isIn "not found" msg = true)) := by
  have hans : ∀ a, ⟨.rpc (.blockTimestamp block), a⟩ ∈ t → (∃ ts, blockOutcome block a = .ok ts) ∨
      ∃ msg, blockOutcome block a = .error (.rpcError msg) := by
    intro a ha
    by_cases hfloor : floor ≤ block
    · rcases hnode.served block a ha hfloor with hok | herr
      · exact .inl ⟨_, hok⟩
      · exact .inr herr
    · obtain ⟨msg, hmsg, -⟩ := hnode.pruned block a ha (not_le.mp hfloor)
      exact .inr ⟨msg, hmsg⟩
  obtain ⟨hlen, hcases⟩ := runs_retryFrom h hans
  refine ⟨hlen, ?_⟩
  by_cases hfloor : floor ≤ block
  · refine .inl ⟨hfloor, ?_⟩
    rcases hcases with ⟨a, x, ha, hx, rfl⟩ | ⟨hfour, hall, -⟩
    · rcases hnode.served block a ha hfloor with hok | ⟨msg, hmsg⟩
      · rw [hx] at hok
        exact hok
      · rw [hx] at hmsg
        cases hmsg
    · obtain ⟨e, he, hnot⟩ := hnode.transient block hfloor t List.infix_rfl hfour
      exact absurd (hall e he) hnot
  · refine .inr ⟨not_le.mp hfloor, ?_⟩
    rcases hcases with ⟨a, x, ha, hx, -⟩ | ⟨hfour, -, hlast⟩
    · obtain ⟨msg, hmsg, -⟩ := hnode.pruned block a ha (not_le.mp hfloor)
      rw [hx] at hmsg
      cases hmsg
    · rcases hlast with rfl | ⟨a, msg, ha, hmsg, rfl⟩
      · cases hfour
      · obtain ⟨msg', hmsg', hin⟩ := hnode.pruned block a ha (not_le.mp hfloor)
        rw [hmsg] at hmsg'
        cases hmsg'
        exact ⟨msg, rfl, hin⟩

/-! ## The loop -/

/-- The loop halves the interval with each probe; below `lo` it has seen that no block will do. -/
theorem PrunedNode.search {target : Int}
    (hmono : ∀ b b', 1 ≤ b → b ≤ b' → b' ≤ height → ts b ≤ ts b') :
    ∀ {k : Nat} {lo hi : Int} {t : Trace} {r : Except Exc Int}, hi - lo < 2 ^ k → 1 ≤ lo → lo ≤ hi →
      hi ≤ height → Runs (searchLoop target lo hi) t r → PrunedNode height floor ts t →
      t.length ≤ 4 * k ∧
        ∃ b, r = .ok b ∧ IsFirst (fun b => floor ≤ b ∧ target ≤ ts b) lo hi b := by
  intro k
  induction k with
  | zero =>
    intro lo hi t r hk hlo hle hhi h hnode
    have heq : lo = hi := by omega
    subst heq
    unfold searchLoop at h
    rw [if_neg (lt_irrefl lo)] at h
    obtain ⟨rfl, rfl⟩ := runs_pure.mp h
    exact ⟨le_rfl, lo, rfl, isFirst_self⟩
  | succ k ih =>
    intro lo hi t r hk hlo hle hhi h hnode
    rw [pow_succ] at hk
    unfold searchLoop at h
    by_cases hlt : lo < hi
    · rw [if_pos hlt] at h
      obtain ⟨x, t₁, t₂, rfl, h₁, h₂⟩ := runs_attempt_bind.mp h
      obtain ⟨hlen₁, hprobe⟩ := hnode.left.probe h₁
      rcases hprobe with ⟨hfloor, rfl⟩ | ⟨hfloor, msg, rfl, hin⟩
      · by_cases hts : ts ((lo + hi) / 2) < target
        · simp only [hts, if_true] at h₂
          obtain ⟨hlen₂, b, rfl, hfirst⟩ := ih (by omega) (by omega) (by omega) hhi h₂ hnode.right
          refine ⟨by rw [List.length_append]; omega, b, rfl, hfirst.above (by omega) ?_⟩
          rintro x hx hxmid ⟨-, htarget⟩
          have := hmono x ((lo + hi) / 2) (by omega) hxmid (by omega)
          omega
        · simp only [hts, if_false] at h₂
          obtain ⟨hlen₂, b, rfl, hfirst⟩ := ih (by omega) hlo (by omega) (by omega) h₂ hnode.right
          exact ⟨by rw [List.length_append]; omega, b, rfl,
            hfirst.below (by omega) ⟨hfloor, not_lt.mp hts⟩⟩
      · simp only [hin, if_true] at h₂
        obtain ⟨hlen₂, b, rfl, hfirst⟩ := ih (by omega) (by omega) (by omega) hhi h₂ hnode.right
        refine ⟨by rw [List.length_append]; omega, b, rfl, hfirst.above (by omega) ?_⟩
        rintro x hx hxmid ⟨hxfloor, -⟩
        omega
    · rw [if_neg hlt] at h
      obtain ⟨rfl, rfl⟩ := runs_pure.mp h
      have heq : lo = hi := by omega
      subst heq
      exact ⟨by simp, lo, rfl, isFirst_self⟩

end

/-- The search ends, with at most four exchanges for each bit of the height, and finds the first
block that is served and not before the target. -/
theorem findBlockForTs_spec {height floor : Int} {ts : Int → Int} (hheight : 1 ≤ height)
    (hmono : ∀ b b', 1 ≤ b → b ≤ b' → b' ≤ height → ts b ≤ ts b') (target : Int)
    (env : Nat → (op : Op) → op.Ans)
    (hnode : PrunedNode height floor ts (execFrom env (findBlockForTs target) 0).1) :
    let run := execFrom env (findBlockForTs target) 0
    (∀ k : Nat, height - 1 < 2 ^ k → run.1.length ≤ 4 * k + 1) ∧
    ∃ b, run.2 = .ok b ∧
      ((max 1 floor ≤ b ∧ b < height ∧ target ≤ ts b ∧
          ∀ b', max 1 floor ≤ b' → b' < b → ts b' < target) ∨
        (b = height ∧ ∀ b', max 1 floor ≤ b' → b' < height → ts b' < target)) := by
  intro run
  have hrun : Runs (findBlockForTs target) run.1 run.2 := @execFrom_runs sig Exc Int env _ 0
  unfold findBlockForTs at hrun
  obtain ⟨a, t', ht, hr⟩ := runs_rpc_bind.mp hrun
  have ha : a = .result height :=
    hnode.head a (by rw [show _ = _ from ht]; exact List.mem_cons_self)
  subst ha
  have hnode' : PrunedNode height floor ts t' := hnode.infix ⟨[_], [], by simpa using ht.symm⟩
  rcases hr with ⟨x, hx, hloop⟩ | ⟨e, he, -, -⟩
  swap
  · cases he
  cases hx
  have hsearch := fun k hk => @PrunedNode.search height floor ts target hmono k 1 height t' run.2 hk
    le_rfl hheight le_rfl hloop hnode'
  constructor
  · intro k hk
    obtain ⟨hlen, -⟩ := hsearch k hk
    rw [ht, List.length_cons]
    omega
  · obtain ⟨k, hk⟩ : ∃ k : Nat, height - 1 < 2 ^ k :=
      ⟨height.toNat, by
        have := @Nat.lt_two_pow_self height.toNat
        have hcast : ((2 ^ height.toNat : Nat) : Int) = 2 ^ height.toNat := by push_cast; rfl
        omega⟩
    obtain ⟨-, b, hb, hfirst⟩ := hsearch k hk
    refine ⟨b, hb, ?_⟩
    rcases lt_or_eq_of_le hfirst.upper with hlt | heq
    · obtain ⟨hfl, htarget⟩ := hfirst.here hlt
      refine .inl ⟨max_le hfirst.lower hfl, hlt, htarget, fun b' hb' hlt' => ?_⟩
      by_contra hnot
      exact hfirst.before b' (le_of_max_le_left hb') hlt' ⟨le_of_max_le_right hb', not_lt.mp hnot⟩
    · refine .inr ⟨heq, fun b' hb' hlt' => ?_⟩
      by_contra hnot
      exact hfirst.before b' (le_of_max_le_left hb') (by omega)
        ⟨le_of_max_le_right hb', not_lt.mp hnot⟩

/-- A node of height 10 that serves the blocks from 4 on, one every ten seconds. -/
def tenBlocks : (op : Op) → op.Ans
  | .rpc .blockNumber => .result 10
  | .rpc (.blockTimestamp b) => .result (if b < 4 then none else some (10 * b))
  | op => deafWorld op

theorem tenBlocks_pruned (target : Int) : PrunedNode 10 4 (fun b => 10 * b)
    (execFrom (fun _ => tenBlocks) (findBlockForTs target) 0).1 := by
  have hans := Prog.execFrom_answers (S := sig) (fun _ => tenBlocks)
    (ExceptT.run (findBlockForTs target)) 0
  have hserved : ∀ b : Int, 4 ≤ b →
      blockOutcome b (tenBlocks (.rpc (.blockTimestamp b))) = .ok (10 * b) := by
    intro b hb
    have hanswer : tenBlocks (.rpc (.blockTimestamp b)) = .result (some (10 * b)) := by
      simp [tenBlocks, not_lt.mpr hb]
    rw [hanswer]
    rfl
  refine ⟨fun a ha => ?_, fun b a ha hb => ?_, fun b a ha hb => ?_, fun b hb es hes hlen => ?_⟩
  · obtain ⟨-, ha'⟩ := hans _ ha
    exact ha'
  · obtain ⟨-, ha'⟩ := hans _ ha
    have hanswer : a = .result none := by
      rw [show a = _ from ha']
      simp [tenBlocks, hb]
    rw [hanswer]
    exact ⟨_, rfl, notFound_isIn b⟩
  · obtain ⟨-, ha'⟩ := hans _ ha
    rw [show a = _ from ha']
    exact .inl (hserved b hb)
  · obtain ⟨e, he⟩ := List.exists_mem_of_length_pos (by omega : 0 < es.length)
    refine ⟨e, he, ?_⟩
    rintro ⟨a, msg, rfl, hmsg⟩
    obtain ⟨-, ha'⟩ := hans _ (hes.mem he)
    rw [show a = _ from ha', hserved b hb] at hmsg
    cases hmsg

/-- The first block at 65 seconds or later. -/
theorem tenBlocks_search :
    (execFrom (fun _ => tenBlocks) (findBlockForTs 65) 0).2 = .ok 7 := by
  obtain ⟨-, b, hb, hfirst⟩ := @findBlockForTs_spec 10 4 (fun b => 10 * b) (by decide)
    (fun b b' _ hle _ => by omega) 65 (fun _ => tenBlocks) (tenBlocks_pruned 65)
  have hseven : b = 7 := by
    rcases hfirst with ⟨-, -, htarget, hbefore⟩ | ⟨-, hbefore⟩
    · by_contra hne
      have := hbefore 7 (by decide) (by omega)
      omega
    · have := hbefore 7 (by decide) (by decide)
      omega
  rw [hb, hseven]

end Clif.Observe
