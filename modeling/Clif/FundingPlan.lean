import Clif.Dict
import Clif.Funding
import Mathlib.Algebra.Order.BigOperators.Group.List

/-!
# FundingPlan — `validate_plan`: a proposed plan against the bounds of the accounts and the funder

`planBounded_iff` says for which plans the accepted lines keep every account within its band, all
taken together.
-/

namespace Clif

/-! ## The plan -/

/-- A plan item; `none`: the key is absent. -/
structure PlanItem where
  account : Option String
  target : Option ℚ
  amount : Option ℚ
deriving DecidableEq

/-- `reason` of a rejected line. -/
inductive PlanReason where
  | unknownAccount
  | noBalance
  | targetAboveUpper (target upper : ℚ)
  | notPositive
  | overCap (amount cap : ℚ)
  | aboveUpper (account : String) (upper : ℚ)
  | exceedsFunder (funderBalance : ℚ)
deriving DecidableEq

/-- A line of the plan is accepted if it has no reason. -/
structure PlanLine where
  account : String
  address : String := ""
  amount : ℚ := 0
  reason : Option PlanReason
deriving DecidableEq

def PlanLine.accepted (l : PlanLine) : Bool := l.reason.isNone

/-- `1e-9`. -/
def tolerance : ℚ := 1 / 10 ^ 9

/-- `reg.get(name.lower())`. -/
def registered (network : Network) (name : String) : Option Account :=
  (accounts network).find? fun a => Py.lower a.name == Py.lower name

/-- What a line asks for, if it passes the checks of its own. -/
def checkItem (network : Network) (balances : Dict String ℚ) (cap : ℚ) (it : PlanItem) :
    Except PlanLine (Account × ℚ) :=
  let name := Py.strip (it.account.getD "")
  match registered network name with
  | none => .error { account := name, reason := some .unknownAccount }
  | some a =>
    match balances.get? (Py.lower a.address) with
    | none => .error { account := a.name, address := a.address, reason := some .noBalance }
    | some bal =>
      match it.target with
      | some target =>
        if a.band.upper + tolerance < target then
          .error { account := a.name, address := a.address,
                   reason := some (.targetAboveUpper target a.band.upper) }
        else checkAmount a bal cap (Py.round (target - bal) 6)
      | none => checkAmount a bal cap (Py.round (it.amount.getD 0) 6)
where
  /-- The bounds of the amount. -/
  checkAmount (a : Account) (bal cap amount : ℚ) : Except PlanLine (Account × ℚ) :=
    let rejected := fun reason =>
      Except.error { account := a.name, address := a.address, amount := amount,
                     reason := some reason : PlanLine }
    if amount ≤ 0 then rejected .notPositive
    else if cap + tolerance < amount then rejected (.overCap amount cap)
    else if a.band.upper + tolerance < bal + amount then
      rejected (.aboveUpper a.name a.band.upper)
    else .ok (a, amount)

/-- The body of the loop of `validate_plan`; `running` is what has been accepted so far. -/
def validateItem (network : Network) (balances : Dict String ℚ) (funderBalance cap running : ℚ)
    (it : PlanItem) : PlanLine :=
  match checkItem network balances cap it with
  | .error line => line
  | .ok (a, amount) =>
    if funderBalance + tolerance < running + amount then
      { account := a.name, address := a.address, amount := amount,
        reason := some (.exceedsFunder funderBalance) }
    else { account := a.name, address := a.address, amount := amount, reason := none }

def validateItems (network : Network) (balances : Dict String ℚ) (funderBalance cap : ℚ) :
    ℚ → List PlanItem → List PlanLine
  | _, [] => []
  | running, it :: items =>
    let line := validateItem network balances funderBalance cap running it
    line :: validateItems network balances funderBalance cap
      (if line.accepted then running + line.amount else running) items

/-- `validate_plan`. -/
def validatePlan (network : Network) (items : List PlanItem) (balances : Dict String ℚ)
    (funderBalance cap : ℚ) : List PlanLine :=
  validateItems network balances funderBalance cap 0 items

/-! ## What a plan asks for and what is accepted of it -/

/-- The amounts, with their accounts, that pass the checks of their own lines. -/
def asked (network : Network) (balances : Dict String ℚ) (cap : ℚ) (items : List PlanItem) :
    List (Account × ℚ) :=
  items.filterMap fun it => (checkItem network balances cap it).toOption

/-- The sum of what a list of amounts has for an account. -/
def sumFor (a : Account) (xs : List (Account × ℚ)) : ℚ :=
  ((xs.filter fun x => x.1.name == a.name).map Prod.snd).sum

/-- The accepted lines. -/
def acceptedLines (lines : List PlanLine) : List PlanLine := lines.filter PlanLine.accepted

/-- The sum of the lines accepted for an account. -/
def acceptedFor (a : Account) (lines : List PlanLine) : ℚ :=
  (((acceptedLines lines).filter fun l => l.account == a.name).map PlanLine.amount).sum

/-- The bounds that a plan is validated for. -/
structure PlanBounded (network : Network) (balances : Dict String ℚ) (funderBalance cap : ℚ)
    (lines : List PlanLine) : Prop where
  /-- Every accepted line names an account and has an amount within the cap. -/
  line : ∀ l ∈ acceptedLines lines, ∃ a ∈ accounts network, l.account = a.name ∧
    l.address = a.address ∧ 0 < l.amount ∧ l.amount ≤ cap + tolerance
  /-- The accepted lines together stay within the balance of the funder. -/
  funder : ((acceptedLines lines).map PlanLine.amount).sum ≤ funderBalance + tolerance
  /-- The lines accepted for an account together stay within its band. -/
  band : ∀ a ∈ accounts network, (∃ l ∈ acceptedLines lines, l.account = a.name) →
    ∃ bal, balances.get? (Py.lower a.address) = some bal ∧
      bal + acceptedFor a lines ≤ a.band.upper + tolerance

section

variable {network : Network} {balances : Dict String ℚ} {funderBalance cap running : ℚ}
  {items : List PlanItem}

theorem registered_some {name : String} {a : Account} (h : registered network name = some a) :
    a ∈ accounts network := List.mem_of_find?_eq_some h

/-- What passes the checks of its own line. -/
theorem checkItem_ok {it : PlanItem} {a : Account} {amount : ℚ}
    (h : checkItem network balances cap it = .ok (a, amount)) :
    a ∈ accounts network ∧ 0 < amount ∧ amount ≤ cap + tolerance ∧
      ∃ bal, balances.get? (Py.lower a.address) = some bal ∧
        bal + amount ≤ a.band.upper + tolerance := by
  have hamount : ∀ {b : Account} {bal x : ℚ}, checkItem.checkAmount b bal cap x = .ok (a, amount) →
      b = a ∧ x = amount ∧ 0 < x ∧ x ≤ cap + tolerance ∧ bal + x ≤ b.band.upper + tolerance := by
    intro b bal x hx
    unfold checkItem.checkAmount at hx
    dsimp only at hx
    split at hx
    · cases hx
    split at hx
    · cases hx
    split at hx
    · cases hx
    rename_i hpos hcap hband
    obtain ⟨rfl, rfl⟩ := Prod.mk.inj (Except.ok.inj hx)
    exact ⟨rfl, rfl, not_le.mp hpos, not_lt.mp hcap, not_lt.mp hband⟩
  unfold checkItem at h
  dsimp only at h
  split at h
  · cases h
  rename_i b hreg
  split at h
  · cases h
  rename_i bal hbal
  have hchecked : ∃ x, checkItem.checkAmount b bal cap x = .ok (a, amount) := by
    split at h
    · split at h
      · cases h
      · exact ⟨_, h⟩
    · exact ⟨_, h⟩
  obtain ⟨x, hx⟩ := hchecked
  obtain ⟨rfl, rfl, hpos, hcap, hband⟩ := hamount hx
  exact ⟨registered_some hreg, hpos, hcap, bal, hbal, hband⟩

/-- A line that fails its own checks is not accepted. -/
theorem checkItem_error {it : PlanItem} {l : PlanLine}
    (h : checkItem network balances cap it = .error l) : l.accepted = false := by
  have hamount : ∀ {b : Account} {bal x : ℚ}, checkItem.checkAmount b bal cap x = .error l →
      l.accepted = false := by
    intro b bal x hx
    unfold checkItem.checkAmount at hx
    dsimp only at hx
    split at hx
    · cases hx
      rfl
    split at hx
    · cases hx
      rfl
    split at hx
    · cases hx
      rfl
    · cases hx
  unfold checkItem at h
  dsimp only at h
  split at h
  · cases h
    rfl
  split at h
  · cases h
    rfl
  split at h
  · split at h
    · cases h
      rfl
    · exact hamount h
  · exact hamount h

/-- The accepted line for what an item asks. -/
def lineOf (x : Account × ℚ) : PlanLine :=
  { account := x.1.name, address := x.1.address, amount := x.2, reason := none }

theorem asked_cons_error {it : PlanItem} {l : PlanLine}
    (h : checkItem network balances cap it = .error l) :
    asked network balances cap (it :: items) = asked network balances cap items := by
  simp [asked, h, Except.toOption]

theorem asked_cons_ok {it : PlanItem} {x : Account × ℚ}
    (h : checkItem network balances cap it = .ok x) :
    asked network balances cap (it :: items) = x :: asked network balances cap items := by
  simp [asked, h, Except.toOption]

theorem mem_asked {x : Account × ℚ} : x ∈ asked network balances cap items ↔
    ∃ it ∈ items, checkItem network balances cap it = .ok x := by
  rw [asked, List.mem_filterMap]
  refine exists_congr fun it => and_congr_right fun _ => ?_
  cases checkItem network balances cap it <;> simp [Except.toOption]

theorem asked_pos {x : Account × ℚ} (h : x ∈ asked network balances cap items) : 0 < x.2 := by
  obtain ⟨it, -, hit⟩ := mem_asked.mp h
  exact (checkItem_ok hit).2.1

theorem asked_sum_nonneg : 0 ≤ ((asked network balances cap items).map Prod.snd).sum := by
  refine List.sum_nonneg fun v hv => ?_
  obtain ⟨x, hx, rfl⟩ := List.mem_map.mp hv
  exact (asked_pos hx).le

/-- Of what is asked some is accepted, in order: all of it, if the funder has enough. -/
theorem accepted_sublist : ∃ xs, xs.Sublist (asked network balances cap items) ∧
    acceptedLines (validateItems network balances funderBalance cap running items) =
      xs.map lineOf ∧
    (running ≤ funderBalance + tolerance →
      running + (xs.map Prod.snd).sum ≤ funderBalance + tolerance) ∧
    (running + ((asked network balances cap items).map Prod.snd).sum ≤ funderBalance + tolerance →
      xs = asked network balances cap items) := by
  induction items generalizing running with
  | nil => exact ⟨[], List.nil_sublist _, rfl, fun h => by simpa using h, fun _ => rfl⟩
  | cons it items ih =>
    unfold validateItems
    dsimp only
    cases hcheck : checkItem network balances cap it with
    | error l =>
      have hline : validateItem network balances funderBalance cap running it = l := by
        rw [validateItem, hcheck]
      have hnot : l.accepted = false := checkItem_error hcheck
      rw [asked_cons_error hcheck, hline, hnot, if_neg Bool.false_ne_true, acceptedLines,
        List.filter_cons_of_neg (by simp [hnot])]
      exact ih
    | ok x =>
      have hpos : 0 < x.2 := (checkItem_ok hcheck).2.1
      rw [asked_cons_ok hcheck]
      by_cases hfits : running + x.2 ≤ funderBalance + tolerance
      · have hline : validateItem network balances funderBalance cap running it = lineOf x := by
          rw [validateItem, hcheck]
          exact if_neg (not_lt.mpr hfits)
        have haccepted : (lineOf x).accepted = true := rfl
        obtain ⟨xs, hsub, hlines, hsum, hall⟩ := @ih (running + x.2)
        rw [hline, haccepted, if_pos rfl, acceptedLines, List.filter_cons_of_pos haccepted]
        refine ⟨x :: xs, hsub.cons_cons x, congrArg (lineOf x :: ·) hlines, fun _ => ?_,
          fun hle => ?_⟩
        · rw [List.map_cons, List.sum_cons, ← add_assoc]
          exact hsum hfits
        · rw [List.map_cons, List.sum_cons, ← add_assoc] at hle
          rw [hall hle]
      · have hline : (validateItem network balances funderBalance cap running it).accepted =
            false := by
          rw [validateItem, hcheck]
          dsimp only
          rw [if_pos (not_le.mp hfits)]
          rfl
        obtain ⟨xs, hsub, hlines, hsum, -⟩ := @ih running
        rw [hline, if_neg Bool.false_ne_true, acceptedLines,
          List.filter_cons_of_neg (by simp [hline])]
        refine ⟨xs, hsub.cons x, hlines, hsum, fun hle => ?_⟩
        rw [List.map_cons, List.sum_cons, ← add_assoc] at hle
        have hrest : 0 ≤ ((asked network balances cap items).map Prod.snd).sum := asked_sum_nonneg
        exact absurd (le_trans (le_add_of_nonneg_right hrest) hle) hfits

theorem sumFor_le {a : Account} {xs : List (Account × ℚ)}
    (hsub : xs.Sublist (asked network balances cap items)) :
    sumFor a xs ≤ sumFor a (asked network balances cap items) := by
  refine ((hsub.filter _).map Prod.snd).sum_le_sum fun v hv => ?_
  obtain ⟨x, hx, rfl⟩ := List.mem_map.mp hv
  exact (asked_pos (List.mem_of_mem_filter hx)).le

theorem acceptedFor_eq {a : Account} {lines : List PlanLine} {xs : List (Account × ℚ)}
    (h : acceptedLines lines = xs.map lineOf) : acceptedFor a lines = sumFor a xs := by
  rw [acceptedFor, sumFor, h, List.filter_map, List.map_map]
  rfl

theorem accounts_name_inj {a b : Account} (ha : a ∈ accounts network) (hb : b ∈ accounts network)
    (h : a.name = b.name) : a = b := by
  have hall : ∀ network, ∀ a ∈ accounts network, ∀ b ∈ accounts network,
      a.name = b.name → a = b := by
    intro network
    cases network <;> decide +kernel
  exact hall network a ha b hb h

/-- Whatever the funder has, the accepted lines keep the bounds, exactly if what the plan asks for
an account fits its band taken together. -/
theorem planBounded_iff :
    (∀ funderBalance, 0 ≤ funderBalance → PlanBounded network balances funderBalance cap
      (validatePlan network items balances funderBalance cap)) ↔
    ∀ x ∈ asked network balances cap items, ∀ bal,
      balances.get? (Py.lower x.1.address) = some bal →
        bal + sumFor x.1 (asked network balances cap items) ≤ x.1.band.upper + tolerance := by
  have htol : (0 : ℚ) < tolerance := by norm_num [tolerance]
  constructor
  · intro h x hx bal hbal
    obtain ⟨it, -, hit⟩ := mem_asked.mp hx
    have hmem := (checkItem_ok hit).1
    have htotal : 0 ≤ ((asked network balances cap items).map Prod.snd).sum := asked_sum_nonneg
    -- a funder who can pay for everything
    obtain ⟨xs, -, hlines, -, hall⟩ := @accepted_sublist network balances
      ((asked network balances cap items).map Prod.snd).sum cap 0 items
    have hxs := hall (by linarith)
    rw [hxs] at hlines
    obtain ⟨bal', hbal', hle⟩ := (h _ htotal).band x.1 hmem
      ⟨lineOf x, by rw [validatePlan, hlines]; exact List.mem_map_of_mem hx, rfl⟩
    rw [hbal] at hbal'
    cases hbal'
    rwa [validatePlan, acceptedFor_eq hlines] at hle
  · intro h funderBalance hfunder
    obtain ⟨xs, hsub, hlines, hsum, -⟩ := @accepted_sublist network balances funderBalance cap 0
      items
    have hfrom : ∀ l ∈ acceptedLines (validatePlan network items balances funderBalance cap),
        ∃ x ∈ asked network balances cap items, l = lineOf x := by
      intro l hl
      rw [validatePlan, hlines] at hl
      obtain ⟨x, hx, rfl⟩ := List.mem_map.mp hl
      exact ⟨x, hsub.subset hx, rfl⟩
    refine ⟨fun l hl => ?_, ?_, fun a ha hsome => ?_⟩
    · obtain ⟨x, hx, rfl⟩ := hfrom l hl
      obtain ⟨it, -, hit⟩ := mem_asked.mp hx
      obtain ⟨hmem, hpos, hcap, -⟩ := checkItem_ok hit
      exact ⟨x.1, hmem, rfl, rfl, hpos, hcap⟩
    · rw [validatePlan, hlines, List.map_map]
      have hle := hsum (by linarith)
      rw [zero_add] at hle
      exact hle
    · obtain ⟨l, hl, hname⟩ := hsome
      obtain ⟨x, hx, rfl⟩ := hfrom l hl
      obtain ⟨it, -, hit⟩ := mem_asked.mp hx
      obtain ⟨hmem, -, -, bal, hbal, -⟩ := checkItem_ok hit
      obtain rfl := accounts_name_inj hmem ha hname
      refine ⟨bal, hbal, ?_⟩
      rw [validatePlan, acceptedFor_eq hlines]
      have hfits := h x hx bal hbal
      have hsmaller := sumFor_le (a := x.1) hsub
      linarith

end

/-! ### The same account twice -/

/-- 200 for `Submit`, asked for twice. -/
def twiceSubmit : List PlanItem :=
  [⟨some "Submit", none, some 200⟩, ⟨some "submit", none, some 200⟩]

/-- `Submit` has 150. -/
def submitBalance : Dict String ℚ :=
  Dict.empty.set "0x366bcb8c23490327a1c63880875a35de41705876" 150

/-- Both lines are accepted, for 550 where the band ends at 400. -/
theorem twiceSubmit_unbounded :
    ¬ PlanBounded .flare submitBalance 2000 400
      (validatePlan .flare twiceSubmit submitBalance 2000 400) := by
  intro h
  have hlines : validatePlan .flare twiceSubmit submitBalance 2000 400 =
      [⟨"Submit", "0x366BCb8c23490327A1C63880875a35de41705876", 200, none⟩,
        ⟨"Submit", "0x366BCb8c23490327A1C63880875a35de41705876", 200, none⟩] := by decide +kernel
  have hsubmit : ⟨"Submit", "0x366BCb8c23490327A1C63880875a35de41705876", gasBand⟩ ∈
      accounts .flare := List.mem_cons_self
  obtain ⟨bal, hbal, hle⟩ := h.band _ hsubmit
    ⟨_, by rw [hlines]; exact List.mem_cons_self, rfl⟩
  rw [hlines] at hle
  have hbalance : submitBalance.get? (Py.lower "0x366BCb8c23490327A1C63880875a35de41705876") =
      some 150 := by decide +kernel
  rw [hbalance] at hbal
  cases hbal
  exact absurd hle (by decide +kernel)

end Clif
