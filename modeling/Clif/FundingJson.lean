import Clif.FundingPlan

/-!
# FundingJson — `validate_plan` on a list of any JSON values

The lines of a plan that is well formed are those of `validatePlan`.  `rejectedAlone_iff` says for
which plans a malformed item costs no more than its own line.
-/

namespace Clif

/-! ## Floats -/

inductive PyFloat where
  | fin (x : ℚ)
  | inf
  | negInf
  | nan
deriving DecidableEq

namespace PyFloat

def add : PyFloat → PyFloat → PyFloat
  | .fin x, .fin y => .fin (x + y)
  | .nan, _ | _, .nan | .inf, .negInf | .negInf, .inf => .nan
  | .inf, _ | _, .inf => .inf
  | .negInf, _ | _, .negInf => .negInf

def neg : PyFloat → PyFloat
  | .fin x => .fin (-x)
  | .inf => .negInf
  | .negInf => .inf
  | .nan => .nan

/-- `x < y`, which no comparison with `nan` satisfies. -/
def lt : PyFloat → PyFloat → Bool
  | .fin x, .fin y => decide (x < y)
  | .negInf, .fin _ | .negInf, .inf | .fin _, .inf => true
  | _, _ => false

/-- `x <= y`. -/
def le : PyFloat → PyFloat → Bool
  | .fin x, .fin y => decide (x ≤ y)
  | .nan, _ | _, .nan => false
  | .negInf, _ | _, .inf => true
  | _, _ => false

/-- `round(x, 6)`. -/
def round : PyFloat → PyFloat
  | .fin x => .fin (Py.round x 6)
  | x => x

end PyFloat

/-- An integer from here on has no float. -/
def floatOverflow : Int := 2 ^ 1024 - 2 ^ 970

namespace Py

/-- A run of digits, with their number; it may be empty. -/
def digitRun? (cs : List Char) : Option (Nat × Nat) :=
  if cs = [] then some (0, 0)
  else (digits? digit? 10 false 0 cs).map fun n => (n, (cs.filter fun c => c ≠ '_').length)

/-- The digits before and after the point, and the exponent. -/
def decimal? (cs : List Char) : Option PyFloat :=
  let mantissa := cs.takeWhile fun c => c ≠ 'e' ∧ c ≠ 'E'
  let whole := mantissa.takeWhile fun c => c ≠ '.'
  let fraction := (mantissa.dropWhile fun c => c ≠ '.').drop 1
  let exponent := match cs.dropWhile fun c => c ≠ 'e' ∧ c ≠ 'E' with
    | [] => some 0
    | _ :: ds => signed? (digits? digit? 10 false 0) ds
  if whole = [] ∧ fraction = [] then none
  else
    match digitRun? whole, digitRun? fraction, exponent with
    | some (w, _), some (f, places), some e =>
      let digits : ℚ := w + f / 10 ^ places
      let x : ℚ := if 0 ≤ e then digits * 10 ^ e.toNat else digits / 10 ^ (-e).toNat
      some (if floatOverflow ≤ x then .inf else .fin x)
    | _, _, _ => none

def unsignedFloat? (cs : List Char) : Option PyFloat :=
  let name := lower (String.ofList cs)
  if name = "inf" ∨ name = "infinity" then some .inf
  else if name = "nan" then some .nan
  else decimal? cs

/-- `float(s)`; `none` stands for `ValueError`. -/
def float? (s : String) : Option PyFloat :=
  match stripChars s.toList with
  | '-' :: cs => (unsignedFloat? cs).map PyFloat.neg
  | '+' :: cs => unsignedFloat? cs
  | cs => unsignedFloat? cs

end Py

/-! ## Values -/

/-- A JSON value; what is inside a list or an object is never read. -/
inductive JsonValue where
  | null
  | bool (b : Bool)
  | int (n : Int)
  | float (x : PyFloat)
  | str (s : String)
  | list
  | dict
deriving DecidableEq

def floatTypeError (typeName : String) : Exc :=
  .other "TypeError" s!"float() argument must be a string or a real number, not '{typeName}'"

/-- `float(value)`. -/
def JsonValue.toFloat : JsonValue → Except Exc PyFloat
  | .null => .error (floatTypeError "NoneType")
  | .bool b => .ok (.fin (if b then 1 else 0))
  | .int n =>
    if floatOverflow ≤ |n| then .error (.other "OverflowError" "int too large to convert to float")
    else .ok (.fin n)
  | .float x => .ok x
  | .str s =>
    match Py.float? s with
    | some x => .ok x
    | none => .error (.valueError s!"could not convert string to float: '{s}'")
  | .list => .error (floatTypeError "list")
  | .dict => .error (floatTypeError "dict")

/-- The finite number that `float` reads. -/
def JsonValue.number? (v : JsonValue) : Option ℚ :=
  match v.toFloat with
  | .ok (.fin x) => some x
  | _ => none

/-! ## The plan -/

/-- A plan item that is a JSON object: the text of its account, and the two values. -/
structure PlanObject where
  account : Option String
  target : Option JsonValue
  amount : Option JsonValue

/-- An item of the list. -/
inductive PlanEntry where
  | object (o : PlanObject)
  | other (typeName : String)

/-- The item as one of the two forms that the source documents; `none`: it is malformed. -/
def PlanEntry.item? : PlanEntry → Option PlanItem
  | .other _ => none
  | .object o =>
    match o.account, o.target, o.amount with
    | none, _, _ => none
    | some name, some target, _ => target.number?.map fun x => ⟨some name, some x, none⟩
    | some name, none, some amount => amount.number?.map fun x => ⟨some name, none, some x⟩
    | some _, none, none => none

inductive EntryReason where
  | unknownAccount
  | noBalance
  | targetAboveUpper (target : PyFloat) (upper : ℚ)
  | notPositive
  | overCap (amount : PyFloat) (cap : ℚ)
  | aboveUpper (account : String) (upper : ℚ)
  | exceedsFunder (funderBalance : ℚ)
deriving DecidableEq

/-- `PlanLine`, accepted if it has no reason. -/
structure EntryLine where
  account : String
  address : String := ""
  amount : PyFloat := .fin 0
  reason : Option EntryReason
deriving DecidableEq

def EntryLine.accepted (l : EntryLine) : Bool := l.reason.isNone

section

variable (network : Network) (balances : Dict String ℚ) (funderBalance cap : ℚ)

/-- The bounds of the amount. -/
def boundedLine (a : Account) (bal : ℚ) (running amount : PyFloat) : EntryLine :=
  let rejected := fun reason =>
    { account := a.name, address := a.address, amount := amount,
      reason := some reason : EntryLine }
  if amount.le (.fin 0) then rejected .notPositive
  else if (PyFloat.fin (cap + tolerance)).lt amount then rejected (.overCap amount cap)
  else if (PyFloat.fin (a.band.upper + tolerance)).lt ((PyFloat.fin bal).add amount) then
    rejected (.aboveUpper a.name a.band.upper)
  else if (PyFloat.fin (funderBalance + tolerance)).lt (running.add amount) then
    rejected (.exceedsFunder funderBalance)
  else { account := a.name, address := a.address, amount := amount, reason := none }

/-- The body of the loop of `validate_plan`. -/
def validatePlanEntry (running : PyFloat) : PlanEntry → Except Exc EntryLine
  | .other typeName =>
    .error (.other "AttributeError" s!"'{typeName}' object has no attribute 'get'")
  | .object o =>
    let name := Py.strip (o.account.getD "")
    match registered network name with
    | none => .ok { account := name, reason := some .unknownAccount }
    | some a =>
      match balances.get? (Py.lower a.address) with
      | none => .ok { account := a.name, address := a.address, reason := some .noBalance }
      | some bal =>
        match o.target with
        | some value => do
          let target ← value.toFloat
          if (PyFloat.fin (a.band.upper + tolerance)).lt target then
            return { account := a.name, address := a.address,
                     reason := some (.targetAboveUpper target a.band.upper) }
          else return boundedLine funderBalance cap a bal running (target.add (.fin (-bal))).round
        | none => do
          let amount ← (o.amount.getD (.int 0)).toFloat
          return boundedLine funderBalance cap a bal running amount.round

def validatePlanEntries : PyFloat → List PlanEntry → Except Exc (List EntryLine)
  | _, [] => .ok []
  | running, it :: items => do
    let line ← validatePlanEntry network balances funderBalance cap running it
    let spent := if line.accepted then running.add line.amount else running
    let rest ← validatePlanEntries spent items
    return line :: rest

/-- `validate_plan`. -/
def validateJsonPlan (items : List PlanEntry) : Except Exc (List EntryLine) :=
  validatePlanEntries network balances funderBalance cap (.fin 0) items

/-! ## What is asked of it -/

/-- The plan has one line an item, a malformed item is rejected, and the lines of the others are
those they have without it. -/
def RejectedAlone (validate : List PlanEntry → Except Exc (List EntryLine))
    (items : List PlanEntry) : Prop :=
  ∃ lines alone, validate items = .ok lines ∧ lines.length = items.length ∧
    (∀ x ∈ items.zip lines, x.1.item? = none → x.2.accepted = false) ∧
    validate (items.filter fun it => it.item?.isSome) = .ok alone ∧
    ((items.zip lines).filter fun x => x.1.item?.isSome).map Prod.snd = alone

/-- The item is an object and, where its account gets a line of its own, its value is one that
`float` reads, as something else than `nan`. -/
def HarmlessEntry : PlanEntry → Prop
  | .other _ => False
  | .object o =>
    ∀ a, registered network (Py.strip (o.account.getD "")) = some a →
      balances.get? (Py.lower a.address) ≠ none →
        ∃ x, (o.target.getD (o.amount.getD (.int 0))).toFloat = .ok x ∧ x ≠ .nan

end

/-! ## The lines of the well-formed items -/

/-- A reason of the plan of numbers. -/
def EntryReason.of : PlanReason → EntryReason
  | .unknownAccount => .unknownAccount
  | .noBalance => .noBalance
  | .targetAboveUpper target upper => .targetAboveUpper (.fin target) upper
  | .notPositive => .notPositive
  | .overCap amount cap => .overCap (.fin amount) cap
  | .aboveUpper account upper => .aboveUpper account upper
  | .exceedsFunder funderBalance => .exceedsFunder funderBalance

/-- A line of the plan of numbers. -/
def EntryLine.of (l : PlanLine) : EntryLine :=
  { account := l.account, address := l.address, amount := .fin l.amount,
    reason := l.reason.map EntryReason.of }

@[simp] theorem EntryLine.of_accepted (l : PlanLine) : (EntryLine.of l).accepted = l.accepted := by
  simp [EntryLine.of, EntryLine.accepted, PlanLine.accepted]

@[simp] theorem EntryLine.of_amount (l : PlanLine) : (EntryLine.of l).amount = .fin l.amount := rfl

theorem JsonValue.number?_some {v : JsonValue} {x : ℚ} :
    v.number? = some x ↔ v.toFloat = .ok (.fin x) := by
  unfold JsonValue.number?
  constructor
  · intro h
    split at h
    · rename_i y hy
      cases h
      exact hy
    · cases h
  · intro h
    rw [h]

section

variable {network : Network} {balances : Dict String ℚ} {funderBalance cap r : ℚ}

/-- On numbers the bounds are those of `validateItem`. -/
theorem boundedLine_fin {a : Account} {bal amount : ℚ} :
    boundedLine funderBalance cap a bal (.fin r) (.fin amount) =
      EntryLine.of (match checkItem.checkAmount a bal cap amount with
        | .error line => line
        | .ok (a, amount) =>
          if funderBalance + tolerance < r + amount then
            { account := a.name, address := a.address, amount := amount,
              reason := some (.exceedsFunder funderBalance) }
          else { account := a.name, address := a.address, amount := amount, reason := none }) := by
  simp only [boundedLine, checkItem.checkAmount, PyFloat.le, PyFloat.lt, PyFloat.add,
    decide_eq_true_eq]
  by_cases hpos : amount ≤ 0
  · simp only [if_pos hpos]
    rfl
  by_cases hcap : cap + tolerance < amount
  · simp only [if_neg hpos, if_pos hcap]
    rfl
  by_cases hband : a.band.upper + tolerance < bal + amount
  · simp only [if_neg hpos, if_neg hcap, if_pos hband]
    rfl
  by_cases hfunder : funderBalance + tolerance < r + amount
  · simp only [if_neg hpos, if_neg hcap, if_neg hband, if_pos hfunder]
    rfl
  · simp only [if_neg hpos, if_neg hcap, if_neg hband, if_neg hfunder]
    rfl

theorem PlanEntry.item?_some {it : PlanEntry} {item : PlanItem} (h : it.item? = some item) :
    ∃ o name v x, it = .object o ∧ o.account = some name ∧ v.toFloat = .ok (.fin x) ∧
      (o.target = some v ∧ item = ⟨some name, some x, none⟩ ∨
        o.target = none ∧ o.amount = some v ∧ item = ⟨some name, none, some x⟩) := by
  cases it with
  | other typeName => cases h
  | object o =>
    obtain ⟨account, target, amount⟩ := o
    cases account with
    | none => cases h
    | some name =>
      cases target with
      | some v =>
        obtain ⟨x, hx, rfl⟩ := Option.map_eq_some_iff.mp h
        exact ⟨_, name, v, x, rfl, rfl, JsonValue.number?_some.mp hx, .inl ⟨rfl, rfl⟩⟩
      | none =>
        cases amount with
        | none => cases h
        | some v =>
          obtain ⟨x, hx, rfl⟩ := Option.map_eq_some_iff.mp h
          exact ⟨_, name, v, x, rfl, rfl, JsonValue.number?_some.mp hx, .inr ⟨rfl, rfl, rfl⟩⟩

/-- A well-formed item gets the line of the plan of numbers. -/
theorem validatePlanEntry_item {it : PlanEntry} {item : PlanItem} (h : it.item? = some item) :
    validatePlanEntry network balances funderBalance cap (.fin r) it =
      .ok (EntryLine.of (validateItem network balances funderBalance cap r item)) := by
  obtain ⟨o, name, v, x, rfl, hname, hfloat, hform⟩ := PlanEntry.item?_some h
  obtain ⟨account, target, amount⟩ := o
  dsimp only at hname hform
  subst hname
  unfold validatePlanEntry validateItem checkItem
  obtain ⟨rfl, rfl⟩ | ⟨rfl, rfl, rfl⟩ := hform
  · dsimp only [Option.getD_some]
    cases registered network (Py.strip name) with
    | none => rfl
    | some a =>
      dsimp only
      cases balances.get? (Py.lower a.address) with
      | none => rfl
      | some bal =>
        dsimp only
        rw [hfloat]
        simp only [bind, Except.bind, pure, Except.pure, PyFloat.lt, PyFloat.add, PyFloat.round,
          ← sub_eq_add_neg, decide_eq_true_eq]
        by_cases htarget : a.band.upper + tolerance < x
        · rw [if_pos htarget, if_pos htarget]
          rfl
        · rw [if_neg htarget, if_neg htarget]
          exact congrArg Except.ok boundedLine_fin
  · dsimp only [Option.getD_some]
    cases registered network (Py.strip name) with
    | none => rfl
    | some a =>
      dsimp only
      cases balances.get? (Py.lower a.address) with
      | none => rfl
      | some bal =>
        dsimp only
        rw [hfloat]
        exact congrArg Except.ok boundedLine_fin

/-! ## The lines of the malformed items -/

/-- No account has an empty name. -/
theorem registered_empty : registered network (Py.strip "") = none := by
  cases network <;> decide +kernel

theorem toFloat_zero : (JsonValue.int 0).toFloat = .ok (.fin 0) := by
  have hpos : 0 < floatOverflow := sub_pos.mpr (pow_lt_pow_right₀ (by decide) (by decide))
  have hsmall : ¬ floatOverflow ≤ |(0 : Int)| := by
    rw [abs_zero]
    exact not_le.mpr hpos
  rw [JsonValue.toFloat, if_neg hsmall]
  rfl

/-- The line of a malformed item with a value that `float` reads. -/
theorem validatePlanEntry_malformed {o : PlanObject} {a : Account} {bal : ℚ} {x : PyFloat}
    (hform : (PlanEntry.object o).item? = none)
    (hreg : registered network (Py.strip (o.account.getD "")) = some a)
    (hbal : balances.get? (Py.lower a.address) = some bal)
    (hx : (o.target.getD (o.amount.getD (.int 0))).toFloat = .ok x) :
    ∃ line, validatePlanEntry network balances funderBalance cap (.fin r) (.object o) = .ok line ∧
      line.accepted = decide (x = .nan) := by
  obtain ⟨account, target, amount⟩ := o
  cases account with
  | none =>
    rw [Option.getD_none, registered_empty] at hreg
    cases hreg
  | some name =>
    unfold validatePlanEntry
    simp only [hreg, hbal]
    cases target with
    | some v =>
      rw [Option.getD_some] at hx
      have hfin : ∀ y, x ≠ .fin y := by
        rintro y rfl
        simp [PlanEntry.item?, JsonValue.number?, hx] at hform
      dsimp only
      rw [hx]
      cases x with
      | fin y => exact absurd rfl (hfin y)
      | inf => exact ⟨_, rfl, rfl⟩
      | negInf => exact ⟨_, rfl, rfl⟩
      | nan => exact ⟨_, rfl, rfl⟩
    | none =>
      dsimp only
      rw [Option.getD_none] at hx
      cases amount with
      | none =>
        rw [Option.getD_none, toFloat_zero] at hx ⊢
        cases hx
        refine ⟨_, rfl, ?_⟩
        simp [boundedLine, PyFloat.le, PyFloat.round, EntryLine.accepted]
      | some v =>
        rw [Option.getD_some] at hx ⊢
        have hfin : ∀ y, x ≠ .fin y := by
          rintro y rfl
          simp [PlanEntry.item?, JsonValue.number?, hx] at hform
        rw [hx]
        cases x with
        | fin y => exact absurd rfl (hfin y)
        | inf => exact ⟨_, rfl, rfl⟩
        | negInf => exact ⟨_, rfl, rfl⟩
        | nan => exact ⟨_, rfl, rfl⟩

/-- A malformed item is rejected with a line of its own exactly if it is harmless. -/
theorem validatePlanEntry_rejected_iff {it : PlanEntry} (hform : it.item? = none) :
    (∃ line, validatePlanEntry network balances funderBalance cap (.fin r) it = .ok line ∧
      line.accepted = false) ↔ HarmlessEntry network balances it := by
  cases it with
  | other typeName =>
    refine iff_of_false ?_ id
    rintro ⟨line, h, -⟩
    cases h
  | object o =>
    constructor
    · rintro ⟨line, hok, hrejected⟩ a hreg hsome
      obtain ⟨bal, hbal⟩ := Option.ne_none_iff_exists'.mp hsome
      cases hx : (o.target.getD (o.amount.getD (.int 0))).toFloat with
      | error e =>
        obtain ⟨account, target, amount⟩ := o
        unfold validatePlanEntry at hok
        simp only [hreg, hbal] at hok
        cases target with
        | some v =>
          rw [Option.getD_some] at hx
          simp only [hx] at hok
          cases hok
        | none =>
          rw [Option.getD_none] at hx
          simp only [hx] at hok
          cases hok
      | ok x =>
        refine ⟨x, rfl, ?_⟩
        rintro rfl
        obtain ⟨line', hok', hline⟩ := validatePlanEntry_malformed hform hreg hbal hx
        rw [hok] at hok'
        cases hok'
        rw [hrejected] at hline
        cases hline
    · intro h
      cases hreg : registered network (Py.strip (o.account.getD "")) with
      | none =>
        refine ⟨{ account := Py.strip (o.account.getD ""), reason := some .unknownAccount },
          ?_, rfl⟩
        unfold validatePlanEntry
        simp only [hreg]
      | some a =>
        cases hbal : balances.get? (Py.lower a.address) with
        | none =>
          refine ⟨{ account := a.name, address := a.address, reason := some .noBalance }, ?_, rfl⟩
          unfold validatePlanEntry
          simp only [hreg, hbal]
        | some bal =>
          obtain ⟨x, hx, hnan⟩ := h a hreg (by rw [hbal]; exact Option.some_ne_none _)
          obtain ⟨line, hok, hline⟩ := validatePlanEntry_malformed hform hreg hbal hx
          exact ⟨line, hok, hline.trans (decide_eq_false hnan)⟩

/-! ## The whole plan -/

/-- A well-formed item does no harm. -/
theorem harmless_item {it : PlanEntry} {item : PlanItem} (h : it.item? = some item) :
    HarmlessEntry network balances it := by
  obtain ⟨o, name, v, x, rfl, -, hfloat, hform⟩ := PlanEntry.item?_some h
  intro a _ _
  refine ⟨.fin x, ?_, by rintro ⟨⟩⟩
  obtain ⟨htarget, -⟩ | ⟨htarget, hamount, -⟩ := hform
  · rw [htarget]
    exact hfloat
  · rw [htarget, hamount]
    exact hfloat

/-- What the accepted lines have come to after a line. -/
def runningAfter (running : PyFloat) (line : EntryLine) : PyFloat :=
  if line.accepted then running.add line.amount else running

theorem validatePlanEntries_cons {running : PyFloat} {it : PlanEntry} {items : List PlanEntry}
    {lines : List EntryLine} :
    validatePlanEntries network balances funderBalance cap running (it :: items) = .ok lines ↔
      ∃ line rest, validatePlanEntry network balances funderBalance cap running it = .ok line ∧
        validatePlanEntries network balances funderBalance cap (runningAfter running line) items =
          .ok rest ∧ lines = line :: rest := by
  rw [validatePlanEntries]
  cases hline : validatePlanEntry network balances funderBalance cap running it with
  | error e => simp [bind, Except.bind]
  | ok line =>
    simp only [bind, Except.bind, pure, Except.pure, runningAfter]
    cases hrest : validatePlanEntries network balances funderBalance cap
        (if line.accepted = true then running.add line.amount else running) items with
    | error e => simp [hrest]
    | ok rest =>
      constructor
      · intro h
        exact ⟨line, rest, rfl, hrest, (Except.ok.inj h).symm⟩
      · rintro ⟨line', rest', hline', hrest', rfl⟩
        cases hline'
        rw [hrest] at hrest'
        cases hrest'
        rfl

/-- A plan of numbers spends numbers. -/
theorem runningAfter_of (line : PlanLine) :
    runningAfter (.fin r) (.of line) = .fin (if line.accepted then r + line.amount else r) := by
  unfold runningAfter
  rw [EntryLine.of_accepted]
  split <;> rfl

/-- A well-formed item costs the rest of the plan its own amount. -/
theorem rejectedAlone_cons_item {it : PlanEntry} {items : List PlanEntry} {item : PlanItem}
    (h : it.item? = some item) :
    ∃ r', RejectedAlone (validatePlanEntries network balances funderBalance cap (.fin r))
        (it :: items) ↔
      RejectedAlone (validatePlanEntries network balances funderBalance cap (.fin r')) items := by
  let line := validateItem network balances funderBalance cap r item
  refine ⟨if line.accepted then r + line.amount else r, ?_⟩
  have hline : validatePlanEntry network balances funderBalance cap (.fin r) it =
      .ok (EntryLine.of line) := validatePlanEntry_item h
  have hsome : (it.item?).isSome = true := by rw [h]; rfl
  constructor
  · rintro ⟨lines, alone, hlines, hlength, hrejected, halone, hsame⟩
    rw [List.filter_cons_of_pos (p := fun it : PlanEntry => it.item?.isSome) hsome] at halone
    obtain ⟨x, rest, hx, hrest, rfl⟩ := validatePlanEntries_cons.mp hlines
    obtain ⟨y, others, hy, hothers, rfl⟩ := validatePlanEntries_cons.mp halone
    rw [hline] at hx hy
    cases hx
    cases hy
    rw [runningAfter_of] at hrest hothers
    refine ⟨rest, others, hrest, by simpa using hlength, fun x hx => ?_, hothers, ?_⟩
    · exact hrejected x (List.mem_cons_of_mem _ hx)
    · rw [List.zip_cons_cons, List.filter_cons_of_pos (by simpa using hsome)] at hsame
      exact (List.cons.inj hsame).2
  · rintro ⟨lines, alone, hlines, hlength, hrejected, halone, hsame⟩
    refine ⟨.of line :: lines, .of line :: alone, ?_, by simpa using hlength, ?_, ?_, ?_⟩
    · refine validatePlanEntries_cons.mpr ⟨_, _, hline, ?_, rfl⟩
      rw [runningAfter_of]
      exact hlines
    · rintro x hx hnone
      obtain rfl | hx := List.mem_cons.mp hx
      · rw [h] at hnone
        cases hnone
      · exact hrejected x hx hnone
    · rw [List.filter_cons_of_pos (p := fun it : PlanEntry => it.item?.isSome) hsome]
      refine validatePlanEntries_cons.mpr ⟨_, _, hline, ?_, rfl⟩
      rw [runningAfter_of]
      exact halone
    · rw [List.zip_cons_cons, List.filter_cons_of_pos (by simpa using hsome), List.map_cons, hsame]

/-- A malformed item must be harmless, and then the rest of the plan does not see it. -/
theorem rejectedAlone_cons_malformed {it : PlanEntry} {items : List PlanEntry}
    (h : it.item? = none) :
    RejectedAlone (validatePlanEntries network balances funderBalance cap (.fin r)) (it :: items) ↔
      HarmlessEntry network balances it ∧
        RejectedAlone (validatePlanEntries network balances funderBalance cap (.fin r)) items := by
  have hnone : ¬ (it.item?).isSome = true := by rw [h]; exact Bool.false_ne_true
  constructor
  · rintro ⟨lines, alone, hlines, hlength, hrejected, halone, hsame⟩
    rw [List.filter_cons_of_neg (p := fun it : PlanEntry => it.item?.isSome) hnone] at halone
    obtain ⟨line, rest, hline, hrest, rfl⟩ := validatePlanEntries_cons.mp hlines
    have hline' : line.accepted = false := hrejected (it, line) List.mem_cons_self h
    rw [runningAfter, hline', if_neg Bool.false_ne_true] at hrest
    refine ⟨(validatePlanEntry_rejected_iff h).mp ⟨line, hline, hline'⟩, rest, alone, hrest,
      by simpa using hlength, fun x hx => hrejected x (List.mem_cons_of_mem _ hx), halone, ?_⟩
    rw [List.zip_cons_cons, List.filter_cons_of_neg (by simpa using hnone)] at hsame
    exact hsame
  · rintro ⟨hharmless, lines, alone, hlines, hlength, hrejected, halone, hsame⟩
    obtain ⟨line, hline, hline'⟩ := (validatePlanEntry_rejected_iff h).mpr hharmless
    refine ⟨line :: lines, alone, ?_, by simpa using hlength, ?_, ?_, ?_⟩
    · refine validatePlanEntries_cons.mpr ⟨_, _, hline, ?_, rfl⟩
      rw [runningAfter, hline', if_neg Bool.false_ne_true]
      exact hlines
    · rintro x hx hform
      obtain rfl | hx := List.mem_cons.mp hx
      · exact hline'
      · exact hrejected x hx hform
    · rw [List.filter_cons_of_neg (p := fun it : PlanEntry => it.item?.isSome) hnone]
      exact halone
    · rw [List.zip_cons_cons, List.filter_cons_of_neg (by simpa using hnone), hsame]

theorem rejectedAlone_iff_of {items : List PlanEntry} :
    RejectedAlone (validatePlanEntries network balances funderBalance cap (.fin r)) items ↔
      ∀ it ∈ items, HarmlessEntry network balances it := by
  induction items generalizing r with
  | nil =>
    refine iff_of_true ⟨[], [], rfl, rfl, ?_, rfl, rfl⟩ ?_
    · rintro x ⟨⟩
    · rintro it ⟨⟩
  | cons it items ih =>
    rw [List.forall_mem_cons]
    cases h : it.item? with
    | none => rw [rejectedAlone_cons_malformed h, ih]
    | some item =>
      obtain ⟨r', hr⟩ := @rejectedAlone_cons_item _ _ _ _ _ _ items _ h
      rw [hr, ih, and_iff_right (harmless_item h)]

/-- A plan keeps its malformed items to their own lines exactly if none of them does harm. -/
theorem rejectedAlone_iff {items : List PlanEntry} :
    RejectedAlone (validateJsonPlan network balances funderBalance cap) items ↔
      ∀ it ∈ items, HarmlessEntry network balances it := rejectedAlone_iff_of

/-- A plan of well-formed items has the lines of the plan of numbers. -/
theorem validateJsonPlan_items {items : List PlanEntry} {parsed : List PlanItem}
    (h : items.map PlanEntry.item? = parsed.map some) :
    validateJsonPlan network balances funderBalance cap items =
      .ok ((validatePlan network parsed balances funderBalance cap).map EntryLine.of) := by
  unfold validateJsonPlan validatePlan
  generalize (0 : ℚ) = r
  induction items generalizing parsed r with
  | nil =>
    obtain rfl := List.map_eq_nil_iff.mp h.symm
    rfl
  | cons it items ih =>
    obtain ⟨item, rest, rfl, hitem, hrest⟩ := List.map_eq_cons_iff.mp h.symm
    refine validatePlanEntries_cons.mpr ⟨_, _, validatePlanEntry_item hitem.symm, ?_, rfl⟩
    rw [runningAfter_of]
    exact ih hrest.symm _

end

/-- An amount that is not a number, and one after it that is. -/
def nanPlan : List PlanEntry :=
  [.object ⟨some "Submit", none, some (.float .nan)⟩,
    .object ⟨some "Submit", none, some (.int 200)⟩]

/-- Both lines are accepted, with a funder who has 100. -/
theorem nanPlan_notAlone :
    validateJsonPlan .flare submitBalance 100 400 nanPlan =
      .ok [⟨"Submit", "0x366BCb8c23490327A1C63880875a35de41705876", .nan, none⟩,
        ⟨"Submit", "0x366BCb8c23490327A1C63880875a35de41705876", .fin 200, none⟩] ∧
    ¬ RejectedAlone (validateJsonPlan .flare submitBalance 100 400) nanPlan := by
  have hlines : validateJsonPlan .flare submitBalance 100 400 nanPlan =
      .ok [⟨"Submit", "0x366BCb8c23490327A1C63880875a35de41705876", .nan, none⟩,
        ⟨"Submit", "0x366BCb8c23490327A1C63880875a35de41705876", .fin 200, none⟩] := by
    decide +kernel
  refine ⟨hlines, ?_⟩
  rintro ⟨lines, -, hok, -, hrejected, -⟩
  rw [hlines] at hok
  cases hok
  have hform : (PlanEntry.object ⟨some "Submit", none, some (.float .nan)⟩).item? = none := rfl
  exact absurd (hrejected _ List.mem_cons_self hform) (by decide)

end Clif
