import Clif.FundingJson
import Clif.Observe.Mincond

/-!
# Observe.Jsonl — the four ledgers of the observer on disk

`mincond.py`, `iqr_history.py`, `gaps.py` and `deleg_history.py` load a file of JSON lines and
rewrite it in the same way; what differs is a `Format`.  `jsonl_iff` says on which contents and
after which failures they keep what they promise.
-/

namespace Clif

/-! ## JSON values in Python's operations -/

def JsonValue.typeName : JsonValue → String
  | .null => "NoneType"
  | .bool _ => "bool"
  | .int _ => "int"
  | .float _ => "float"
  | .str _ => "str"
  | .list => "list"
  | .dict => "dict"

/-- What arithmetic and comparisons with a number take. -/
def JsonValue.num? : JsonValue → Option PyFloat
  | .bool b => some (.fin (if b then 1 else 0))
  | .int n => some (.fin n)
  | .float x => some x
  | _ => none

/-- The value as an operand; `text` is the text of the `TypeError`. -/
def JsonValue.operand (v : JsonValue) (text : String) : Except Exc PyFloat :=
  match v.num? with
  | some x => .ok x
  | none => .error (.other "TypeError" text)

/-- `x // d`. -/
def PyFloat.floorDiv (x : PyFloat) (d : Int) : PyFloat :=
  match x with
  | .fin x => .fin ⌊x / d⌋
  | _ => .nan

/-- Whether two values are one key of a dictionary; `json.loads` makes one object of every `NaN`. -/
def JsonValue.sameKey (v w : JsonValue) : Bool :=
  match v.num?, w.num? with
  | some x, some y => decide (x = y)
  | none, none => decide (v = w)
  | _, _ => false

def JsonValue.hashable : JsonValue → Bool
  | .list | .dict => false
  | _ => true

namespace Observe

/-! ## Files -/

/-- A line, as `json.loads` reads it. -/
inductive JsonLine where
  | blank
  /-- `ValueError`. -/
  | notJson
  /-- `RecursionError`. -/
  | tooDeep
  /-- A value other than an object. -/
  | value
  /-- An object, with its members; no name occurs twice. -/
  | object (members : List (String × JsonValue))
deriving DecidableEq

inductive JsonFile where
  | absent
  /-- The bytes are no text. -/
  | undecodable
  | text (lines : List JsonLine)
deriving DecidableEq

/-- `read_text().splitlines()`; the inner `none` stands for an `OSError`. -/
def JsonFile.readText (file : JsonFile) (readFails : Bool) : Except Exc (Option (List JsonLine)) :=
  match file, readFails with
  | .absent, _ | _, true => .ok none
  | .undecodable, false => .error (.other "UnicodeDecodeError" "invalid start byte")
  | .text lines, false => .ok (some lines)

/-- How `write_text` goes. -/
inductive WriteOutcome where
  | done
  /-- The file could not be opened. -/
  | notOpened
  /-- The file was truncated, and then `n` lines were written, and perhaps a part of the next. -/
  | cut (n : Nat) (torn : Bool)

/-! ## Records -/

inductive FieldType where
  | int
  | float
  | bool
deriving DecidableEq

/-- Whether a value is of the type of the field. -/
def FieldType.holds : FieldType → JsonValue → Bool
  | .int, .int _ => true
  | .float, .int _ | .float, .float (.fin _) => true
  | .bool, .bool _ => true
  | _, _ => false

structure Field where
  name : String
  type : FieldType
  default : Option JsonValue := none

/-- An instance of a dataclass: its fields and their values. -/
abbrev Instance := List (String × JsonValue)

def Instance.field (r : Instance) (name : String) : JsonValue := (r.lookup name).getD .null

def WellFormed (fields : List Field) (r : Instance) : Prop :=
  ∀ f ∈ fields, f.type.holds (r.field f.name) = true

instance {fields : List Field} : DecidablePred (WellFormed fields) := fun r =>
  inferInstanceAs (Decidable (∀ f ∈ fields, f.type.holds (r.field f.name) = true))

/-- What one of the ledgers does to its lines. -/
structure Format where
  fields : List Field
  names_nodup : (fields.map Field.name).Nodup
  /-- Whether the record is retained. -/
  retain : Instance → Except Exc Bool
  retain_ok : ∀ r, WellFormed fields r → ∃ b, retain r = .ok b
  /-- The key of the dictionary that the records are collected in. -/
  dedup : Option String := none
  /-- What the loader and what the rewriting sort by. -/
  order : Option String := none
  pruneOrder : Option String := none
  /-- Whether the file is rewritten at all. -/
  prunes : Bool := true
  keys_int : ∀ name ∈ dedup.toList ++ order.toList ++ pruneOrder.toList,
    ∃ f ∈ fields, f.name = name ∧ f.type = .int

namespace Format

/-- `Record(**obj)`; `none` stands for the `TypeError`. -/
def build (fmt : Format) (members : List (String × JsonValue)) : Option Instance :=
  if (∀ x ∈ members, x.1 ∈ fmt.fields.map Field.name) ∧
      ∀ f ∈ fmt.fields, f.default.isSome ∨ f.name ∈ members.map Prod.fst then
    some (fmt.fields.map fun f =>
      (f.name, (members.lookup f.name).getD (f.default.getD .null)))
  else none

/-- The record of a line, whether it is retained or not. -/
def record? (fmt : Format) : JsonLine → Option Instance
  | .object members => fmt.build members
  | _ => none

/-- A list has no hash, and an object has none. -/
def checkHash (fmt : Format) (r : Instance) : Except Exc Unit :=
  match fmt.dedup with
  | none => .ok ()
  | some name =>
    if (r.field name).hashable then .ok ()
    else .error (.other "TypeError" s!"unhashable type: '{(r.field name).typeName}'")

/-- The body of the loop over the lines. -/
def readLine (fmt : Format) (line : JsonLine) : Except Exc (Option Instance) :=
  match line, fmt.record? line with
  | .tooDeep, _ => .error (.other "RecursionError" "maximum recursion depth exceeded")
  | _, none => .ok none
  | _, some r => do
    if ← fmt.retain r then
      fmt.checkHash r
      return some r
    else return none

def readLines (fmt : Format) : List JsonLine → Except Exc (List Instance)
  | [] => .ok []
  | line :: lines => do
    let r ← fmt.readLine line
    let rs ← fmt.readLines lines
    return r.toList ++ rs

/-- Whether two records stand under one key. -/
def same (fmt : Format) (r s : Instance) : Bool :=
  match fmt.dedup with
  | none => false
  | some name => (r.field name).sameKey (s.field name)

end Format

/-- The values of a dictionary: of each key the last one written. -/
def lastOfEach {α : Type} (same : α → α → Bool) : List α → List α
  | [] => []
  | a :: as => if as.any (same a) then lastOfEach same as else a :: lastOfEach same as

/-- A number that is not `nan`. -/
def Ordered (name : String) (r : Instance) : Prop :=
  ∃ x, (r.field name).num? = some x ∧ x ≠ .nan

instance {name : String} : DecidablePred (Ordered name) := fun r =>
  match h : (r.field name).num? with
  | none => isFalse (by rintro ⟨x, hx, -⟩; rw [h] at hx; cases hx)
  | some x =>
    if hnan : x = .nan then isFalse (by rintro ⟨y, hy, hne⟩; rw [h] at hy; cases hy; exact hne hnan)
    else isTrue ⟨x, h, hnan⟩

/-- What `sorted` makes of records whose keys are not all ordered numbers: a `TypeError`, or some
order of them. -/
structure OddSort where
  sort : List Instance → Except Exc (List Instance)
  perm : ∀ rs ss, sort rs = .ok ss → ss.Perm rs

/-- `a.key <= b.key`. -/
def keyLe (name : String) (r s : Instance) : Bool :=
  ((r.field name).num?.getD .nan).le ((s.field name).num?.getD .nan)

/-- `sorted(rs, key=…)`; `none`: it is not called. -/
def sortedBy (odd : OddSort) (order : Option String) (rs : List Instance) :
    Except Exc (List Instance) :=
  match order with
  | none => .ok rs
  | some name =>
    if ∀ r ∈ rs, Ordered name r then .ok (rs.insertionSort fun r s => keyLe name r s = true)
    else odd.sort rs

namespace Format

/-- `load_history`, `load_gaps`, `load_snaps`. -/
def load (fmt : Format) (odd : OddSort) (file : JsonFile) (readFails : Bool) :
    Except Exc (List Instance) := do
  match ← file.readText readFails with
  | none => return []
  | some lines =>
    let rs ← fmt.readLines lines
    sortedBy odd fmt.order (lastOfEach fmt.same rs)

/-- `prune_history`, `prune_gaps`, `prune_snaps`: how it ends, and the file after it. -/
def prune (fmt : Format) (odd : OddSort) (file : JsonFile) (readFails : Bool)
    (write : WriteOutcome) : Except Exc Unit × JsonFile :=
  if !fmt.prunes then (.ok (), file)
  else
    match fmt.load odd file readFails >>= sortedBy odd fmt.pruneOrder with
    | .error e => (.error e, file)
    | .ok kept =>
      match write with
      | .done => (.ok (), .text (kept.map .object))
      | .notOpened => (.ok (), file)
      | .cut n torn =>
        (.ok (), .text ((kept.take n).map .object ++ if torn then [.notJson] else []))

end Format

/-! ## The four formats -/

def intField (name : String) : Field := { name := name, type := .int }

/-- A well-formed record has an integer in an integer field. -/
theorem WellFormed.int {fields : List Field} {r : Instance} {f : Field} (h : WellFormed fields r)
    (hf : f ∈ fields) (htype : f.type = .int) : ∃ n, r.field f.name = .int n := by
  have hholds := h f hf
  rw [htype] at hholds
  cases hv : r.field f.name with
  | int n => exact ⟨n, rfl⟩
  | _ => simp [hv, FieldType.holds] at hholds

/-- The field as an operand. -/
def Instance.number (r : Instance) (name text : String) : Except Exc PyFloat :=
  (r.field name).operand text

theorem WellFormed.number {fields : List Field} {r : Instance} {name : String}
    (h : WellFormed fields r) (hf : intField name ∈ fields) (text : String) :
    ∃ n : Int, r.number name text = .ok (.fin n) := by
  obtain ⟨n, hn⟩ := h.int hf rfl
  have hn' : r.field name = .int n := hn
  exact ⟨n, by rw [Instance.number, hn']; rfl⟩

/-- The texts of the errors. -/
def Instance.quotientError (r : Instance) (name : String) : String :=
  s!"unsupported operand type(s) for //: '{(r.field name).typeName}' and 'int'"

def Instance.differenceError (r : Instance) (name : String) : String :=
  s!"unsupported operand type(s) for -: 'int' and '{(r.field name).typeName}'"

def Instance.compareError (r : Instance) (name : String) : String :=
  s!"'>=' not supported between instances of '{(r.field name).typeName}' and 'int'"

/-- The fields of `RoundRecord`. -/
def roundFields : List Field :=
  intField "rid" :: ["s1", "s2", "cl", "fexp", "fok", "fu", "ro"].map fun name =>
    { name := name, type := .int, default := some (.int 0) }

/-- `mincond.py`: the records from the epoch before `reward_epoch` on. -/
def mincondFormat (rewardEpoch : Option Int) : Format where
  fields := roundFields
  names_nodup := by decide
  retain r :=
    match rewardEpoch with
    | none => .ok true
    | some e => do
      let rid ← r.number "rid" (r.quotientError "rid")
      return (PyFloat.fin (e - 1 : Int)).le (rid.floorDiv vrsPerRewardEpoch)
  retain_ok r h := by
    cases rewardEpoch with
    | none => exact ⟨true, rfl⟩
    | some e =>
      obtain ⟨n, hn⟩ := h.number List.mem_cons_self (r.quotientError "rid")
      dsimp only
      rw [hn]
      exact ⟨_, rfl⟩
  dedup := some "rid"
  pruneOrder := some "rid"
  prunes := rewardEpoch.isSome
  keys_int name h := by
    have hrid : name = "rid" := by simpa using h
    exact ⟨intField "rid", List.mem_cons_self, hrid.symm, rfl⟩

def tallyFields : List Field := ["rid", "ts", "fr", "ins", "bnd", "pct", "cap"].map intField

/-- `_RETAIN_AGE_SEC` of `iqr_history.py`. -/
def tallyRetainAgeSec : Int := 90000

/-- Whether the tally is of the reward epoch. -/
def ofEpoch (rewardEpoch : Option Int) (r : Instance) : Except Exc Bool :=
  match rewardEpoch with
  | none => .ok false
  | some e => do
    let rid ← r.number "rid" (r.quotientError "rid")
    return decide (rid.floorDiv vrsPerRewardEpoch = .fin e)

/-- `iqr_history.py`: the tallies of the last 25 hours and of the reward epoch. -/
def iqrFormat (nowTs : Int) (rewardEpoch : Option Int) : Format where
  fields := tallyFields
  names_nodup := by decide
  retain r :=
    if nowTs = 0 then ofEpoch rewardEpoch r
    else do
      let ts ← r.number "ts" (r.compareError "ts")
      if (PyFloat.fin (nowTs - tallyRetainAgeSec : Int)).le ts then return true
      else ofEpoch rewardEpoch r
  retain_ok r h := by
    have hepoch : ∃ b, ofEpoch rewardEpoch r = .ok b := by
      cases rewardEpoch with
      | none => exact ⟨false, rfl⟩
      | some e =>
        obtain ⟨n, hn⟩ := h.number List.mem_cons_self (r.quotientError "rid")
        unfold ofEpoch
        dsimp only
        rw [hn]
        exact ⟨_, rfl⟩
    obtain ⟨n, hn⟩ := h.number (show intField "ts" ∈ tallyFields by simp [tallyFields])
      (r.compareError "ts")
    rw [hn]
    by_cases hnow : nowTs = 0
    · rw [if_pos hnow]
      exact hepoch
    · rw [if_neg hnow]
      show ∃ b, (if (PyFloat.fin (nowTs - tallyRetainAgeSec : Int)).le (.fin n) then
        pure true else ofEpoch rewardEpoch r) = .ok b
      split
      · exact ⟨true, rfl⟩
      · exact hepoch
  dedup := some "rid"
  order := some "rid"
  keys_int name h := by
    have hrid : name = "rid" := by simpa using h
    exact ⟨intField "rid", List.mem_cons_self, hrid.symm, rfl⟩

def gapFields : List Field :=
  ["start", "end", "dur", "fails", "from_block", "to_block"].map intField ++
    [{ name := "skipped", type := .bool, default := some (.bool false) }]

/-- `_RETAIN_SEC` of `gaps.py`. -/
def gapRetainSec : Int := 7 * 86400

/-- `gaps.py`: the outages of the last week. -/
def gapsFormat (now : Int) : Format where
  fields := gapFields
  names_nodup := by decide
  retain r := do
    let ended ← r.number "end" (r.differenceError "end")
    return ((PyFloat.fin now).add ended.neg).le (.fin gapRetainSec)
  retain_ok r h := by
    obtain ⟨n, hn⟩ := h.number (show intField "end" ∈ gapFields by simp [gapFields])
      (r.differenceError "end")
    rw [hn]
    exact ⟨_, rfl⟩
  order := some "start"
  keys_int name h := by
    have hstart : name = "start" := by simpa using h
    exact ⟨intField "start", List.mem_cons_self, hstart.symm, rfl⟩

def snapFields : List Field :=
  [intField "ts", intField "epoch", { name := "val_delegated", type := .float },
    intField "val_dels", { name := "ftso_vp", type := .float }]

/-- `_RETAIN_SEC` of `deleg_history.py`. -/
def snapRetainSec : Int := 8 * 86400

/-- `deleg_history.py`: the snapshots of the last eight days. -/
def snapsFormat (now : Int) : Format where
  fields := snapFields
  names_nodup := by decide
  retain r := do
    let ts ← r.number "ts" (r.differenceError "ts")
    return ((PyFloat.fin now).add ts.neg).le (.fin snapRetainSec)
  retain_ok r h := by
    obtain ⟨n, hn⟩ := h.number List.mem_cons_self (r.differenceError "ts")
    rw [hn]
    exact ⟨_, rfl⟩
  order := some "ts"
  keys_int name h := by
    have hts : name = "ts" := by simpa using h
    exact ⟨intField "ts", List.mem_cons_self, hts.symm, rfl⟩

/-! ## What is asked of the ledgers -/

namespace Format

variable (fmt : Format)

def records (lines : List JsonLine) : List Instance := lines.filterMap fmt.record?

def retains (r : Instance) : Bool :=
  match fmt.retain r with
  | .ok b => b
  | .error _ => false

def retained (lines : List JsonLine) : List Instance := (fmt.records lines).filter fmt.retains

/-- The well-formed records that are retained, of each key the last. -/
def wanted (lines : List JsonLine) : List Instance :=
  lastOfEach fmt.same ((fmt.retained lines).filter fun r => WellFormed fmt.fields r)

/-- The loader returns the well-formed records that are retained and no others. -/
def LoadsWell (odd : OddSort) (file : JsonFile) (readFails : Bool) : Prop :=
  ∃ rs, fmt.load odd file readFails = .ok rs ∧
    ∀ lines, file.readText readFails = .ok (some lines) → rs.Perm (fmt.wanted lines)

/-- The records of the file. -/
def recordsOf : JsonFile → List Instance
  | .text lines => fmt.records lines
  | _ => []

/-- The rewriting does not raise, and leaves every record in the file that the loader would have
returned before. -/
def PruneKeeps (odd : OddSort) (file : JsonFile) (readFails : Bool) (write : WriteOutcome) : Prop :=
  (fmt.prune odd file readFails write).1 = .ok () ∧
    ∀ before, fmt.load odd file false = .ok before →
      ∀ r ∈ before, r ∈ fmt.recordsOf (fmt.prune odd file readFails write).2

/-- The lines raise nothing: none is nested too deeply, the values of each record can be compared,
and the key of each retained record has a hash. -/
structure Quiet (lines : List JsonLine) : Prop where
  shallow : .tooDeep ∉ lines
  compared : ∀ r ∈ fmt.records lines, ∃ b, fmt.retain r = .ok b
  hashed : ∀ r ∈ fmt.retained lines, fmt.checkHash r = .ok ()

/-- The lines raise nothing, and of each key the last retained record is well formed. -/
structure Clean (lines : List JsonLine) : Prop extends fmt.Quiet lines where
  typed : ∀ r ∈ lastOfEach fmt.same (fmt.retained lines), WellFormed fmt.fields r

/-- The contents load, and in the order of `loaded`. -/
def LoadsAs (odd : OddSort) (read : Except Exc (Option (List JsonLine))) (loaded : List Instance) :
    Prop :=
  read = .ok none ∧ loaded = [] ∨
    ∃ lines, read = .ok (some lines) ∧ fmt.Quiet lines ∧
      sortedBy odd fmt.order (lastOfEach fmt.same (fmt.retained lines)) = .ok loaded

/-- There are records that the loader would return. -/
def HasRecords (odd : OddSort) (file : JsonFile) : Prop :=
  ∃ loaded, fmt.LoadsAs odd (file.readText false) loaded ∧ loaded ≠ []

/-- What was read and is written is what was there: the read did not fail, and the write reached
every record; or nothing was there. -/
def Reaches (odd : OddSort) (file : JsonFile) (readFails : Bool) (kept : List Instance) :
    WriteOutcome → Prop
  | .notOpened => True
  | .done => readFails = false ∨ ¬ fmt.HasRecords odd file
  | .cut n _ => readFails = false ∧ (∀ r ∈ kept, r ∈ kept.take n) ∨ ¬ fmt.HasRecords odd file

/-- The file is not rewritten at all, or it is with everything that it had. -/
def Rewritten (odd : OddSort) (file : JsonFile) (readFails : Bool) (write : WriteOutcome) : Prop :=
  fmt.prunes = false ∨ ∃ loaded kept, fmt.LoadsAs odd (file.readText readFails) loaded ∧
    sortedBy odd fmt.pruneOrder loaded = .ok kept ∧ fmt.Reaches odd file readFails kept write

end Format

/-! ## Of each key the last -/

section LastOfEach

variable {α : Type} {same : α → α → Bool} {as : List α} {a : α}

theorem lastOfEach_cons : lastOfEach same (a :: as) =
    if as.any (same a) then lastOfEach same as else a :: lastOfEach same as := rfl

theorem lastOfEach_map {β : Type} {f : β → α} {bs : List β} : lastOfEach same (bs.map f) =
    (lastOfEach (fun b b' => same (f b) (f b')) bs).map f := by
  induction bs with
  | nil => rfl
  | cons b bs ih =>
    rw [List.map_cons, lastOfEach_cons, lastOfEach_cons, ih, List.any_map,
      apply_ite (List.map f)]
    rfl

/-- Of each key the last one. -/
theorem mem_lastOfEach {κ : Type} [DecidableEq κ] {key : α → κ} :
    a ∈ lastOfEach (fun a b => decide (key a = key b)) as ↔
      as.reverse.find? (fun b => key b = key a) = some a := by
  induction as with
  | nil => simp [lastOfEach]
  | cons b bs ih =>
    have hnone : bs.any (fun c => decide (key b = key c)) = true ↔
        bs.reverse.find? (fun c => key c = key b) ≠ none := by
      rw [List.any_eq_true, ne_eq, List.find?_eq_none]
      simp [@eq_comm _ (key b)]
    rw [lastOfEach_cons, List.reverse_cons, List.find?_append]
    by_cases hlater : bs.any (fun c => decide (key b = key c)) = true
    · rw [if_pos hlater, ih]
      by_cases hab : key b = key a
      · obtain ⟨c, hc⟩ := Option.ne_none_iff_exists'.mp (hnone.mp hlater)
        rw [← hab, hc]
        rfl
      · simp [hab]
    · have hlast : bs.reverse.find? (fun c => key c = key b) = none := by
        by_contra h
        exact hlater (hnone.mpr h)
      rw [if_neg hlater, List.mem_cons, ih]
      by_cases hab : key b = key a
      · rw [← hab, hlast]
        simp [hab, eq_comm]
      · have hne : a ≠ b := fun h => hab (congrArg key h.symm)
        simp [hab, hne]

theorem mem_of_mem_lastOfEach (h : a ∈ lastOfEach same as) : a ∈ as := by
  induction as with
  | nil => exact h
  | cons b bs ih =>
    unfold lastOfEach at h
    split at h
    · exact List.mem_cons_of_mem _ (ih h)
    · obtain rfl | h := List.mem_cons.mp h
      · exact List.mem_cons_self
      · exact List.mem_cons_of_mem _ (ih h)

/-- A record that is not the last one of its key has the last one after it. -/
theorem exists_last (htrans : ∀ a b c, same a b → same b c → same a c) (h : a ∈ as) :
    a ∈ lastOfEach same as ∨ ∃ b ∈ lastOfEach same as, same a b := by
  induction as generalizing a with
  | nil => cases h
  | cons b bs ih =>
    unfold lastOfEach
    by_cases hlater : bs.any (same b) = true
    · rw [if_pos hlater]
      obtain rfl | h := List.mem_cons.mp h
      · obtain ⟨c, hc, hsame⟩ := List.any_eq_true.mp hlater
        obtain hlast | ⟨d, hd, hsame'⟩ := ih hc
        · exact .inr ⟨c, hlast, hsame⟩
        · exact .inr ⟨d, hd, htrans _ _ _ hsame hsame'⟩
      · exact ih h
    · rw [if_neg hlater]
      obtain rfl | h := List.mem_cons.mp h
      · exact .inl List.mem_cons_self
      · obtain hlast | ⟨d, hd, hsame⟩ := ih h
        · exact .inl (List.mem_cons_of_mem _ hlast)
        · exact .inr ⟨d, List.mem_cons_of_mem _ hd, hsame⟩

/-- Records that are not the last ones of their keys do not matter. -/
theorem lastOfEach_filter {p : α → Bool} (htrans : ∀ a b c, same a b → same b c → same a c)
    (hall : ∀ a ∈ lastOfEach same as, p a) :
    lastOfEach same (as.filter p) = lastOfEach same as := by
  induction as with
  | nil => rfl
  | cons b bs ih =>
    rw [lastOfEach_cons] at hall ⊢
    by_cases hlater : bs.any (same b) = true
    · rw [if_pos hlater] at hall ⊢
      rw [← ih hall]
      by_cases hb : p b = true
      · rw [List.filter_cons_of_pos hb, lastOfEach_cons, if_pos]
        -- the last one of the key is there as well
        obtain ⟨c, hc, hsame⟩ := List.any_eq_true.mp hlater
        obtain ⟨d, hd, hsame'⟩ : ∃ d ∈ lastOfEach same bs, same b d := by
          obtain hlast | ⟨d, hd, hsame'⟩ := exists_last htrans hc
          · exact ⟨c, hlast, hsame⟩
          · exact ⟨d, hd, htrans _ _ _ hsame hsame'⟩
        exact List.any_eq_true.mpr ⟨d, List.mem_filter.mpr ⟨mem_of_mem_lastOfEach hd, hall d hd⟩,
          hsame'⟩
      · rw [List.filter_cons_of_neg hb]
    · rw [if_neg hlater] at hall ⊢
      have hb : p b = true := hall b List.mem_cons_self
      have hnone : ¬ (bs.filter p).any (same b) = true := by
        intro h
        obtain ⟨c, hc, hsame⟩ := List.any_eq_true.mp h
        exact hlater (List.any_eq_true.mpr ⟨c, List.mem_of_mem_filter hc, hsame⟩)
      rw [List.filter_cons_of_pos hb, lastOfEach_cons, if_neg hnone,
        ih fun a ha => hall a (List.mem_cons_of_mem _ ha)]

end LastOfEach

/-! ## The order -/

section Sorting

variable {odd : OddSort} {order : Option String} {rs ss : List Instance}

theorem sortedBy_perm (h : sortedBy odd order rs = .ok ss) : ss.Perm rs := by
  unfold sortedBy at h
  split at h
  · cases h
    exact .refl _
  · split at h
    · cases h
      exact List.perm_insertionSort _ _
    · exact odd.perm _ _ h

/-- Integers can be put in order. -/
theorem sortedBy_ok (h : ∀ name ∈ order, ∀ r ∈ rs, ∃ n, r.field name = .int n) :
    ∃ ss, sortedBy odd order rs = .ok ss := by
  cases order with
  | none => exact ⟨rs, rfl⟩
  | some name =>
    have hordered : ∀ r ∈ rs, Ordered name r := by
      intro r hr
      obtain ⟨n, hn⟩ := h name rfl r hr
      exact ⟨.fin n, by rw [hn]; rfl, by rintro ⟨⟩⟩
    exact ⟨_, if_pos hordered⟩

end Sorting

/-! ## The loader -/

section Loader

variable {fmt : Format} {lines : List JsonLine} {rs : List Instance}

theorem sameKey_trans {u v w : JsonValue} (h : u.sameKey v = true) (h' : v.sameKey w = true) :
    u.sameKey w = true := by
  unfold JsonValue.sameKey at h h' ⊢
  cases hu : u.num? <;> cases hv : v.num? <;> cases hw : w.num? <;> simp_all

theorem Format.same_trans (a b c : Instance) (h : fmt.same a b) (h' : fmt.same b c) :
    fmt.same a c := by
  unfold Format.same at h h' ⊢
  cases hdedup : fmt.dedup with
  | none => simp [hdedup] at h
  | some name =>
    simp only [hdedup] at h h' ⊢
    exact sameKey_trans h h'

/-- What a line asks for so as to raise nothing. -/
def Format.QuietLine (fmt : Format) (line : JsonLine) : Prop :=
  line ≠ .tooDeep ∧ ∀ r, fmt.record? line = some r →
    (∃ b, fmt.retain r = .ok b) ∧ (fmt.retains r → fmt.checkHash r = .ok ())

theorem Format.readLine_eq_ok {line : JsonLine} {r : Option Instance} :
    fmt.readLine line = .ok r ↔ fmt.QuietLine line ∧ r = (fmt.record? line).filter fmt.retains := by
  by_cases hdeep : line = .tooDeep
  · subst hdeep
    refine iff_of_false ?_ fun h => h.1.1 rfl
    rintro ⟨⟩
  cases hrecord : fmt.record? line with
  | none =>
    have hread : fmt.readLine line = .ok none := by
      unfold Format.readLine
      rw [hrecord]
      cases line <;> first | rfl | exact absurd rfl hdeep
    rw [hread]
    constructor
    · rintro ⟨⟩
      exact ⟨⟨hdeep, fun r hr => by rw [hrecord] at hr; cases hr⟩, rfl⟩
    · rintro ⟨-, rfl⟩
      rfl
  | some rec =>
    have hread : fmt.readLine line = (do
        if ← fmt.retain rec then
          fmt.checkHash rec
          return some rec
        else return none) := by
      unfold Format.readLine
      rw [hrecord]
      cases line <;> first | rfl | exact absurd rfl hdeep
    rw [hread, Format.QuietLine]
    simp only [hrecord, Option.some.injEq, forall_eq', Option.filter_some]
    cases hretain : fmt.retain rec with
    | error e =>
      refine iff_of_false ?_ ?_
      · rintro ⟨⟩
      · rintro ⟨⟨-, ⟨b, hb⟩, -⟩, -⟩
        cases hb
    | ok b =>
      have hretains : fmt.retains rec = b := by rw [Format.retains, hretain]
      rw [hretains]
      cases b with
      | false =>
        constructor
        · rintro ⟨⟩
          exact ⟨⟨hdeep, ⟨false, rfl⟩, fun h => (Bool.false_ne_true h).elim⟩, rfl⟩
        · rintro ⟨-, rfl⟩
          rfl
      | true =>
        cases hhash : fmt.checkHash rec with
        | error e =>
          refine iff_of_false ?_ ?_
          · intro h
            simp [bind, Except.bind] at h
          · rintro ⟨⟨-, -, h⟩, -⟩
            cases h rfl
        | ok u =>
          constructor
          · rintro ⟨⟩
            exact ⟨⟨hdeep, ⟨true, rfl⟩, fun _ => rfl⟩, rfl⟩
          · rintro ⟨-, rfl⟩
            rfl

theorem Format.retained_cons {line : JsonLine} : fmt.retained (line :: lines) =
    ((fmt.record? line).filter fmt.retains).toList ++ fmt.retained lines := by
  unfold Format.retained Format.records
  cases hrecord : fmt.record? line with
  | none => simp [hrecord]
  | some r =>
    rw [List.filterMap_cons_some hrecord, Option.filter_some]
    by_cases hr : fmt.retains r = true
    · simp [hr]
    · simp [hr]

theorem Format.quiet_cons {line : JsonLine} :
    fmt.Quiet (line :: lines) ↔ fmt.QuietLine line ∧ fmt.Quiet lines := by
  have hmem : ∀ r, r ∈ fmt.records (line :: lines) ↔
      fmt.record? line = some r ∨ r ∈ fmt.records lines := by
    intro r
    simp [Format.records, List.mem_filterMap]
  have hmem' : ∀ {ls : List JsonLine} {r : Instance}, r ∈ fmt.retained ls ↔
      r ∈ fmt.records ls ∧ fmt.retains r = true := List.mem_filter
  constructor
  · rintro ⟨hshallow, hcompared, hhashed⟩
    rw [List.mem_cons, not_or] at hshallow
    refine ⟨⟨Ne.symm hshallow.1, fun r hr => ⟨hcompared r ((hmem r).mpr (.inl hr)), fun hretains =>
      hhashed r (hmem'.mpr ⟨(hmem r).mpr (.inl hr), hretains⟩)⟩⟩, hshallow.2,
      fun r hr => hcompared r ((hmem r).mpr (.inr hr)), fun r hr => ?_⟩
    obtain ⟨hr, hretains⟩ := hmem'.mp hr
    exact hhashed r (hmem'.mpr ⟨(hmem r).mpr (.inr hr), hretains⟩)
  · rintro ⟨⟨hdeep, hline⟩, hshallow, hcompared, hhashed⟩
    refine ⟨?_, fun r hr => ?_, fun r hr => ?_⟩
    · rw [List.mem_cons, not_or]
      exact ⟨Ne.symm hdeep, hshallow⟩
    · obtain hr | hr := (hmem r).mp hr
      · exact (hline r hr).1
      · exact hcompared r hr
    · obtain ⟨hr, hretains⟩ := hmem'.mp hr
      obtain hr | hr := (hmem r).mp hr
      · exact (hline r hr).2 hretains
      · exact hhashed r (hmem'.mpr ⟨hr, hretains⟩)

/-- The lines raise nothing exactly if they are quiet, and then the retained records are read. -/
theorem Format.readLines_eq_ok : fmt.readLines lines = .ok rs ↔
    fmt.Quiet lines ∧ rs = fmt.retained lines := by
  induction lines generalizing rs with
  | nil =>
    have hquiet : fmt.Quiet [] := ⟨List.not_mem_nil, by rintro r ⟨⟩, by rintro r ⟨⟩⟩
    constructor
    · rintro ⟨⟩
      exact ⟨hquiet, rfl⟩
    · rintro ⟨-, rfl⟩
      rfl
  | cons line lines ih =>
    have hcons : fmt.readLines (line :: lines) = .ok rs ↔ ∃ r rest,
        fmt.readLine line = .ok r ∧ fmt.readLines lines = .ok rest ∧ rs = r.toList ++ rest := by
      rw [Format.readLines]
      cases fmt.readLine line with
      | error e => simp [bind, Except.bind]
      | ok r =>
        cases fmt.readLines lines with
        | error e => simp [bind, Except.bind]
        | ok rest => simp [bind, Except.bind, pure, Except.pure, eq_comm]
    rw [hcons, Format.quiet_cons, Format.retained_cons]
    constructor
    · rintro ⟨r, rest, hline, hlines, rfl⟩
      obtain ⟨hquiet, rfl⟩ := Format.readLine_eq_ok.mp hline
      obtain ⟨hquiet', rfl⟩ := ih.mp hlines
      exact ⟨⟨hquiet, hquiet'⟩, rfl⟩
    · rintro ⟨⟨hquiet, hquiet'⟩, rfl⟩
      exact ⟨_, _, Format.readLine_eq_ok.mpr ⟨hquiet, rfl⟩, ih.mpr ⟨hquiet', rfl⟩, rfl⟩

/-- When the loader returns, and what. -/
theorem Format.load_eq_ok {odd : OddSort} {file : JsonFile} {readFails : Bool} :
    fmt.load odd file readFails = .ok rs ↔ fmt.LoadsAs odd (file.readText readFails) rs := by
  unfold Format.load Format.LoadsAs
  cases file.readText readFails with
  | error e => simp [bind, Except.bind]
  | ok read =>
    cases read with
    | none => simp [bind, Except.bind, pure, Except.pure, eq_comm]
    | some lines =>
      simp only [bind, Except.bind, Except.ok.injEq, reduceCtorEq, false_and, false_or,
        Option.some.injEq]
      cases hread : fmt.readLines lines with
      | error e =>
        refine iff_of_false (by rintro ⟨⟩) ?_
        rintro ⟨_, rfl, hquiet, -⟩
        rw [Format.readLines_eq_ok.mpr ⟨hquiet, rfl⟩] at hread
        cases hread
      | ok found =>
        obtain ⟨hquiet, rfl⟩ := Format.readLines_eq_ok.mp hread
        constructor
        · intro h
          exact ⟨lines, rfl, hquiet, h⟩
        · rintro ⟨_, rfl, -, h⟩
          exact h

/-- The keys of well-formed records are integers. -/
theorem Format.key_int {name : String} {r : Instance} (h : WellFormed fmt.fields r)
    (hname : name ∈ fmt.dedup.toList ++ fmt.order.toList ++ fmt.pruneOrder.toList) :
    ∃ n, r.field name = .int n := by
  obtain ⟨f, hf, rfl, htype⟩ := fmt.keys_int name hname
  exact h.int hf htype

/-- The loader keeps its promise on what cannot be read and on clean lines. -/
theorem Format.loadsWell_iff {odd : OddSort} {file : JsonFile} {readFails : Bool} :
    fmt.LoadsWell odd file readFails ↔ file.readText readFails = .ok none ∨
      ∃ lines, file.readText readFails = .ok (some lines) ∧ fmt.Clean lines := by
  unfold Format.LoadsWell
  simp only [Format.load_eq_ok]
  constructor
  · rintro ⟨rs, ⟨hnone, -⟩ | ⟨lines, hread, hquiet, hsorted⟩, hwanted⟩
    · exact .inl hnone
    · refine .inr ⟨lines, hread, hquiet, fun r hr => ?_⟩
      have hrs : r ∈ rs := (sortedBy_perm hsorted).mem_iff.mpr hr
      have hmem := mem_of_mem_lastOfEach ((hwanted lines hread).mem_iff.mp hrs)
      exact of_decide_eq_true (List.mem_filter.mp hmem).2
  · rintro (hnone | ⟨lines, hread, hquiet, htyped⟩)
    · refine ⟨[], .inl ⟨hnone, rfl⟩, fun lines hread => ?_⟩
      rw [hnone] at hread
      cases hread
    · have hwanted : fmt.wanted lines = lastOfEach fmt.same (fmt.retained lines) :=
        lastOfEach_filter Format.same_trans fun r hr => decide_eq_true (htyped r hr)
      obtain ⟨rs, hrs⟩ := @sortedBy_ok odd fmt.order (lastOfEach fmt.same (fmt.retained lines))
        fun name hname r hr => Format.key_int (htyped r hr) (by simp [Option.mem_toList.mpr hname])
      refine ⟨rs, .inr ⟨lines, hread, hquiet, hrs⟩, fun lines' hread' => ?_⟩
      rw [hread] at hread'
      cases hread'
      rw [hwanted]
      exact sortedBy_perm hrs

/-! ## The rewriting -/

theorem lookup_map {fields : List Field} {f : Field} {v : Field → JsonValue}
    (hnodup : (fields.map Field.name).Nodup) (hf : f ∈ fields) :
    (fields.map fun f => (f.name, v f)).lookup f.name = some (v f) := by
  induction fields with
  | nil => cases hf
  | cons g gs ih =>
    rw [List.map_cons, List.nodup_cons] at hnodup
    rw [List.map_cons, List.lookup_cons]
    obtain rfl | hf := List.mem_cons.mp hf
    · simp
    · have hne : (f.name == g.name) = false := by
        rw [beq_eq_false_iff_ne]
        intro heq
        exact hnodup.1 (heq ▸ List.mem_map_of_mem hf)
      rw [hne]
      exact ih hnodup.2 hf

/-- A record that was written is read again. -/
theorem Format.build_self {members : List (String × JsonValue)} {r : Instance}
    (h : fmt.build members = some r) : fmt.build r = some r := by
  unfold Format.build at h
  split at h
  · obtain rfl := Option.some.inj h
    unfold Format.build
    rw [if_pos]
    · refine congrArg some (List.map_congr_left fun f hf => ?_)
      rw [lookup_map fmt.names_nodup hf]
      rfl
    · refine ⟨fun x hx => ?_, fun f hf => .inr ?_⟩
      · obtain ⟨f, hf, rfl⟩ := List.mem_map.mp hx
        exact List.mem_map_of_mem hf
      · rw [List.map_map]
        exact List.mem_map_of_mem hf
  · cases h

theorem Format.records_object {kept : List Instance}
    (h : ∀ r ∈ kept, ∃ lines, r ∈ fmt.records lines) : fmt.records (kept.map .object) = kept := by
  unfold Format.records
  rw [List.filterMap_map]
  refine (List.filterMap_congr fun r hr => ?_).trans List.filterMap_some
  obtain ⟨lines, hlines⟩ := h r hr
  obtain ⟨line, -, hline⟩ := List.mem_filterMap.mp hlines
  cases line with
  | object members => exact Format.build_self hline
  | _ => cases hline

section Prune

variable {odd : OddSort} {file : JsonFile} {readFails : Bool} {write : WriteOutcome}
  {loaded kept : List Instance}

/-- What is loaded is in the file. -/
theorem Format.LoadsAs.mem_recordsOf (h : fmt.LoadsAs odd (file.readText readFails) loaded)
    {r : Instance} (hr : r ∈ loaded) : r ∈ fmt.recordsOf file := by
  obtain ⟨-, rfl⟩ | ⟨lines, hread, -, hsorted⟩ := h
  · cases hr
  · have hmem := mem_of_mem_lastOfEach ((sortedBy_perm hsorted).mem_iff.mp hr)
    cases file with
    | absent => cases hread
    | undecodable =>
      cases readFails with
      | true => cases hread
      | false => cases hread
    | text lines' =>
      cases readFails with
      | true => cases hread
      | false =>
        cases hread
        exact List.mem_of_mem_filter hmem

/-- A read that does not fail has read what was there. -/
theorem Format.LoadsAs.unique {before : List Instance}
    (h : fmt.LoadsAs odd (file.readText readFails) loaded)
    (h' : fmt.LoadsAs odd (file.readText false) before) (hread : readFails = false) :
    before = loaded := by
  rw [hread] at h
  exact Except.ok.inj ((Format.load_eq_ok.mpr h').symm.trans (Format.load_eq_ok.mpr h))

/-- Of a read that fails there is nothing to write. -/
theorem Format.LoadsAs.nil (h : fmt.LoadsAs odd (file.readText true) loaded) : loaded = [] := by
  obtain ⟨-, hnil⟩ | ⟨lines, hread, -⟩ := h
  · exact hnil
  · cases file <;> cases hread

/-- The file after a write that truncated it has the records that were written. -/
theorem Format.recordsOf_text (hload : fmt.LoadsAs odd (file.readText readFails) loaded)
    (hsort : sortedBy odd fmt.pruneOrder loaded = .ok kept) {n : Nat} {rest : List JsonLine}
    (hrest : rest = [] ∨ rest = [.notJson]) :
    fmt.recordsOf (.text ((kept.take n).map .object ++ rest)) = kept.take n := by
  have hrecords : fmt.records ((kept.take n).map .object) = kept.take n := by
    refine Format.records_object fun r hr => ?_
    have hmem := hload.mem_recordsOf ((sortedBy_perm hsort).mem_iff.mp (List.mem_of_mem_take hr))
    cases file with
    | text lines => exact ⟨lines, hmem⟩
    | _ => cases hmem
  show fmt.records _ = _
  unfold Format.records at hrecords ⊢
  rw [List.filterMap_append, hrecords]
  obtain rfl | rfl := hrest
  · simp
  · simp [Format.record?]

/-- Everything that was there has been written. -/
theorem Format.keeps_iff (hload : fmt.LoadsAs odd (file.readText readFails) loaded)
    (hsort : sortedBy odd fmt.pruneOrder loaded = .ok kept) {n : Nat} :
    (∀ before, fmt.LoadsAs odd (file.readText false) before → ∀ r ∈ before, r ∈ kept.take n) ↔
      readFails = false ∧ (∀ r ∈ kept, r ∈ kept.take n) ∨ ¬ fmt.HasRecords odd file := by
  have hnothing : ¬ fmt.HasRecords odd file → ∀ before,
      fmt.LoadsAs odd (file.readText false) before → before = [] := by
    intro h before hbefore
    by_contra hne
    exact h ⟨before, hbefore, hne⟩
  constructor
  · intro h
    cases readFails with
    | false =>
      refine .inl ⟨rfl, fun r hr => h loaded hload r ?_⟩
      exact (sortedBy_perm hsort).mem_iff.mp hr
    | true =>
      refine .inr ?_
      rintro ⟨before, hbefore, hne⟩
      obtain rfl := hload.nil
      obtain rfl := (sortedBy_perm hsort).eq_nil
      obtain ⟨r, hr⟩ := List.exists_mem_of_ne_nil before hne
      have hmem := h before hbefore r hr
      simp at hmem
  · rintro (⟨hread, h⟩ | h) before hbefore r hr
    · rw [hload.unique hbefore hread] at hr
      exact h r ((sortedBy_perm hsort).mem_iff.mpr hr)
    · rw [hnothing h before hbefore] at hr
      cases hr

/-- The rewriting keeps its promise if the file is left alone, or written with everything that it
had. -/
theorem Format.pruneKeeps_iff :
    fmt.PruneKeeps odd file readFails write ↔ fmt.Rewritten odd file readFails write := by
  unfold Format.PruneKeeps Format.Rewritten
  simp only [Format.load_eq_ok]
  by_cases hprunes : fmt.prunes = true
  swap
  · rw [Bool.not_eq_true] at hprunes
    have hprune : fmt.prune odd file readFails write = (.ok (), file) := by
      unfold Format.prune
      rw [hprunes]
      rfl
    rw [hprune]
    exact iff_of_true ⟨rfl, fun before hbefore r hr => hbefore.mem_recordsOf hr⟩ (.inl hprunes)
  have hprune : fmt.prune odd file readFails write =
      match fmt.load odd file readFails >>= sortedBy odd fmt.pruneOrder with
      | .error e => (.error e, file)
      | .ok kept =>
        match write with
        | .done => (.ok (), .text (kept.map .object))
        | .notOpened => (.ok (), file)
        | .cut n torn =>
          (.ok (), .text ((kept.take n).map .object ++ if torn then [.notJson] else [])) := by
    unfold Format.prune
    rw [hprunes]
    rfl
  cases hkept : fmt.load odd file readFails >>= sortedBy odd fmt.pruneOrder with
  | error e =>
    rw [hprune, hkept]
    refine iff_of_false (by rintro ⟨⟨⟩, -⟩) ?_
    rintro (hoff | ⟨loaded, kept, hload, hsort, -⟩)
    · rw [hprunes] at hoff
      cases hoff
    · rw [Format.load_eq_ok.mpr hload] at hkept
      cases hsort.symm.trans hkept
  | ok kept =>
    obtain ⟨loaded, hload, hsort⟩ : ∃ loaded, fmt.LoadsAs odd (file.readText readFails) loaded ∧
        sortedBy odd fmt.pruneOrder loaded = .ok kept := by
      cases hload : fmt.load odd file readFails with
      | error e =>
        rw [hload] at hkept
        cases hkept
      | ok loaded =>
        rw [hload] at hkept
        exact ⟨loaded, Format.load_eq_ok.mp hload, hkept⟩
    -- there is one load, and one order of it
    have hreaches : (fmt.prunes = false ∨ ∃ loaded kept,
        fmt.LoadsAs odd (file.readText readFails) loaded ∧
        sortedBy odd fmt.pruneOrder loaded = .ok kept ∧
        fmt.Reaches odd file readFails kept write) ↔ fmt.Reaches odd file readFails kept write := by
      constructor
      · rintro (hoff | ⟨loaded', kept', hload', hsort', h⟩)
        · rw [hprunes] at hoff
          cases hoff
        · rw [← Format.load_eq_ok] at hload hload'
          obtain rfl := Except.ok.inj (hload.symm.trans hload')
          obtain rfl := Except.ok.inj (hsort.symm.trans hsort')
          exact h
      · exact fun h => .inr ⟨loaded, kept, hload, hsort, h⟩
    rw [hreaches, hprune, hkept]
    cases write with
    | notOpened =>
      exact iff_of_true ⟨rfl, fun before hbefore r hr => hbefore.mem_recordsOf hr⟩ trivial
    | done =>
      have hrecords := Format.recordsOf_text hload hsort (n := kept.length) (.inl rfl)
      have hiff := Format.keeps_iff hload hsort (n := kept.length)
      rw [List.append_nil, List.take_length] at hrecords
      rw [List.take_length] at hiff
      show _ ∧ (∀ before, _ → ∀ r ∈ before, r ∈ fmt.recordsOf (.text (kept.map .object))) ↔ _
      rw [hrecords, and_iff_right rfl, hiff]
      simp [Format.Reaches]
    | cut n torn =>
      have hrest : (if torn then [JsonLine.notJson] else []) = [] ∨
          (if torn then [JsonLine.notJson] else []) = [.notJson] := by
        cases torn <;> simp
      have hrecords := Format.recordsOf_text hload hsort (n := n) hrest
      show _ ∧ (∀ before, _ → ∀ r ∈ before, r ∈ fmt.recordsOf (.text (_ ++ _))) ↔ _
      rw [hrecords, and_iff_right rfl, Format.keeps_iff hload hsort]
      rfl

end Prune

end Loader

/-! ## The four ledgers -/

inductive JsonlLedger where
  | mincond (rewardEpoch : Option Int)
  | iqr (nowTs : Int) (rewardEpoch : Option Int)
  | gaps (now : Int)
  | snaps (now : Int)

def JsonlLedger.format : JsonlLedger → Format
  | .mincond rewardEpoch => mincondFormat rewardEpoch
  | .iqr nowTs rewardEpoch => iqrFormat nowTs rewardEpoch
  | .gaps now => gapsFormat now
  | .snaps now => snapsFormat now

/-- On which contents a ledger loads well, and on which contents and after which failures it is
rewritten without a loss. -/
theorem jsonl_iff (ledger : JsonlLedger) (odd : OddSort) (file : JsonFile) (readFails : Bool)
    (write : WriteOutcome) :
    (ledger.format.LoadsWell odd file readFails ↔ file.readText readFails = .ok none ∨
      ∃ lines, file.readText readFails = .ok (some lines) ∧ ledger.format.Clean lines) ∧
    (ledger.format.PruneKeeps odd file readFails write ↔
      ledger.format.Rewritten odd file readFails write) :=
  ⟨Format.loadsWell_iff, Format.pruneKeeps_iff⟩

/-! ## The rounds, as the engine writes them -/

/-- `asdict` of a record. -/
def RoundRecord.members (r : RoundRecord) : Instance :=
  [("rid", .int r.rid), ("s1", .int r.s1), ("s2", .int r.s2), ("cl", .int r.cl),
    ("fexp", .int r.fexp), ("fok", .int r.fok), ("fu", .int r.fu), ("ro", .int r.ro)]

/-- Its line. -/
def RoundRecord.line (r : RoundRecord) : JsonLine := .object r.members

section Rounds

variable {rewardEpoch : Option Int} {odd : OddSort} {file : List RoundRecord} {r s : RoundRecord}

theorem RoundRecord.build_members :
    (mincondFormat rewardEpoch).build r.members = some r.members := by
  unfold Format.build
  rw [if_pos]
  · rfl
  · have hnames : ∀ n ∈ r.members.map Prod.fst, n ∈ roundFields.map Field.name := by
      show ∀ n ∈ ["rid", "s1", "s2", "cl", "fexp", "fok", "fu", "ro"], _
      decide
    have hall : ∀ f ∈ roundFields, f.default.isSome ∨
        f.name ∈ ["rid", "s1", "s2", "cl", "fexp", "fok", "fu", "ro"] := by
      decide
    exact ⟨fun x hx => hnames x.1 (List.mem_map_of_mem hx), hall⟩

/-- The epoch of a round, in floats. -/
theorem floorDiv_epoch (rid : Int) :
    (PyFloat.fin rid).floorDiv vrsPerRewardEpoch = .fin (epochOf rid) := by
  have hfloor := Rat.floor_intCast_div_natCast rid 3360
  unfold PyFloat.floorDiv epochOf vrsPerRewardEpoch
  dsimp only
  rw [show ((3360 : Int) : ℚ) = ((3360 : ℕ) : ℚ) by norm_num, hfloor]
  norm_num

theorem RoundRecord.retain_members :
    (mincondFormat rewardEpoch).retain r.members = .ok (retained rewardEpoch r.rid) := by
  cases rewardEpoch with
  | none => rfl
  | some e =>
    show Except.ok ((PyFloat.fin (e - 1 : Int)).le
      ((PyFloat.fin r.rid).floorDiv vrsPerRewardEpoch)) = _
    rw [floorDiv_epoch]
    simp only [PyFloat.le, retained, Rat.intCast_le_intCast]

theorem RoundRecord.readLine_line : (mincondFormat rewardEpoch).readLine r.line =
    .ok (if retained rewardEpoch r.rid then some r.members else none) := by
  unfold Format.readLine
  rw [show (mincondFormat rewardEpoch).record? r.line = some r.members from build_members]
  show (do
    if ← (mincondFormat rewardEpoch).retain r.members then
      (mincondFormat rewardEpoch).checkHash r.members
      return some r.members
    else return none) = _
  rw [retain_members]
  cases retained rewardEpoch r.rid with
  | true => rfl
  | false => rfl

theorem readLines_line : (mincondFormat rewardEpoch).readLines (file.map RoundRecord.line) =
    .ok ((file.filter fun r => retained rewardEpoch r.rid).map RoundRecord.members) := by
  induction file with
  | nil => rfl
  | cons r file ih =>
    rw [List.map_cons, Format.readLines, RoundRecord.readLine_line, ih, List.filter_cons]
    cases retained rewardEpoch r.rid with
    | true => rfl
    | false => rfl

theorem RoundRecord.same_members :
    (mincondFormat rewardEpoch).same r.members s.members = decide (r.rid = s.rid) := by
  show decide (PyFloat.fin r.rid = PyFloat.fin s.rid) = _
  simp

/-- The loader takes the lines of records for the last one of each round. -/
theorem load_line : (mincondFormat rewardEpoch).load odd (.text (file.map RoundRecord.line)) false =
    .ok ((lastOfEach (fun r s => decide (r.rid = s.rid))
      (file.filter fun r => retained rewardEpoch r.rid)).map RoundRecord.members) := by
  show (do
    let rs ← (mincondFormat rewardEpoch).readLines (file.map RoundRecord.line)
    sortedBy odd none (lastOfEach (mincondFormat rewardEpoch).same rs)) = _
  rw [readLines_line]
  show Except.ok _ = _
  rw [lastOfEach_map]
  congr 4
  funext r s
  exact RoundRecord.same_members

end Rounds

/-! ### A text for a round, and a read that fails -/

/-- `sorted` always raises. -/
def raisingSort : OddSort where
  sort _ := .error (.other "TypeError" "'<' not supported between instances of 'str' and 'int'")
  perm _ _ h := by cases h

/-- A round whose id is the text `17`. -/
def textRound : JsonFile := .text [.object [("rid", .str "17")]]

/-- A round of the epoch 1. -/
def goodRound : JsonFile := .text [.object [("rid", .int 3360), ("s1", .int 1), ("s2", .int 1)]]

/-- The ledger of the rounds does not load where a round has a text for its id, and a rewriting that
cannot read it leaves nothing of it. -/
theorem textRound_raises :
    (JsonlLedger.mincond (some 1)).format.load raisingSort textRound false =
      .error (.other "TypeError" "unsupported operand type(s) for //: 'str' and 'int'") ∧
    ¬ (JsonlLedger.mincond (some 1)).format.LoadsWell raisingSort textRound false ∧
    (JsonlLedger.mincond (some 1)).format.prune raisingSort goodRound true .done =
      (.ok (), .text []) ∧
    ¬ (JsonlLedger.mincond (some 1)).format.PruneKeeps raisingSort goodRound true .done := by
  have hload : (JsonlLedger.mincond (some 1)).format.load raisingSort textRound false =
      .error (.other "TypeError" "unsupported operand type(s) for //: 'str' and 'int'") := by
    decide +kernel
  have hprune : (JsonlLedger.mincond (some 1)).format.prune raisingSort goodRound true .done =
      (.ok (), .text []) := by
    decide +kernel
  refine ⟨hload, ?_, hprune, ?_⟩
  · rintro ⟨rs, hok, -⟩
    rw [hload] at hok
    cases hok
  · rintro ⟨-, hkeeps⟩
    have hbefore : ∃ r, (JsonlLedger.mincond (some 1)).format.load raisingSort goodRound false =
        .ok [r] := by
      refine ⟨[("rid", .int 3360), ("s1", .int 1), ("s2", .int 1), ("cl", .int 0),
        ("fexp", .int 0), ("fok", .int 0), ("fu", .int 0), ("ro", .int 0)], ?_⟩
      decide +kernel
    obtain ⟨r, hr⟩ := hbefore
    have hmem := hkeeps [r] hr r (List.mem_singleton_self r)
    rw [hprune] at hmem
    cases hmem

end Observe

end Clif
