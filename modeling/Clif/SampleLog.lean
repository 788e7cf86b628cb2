import Mathlib.Data.List.Sort

/-!
# SampleLog — a file of samples that forgets the old ones

Each sample is appended with its time, and the file is now and then rewritten with the recent ones.
Where nothing is lost, the recent samples of the file are those of the whole log (`Mirrors`); where
writes fail, it still holds nothing but samples of the log, in their order (`PartOf`).
-/

namespace SampleLog

variable {α : Type} (ts : α → Int) (keep : Int)

/-- The samples that are not older than `keep`. -/
def recent (now : Int) (l : List α) : List α := l.filter fun a => decide (now - ts a ≤ keep)

/-- What is loaded: the recent samples, by their times. -/
def load (now : Int) (l : List α) : List α :=
  (recent ts keep now l).insertionSort fun a b => ts a ≤ ts b

/-- A file holds a part of a log, which is in order and ends before `t`. -/
structure PartOf (t : Int) (file log : List α) : Prop where
  sublist : file.Sublist log
  ordered : log.Pairwise fun a b => ts a ≤ ts b
  past : ∀ a ∈ log, ts a ≤ t

/-- Nothing is lost that is recent now or later. -/
def Mirrors (t : Int) (file log : List α) : Prop :=
  ∀ now, t ≤ now → recent ts keep now file = recent ts keep now log

section

variable {ts keep} {t t' now : Int} {file file' log : List α} {a : α}

theorem mem_recent : a ∈ recent ts keep now file ↔ a ∈ file ∧ now - ts a ≤ keep := by
  simp [recent]

theorem recent_append : recent ts keep now (file ++ file') =
    recent ts keep now file ++ recent ts keep now file' :=
  List.filter_append ..

/-- What is recent later is recent now. -/
theorem recent_recent (h : t ≤ now) :
    recent ts keep now (recent ts keep t file) = recent ts keep now file := by
  unfold recent
  rw [List.filter_filter]
  refine List.filter_congr fun a _ => ?_
  by_cases hnow : now - ts a ≤ keep
  · simp [hnow, show t - ts a ≤ keep by omega]
  · simp [hnow]

/-! ### Parts of a log -/

theorem PartOf.empty : PartOf ts t ([] : List α) [] := ⟨.refl [], .nil, by simp⟩

/-- What is loaded from a part of a log needs no sorting. -/
theorem PartOf.load_eq (h : PartOf ts t file log) :
    load ts keep now file = recent ts keep now file :=
  List.Pairwise.insertionSort_eq
    ((h.ordered.sublist h.sublist).sublist List.filter_sublist)

theorem PartOf.later (h : PartOf ts t file log) (ht : t ≤ t') : PartOf ts t' file log :=
  ⟨h.sublist, h.ordered, fun a ha => (h.past a ha).trans ht⟩

/-- Something is lost. -/
theorem PartOf.lose (h : PartOf ts t file log) (hfile : file'.Sublist file) :
    PartOf ts t file' log :=
  ⟨hfile.trans h.sublist, h.ordered, h.past⟩

theorem PartOf.append (h : PartOf ts t file log) (ht : t ≤ ts a) :
    PartOf ts (ts a) (file ++ [a]) (log ++ [a]) where
  sublist := h.sublist.append_right [a]
  ordered := by
    refine List.pairwise_append.mpr ⟨h.ordered, List.pairwise_singleton .., fun b hb c hc => ?_⟩
    rw [List.mem_singleton.mp hc]
    exact (h.past b hb).trans ht
  past b hb := by
    rcases List.mem_append.mp hb with hb | hb
    · exact (h.past b hb).trans ht
    · rw [List.mem_singleton.mp hb]

/-! ### A log that nothing is lost of -/

theorem Mirrors.empty : Mirrors ts keep t ([] : List α) [] := fun _ _ => rfl

theorem Mirrors.later (h : Mirrors ts keep t file log) (ht : t ≤ t') :
    Mirrors ts keep t' file log :=
  fun now hnow => h now (ht.trans hnow)

theorem Mirrors.append (h : Mirrors ts keep t file log) (ht : t ≤ t') :
    Mirrors ts keep t' (file ++ [a]) (log ++ [a]) := by
  intro now hnow
  rw [recent_append, recent_append, h now (ht.trans hnow)]

theorem Mirrors.rewrite (h : Mirrors ts keep t file log) (hpart : PartOf ts t file log) :
    Mirrors ts keep t (load ts keep t file) log := by
  intro now hnow
  rw [hpart.load_eq, recent_recent hnow, h now hnow]

/-- What is loaded are the recent samples of the log. -/
theorem Mirrors.load_eq (h : Mirrors ts keep t file log) (hpart : PartOf ts t file log)
    (hnow : t ≤ now) : load ts keep now file = recent ts keep now log := by
  rw [hpart.load_eq, h now hnow]

end

end SampleLog
