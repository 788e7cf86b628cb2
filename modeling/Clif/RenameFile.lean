import Mathlib.Logic.Function.Basic
import Mathlib.Data.List.Basic
import Clif.Effect.Interleave
import Clif.Effect.Run

/-!
# RenameFile — a file that is replaced as a whole, by a rename over its name

A writer puts its document into a temporary file and renames that over the name; a reader opens the
name, and reads what it opened.  `read_whole`: however many writers and readers take turns, wherever
any of them stops and whatever fails, a reader gets the whole document of the last rename before it
opened.
-/

namespace RenameFile

open Effect

variable {α ε : Type}

/-! ## The disk -/

/-- Files are numbered; a temporary file has a name of its own. -/
structure Disk (α : Type) where
  /-- The file that the name leads to. -/
  path : Option Nat
  temp : Nat → Bool
  /-- No file has this number yet. -/
  fresh : Nat
  content : Nat → List α

def Disk.empty : Disk α := ⟨none, fun _ => false, 0, fun _ => []⟩

inductive FileOp (α : Type) where
  | mkdir
  | mkstemp
  | write (file : Nat) (piece : α)
  | close (file : Nat)
  | replace (file : Nat)
  | isThere (file : Nat)
  | unlink (file : Nat)
  | openPath
  | read (file : Nat)

@[reducible] def FileOp.Ans (ε : Type) : FileOp α → Type
  | .mkdir => Except ε Unit
  | .mkstemp => Except ε Nat
  | .write _ _ => Except ε Unit
  | .close _ => Except ε Unit
  | .replace _ => Except ε Unit
  | .isThere _ => Bool
  | .unlink _ => Except ε Unit
  | .openPath => Except ε Nat
  | .read _ => Except ε (List α)

@[reducible] def fileSig (α ε : Type) : Sig := ⟨FileOp α, FileOp.Ans ε⟩

/-- What an exchange makes of the disk.  A write that fails may have brought anything to its
file. -/
inductive Disk.Step : Disk α → Event (fileSig α ε) → Disk α → Prop
  | mkdir {d : Disk α} {r : Except ε Unit} : Step d ⟨.mkdir, r⟩ d
  | mkstemp {d : Disk α} : Step d ⟨.mkstemp, .ok d.fresh⟩
      { d with
        temp := Function.update d.temp d.fresh true
        fresh := d.fresh + 1
        content := Function.update d.content d.fresh [] }
  | noTemp {d : Disk α} {e : ε} : Step d ⟨.mkstemp, .error e⟩ d
  | write {d : Disk α} {file : Nat} {piece : α} : Step d ⟨.write file piece, .ok ()⟩
      { d with content := Function.update d.content file (d.content file ++ [piece]) }
  | torn {d : Disk α} {file : Nat} {piece : α} {e : ε} {junk : List α} :
      Step d ⟨.write file piece, .error e⟩
        { d with content := Function.update d.content file (d.content file ++ junk) }
  | close {d : Disk α} {file : Nat} {r : Except ε Unit} : Step d ⟨.close file, r⟩ d
  | replace {d : Disk α} {file : Nat} : Step d ⟨.replace file, .ok ()⟩
      { d with
        path := some file
        temp := Function.update d.temp file false }
  | notReplaced {d : Disk α} {file : Nat} {e : ε} : Step d ⟨.replace file, .error e⟩ d
  | isThere {d : Disk α} {file : Nat} : Step d ⟨.isThere file, d.temp file⟩ d
  | unlink {d : Disk α} {file : Nat} : Step d ⟨.unlink file, .ok ()⟩
      { d with temp := Function.update d.temp file false }
  | notUnlinked {d : Disk α} {file : Nat} {e : ε} : Step d ⟨.unlink file, .error e⟩ d
  | openPath {d : Disk α} {file : Nat} (h : d.path = some file) : Step d ⟨.openPath, .ok file⟩ d
  | notOpened {d : Disk α} {e : ε} : Step d ⟨.openPath, .error e⟩ d
  | read {d : Disk α} {file : Nat} : Step d ⟨.read file, .ok (d.content file)⟩ d
  | notRead {d : Disk α} {file : Nat} {e : ε} : Step d ⟨.read file, .error e⟩ d

/-! ## The programs -/

/-- An operation that may raise. -/
def attemptOp {β : Type} (op : FileOp α) (f : op.Ans ε → Except ε β) : Act (fileSig α ε) ε β := do
  let r ← ask (S := fileSig α ε) op
  fromExcept (f r)

def writeAll (file : Nat) : List α → Act (fileSig α ε) ε Unit
  | [] => pure ()
  | piece :: rest => do
    attemptOp (.write file piece) id
    writeAll file rest

/-- Fill the file, close it, and rename it over the name. -/
def fill (file : Nat) (doc : List α) : Act (fileSig α ε) ε Unit := do
  let written ← attempt (writeAll file doc)
  attemptOp (.close file) id
  fromExcept written
  attemptOp (.replace file) id

/-- The temporary name is removed if it is still there. -/
def tidy (file : Nat) (filled : Except ε Unit) : Act (fileSig α ε) ε Unit := do
  let left ← ask (S := fileSig α ε) (.isThere file)
  if left then attemptOp (.unlink file) id else pure ()
  fromExcept filled

/-- Put a document in the place of the file. -/
def publish (doc : List α) : Act (fileSig α ε) ε Unit := do
  attemptOp .mkdir id
  let file ← attemptOp .mkstemp id
  let filled ← attempt (fill file doc)
  tidy file filled

/-- Open the name and read what it leads to. -/
def readPath : Act (fileSig α ε) ε (List α) := do
  let file ← attemptOp .openPath id
  attemptOp (.read file) id

/-! ## What a writer does -/

abbrev FileTrace (α ε : Type) := List (Event (fileSig α ε))

/-- The piece that the exchange wrote. -/
def pieceOf : Event (fileSig α ε) → Option α
  | ⟨.write _ piece, .ok _⟩ => some piece
  | _ => none

def written (t : FileTrace α ε) : List α := t.filterMap pieceOf

/-- The trace made the temporary file. -/
def Made (t : FileTrace α ε) (file : Nat) : Prop :=
  (⟨.mkstemp, .ok file⟩ : Event (fileSig α ε)) ∈ t

/-- A write that failed. -/
def Torn (t : FileTrace α ε) : Prop :=
  ∃ file piece e, (⟨.write file piece, .error e⟩ : Event (fileSig α ε)) ∈ t

def Renamed (t : FileTrace α ε) : Prop := ∃ e ∈ t, ∃ file, e.op = .replace file

/-- A writer makes one temporary file, writes to that before it renames, and renames it when all of
the document is in it. -/
structure Proper (doc : List α) (t : FileTrace α ε) (e : Event (fileSig α ε)) : Prop where
  mkstemp : e.op = .mkstemp → ∀ file, ¬ Made t file
  write : ∀ file piece, e.op = .write file piece → Made t file ∧ ¬ Renamed t
  replace : ∀ file, e.op = .replace file → Made t file ∧ written t = doc ∧ ¬ Torn t

section

variable {doc rest : List α} {t t' h : FileTrace α ε} {file : Nat} {e : Event (fileSig α ε)}

@[simp] theorem written_append : written (t ++ t') = written t ++ written t' :=
  List.filterMap_append

theorem Made.mono (hm : Made t file) : Made (t ++ t') file := List.mem_append_left _ hm

theorem not_torn_snoc (ht : ¬ Torn t) (he : ∀ file piece x, e ≠ ⟨.write file piece, .error x⟩) :
    ¬ Torn (t ++ [e]) := by
  rintro ⟨file, piece, x, hmem⟩
  rcases List.mem_append.mp hmem with hmem | hmem
  · exact ht ⟨file, piece, x, hmem⟩
  · exact he file piece x (List.mem_singleton.mp hmem).symm

theorem not_renamed_snoc (ht : ¬ Renamed t) (he : ∀ file, e.op ≠ .replace file) :
    ¬ Renamed (t ++ [e]) := by
  rintro ⟨e', hmem, file, hop⟩
  rcases List.mem_append.mp hmem with hmem | hmem
  · exact ht ⟨e', hmem, file, hop⟩
  · rw [List.mem_singleton.mp hmem] at hop
    exact he file hop

theorem wp_attemptOp {β : Type} {op : FileOp α} {f : op.Ans ε → Except ε β}
    {Q : Except ε β → FileTrace α ε → Prop} (hf : ∀ r, Q (f r) (h ++ [⟨op, r⟩])) :
    Wp (attemptOp op f) Q h := by
  intro t r hr
  obtain ⟨a, t', rfl, hrest⟩ := runs_ask_bind.mp hr
  obtain ⟨rfl, rfl⟩ := hrest
  exact hf a

/-- While the file is filled. -/
structure Filling (doc rest : List α) (file : Nat) (h : FileTrace α ε) : Prop where
  proper : Guarded (Proper doc) h
  made : Made h file
  ahead : ¬ Renamed h
  sofar : written h ++ rest = doc
  whole : ¬ Torn h

theorem wp_writeAll (hfill : Filling doc rest file h) : Wp (writeAll file rest)
    (fun r h' => (Guarded (Proper doc) h' ∧ Made h' file ∧ ¬ Renamed h') ∧
      ∀ u, r = .ok u → Filling doc [] file h') h := by
  induction rest generalizing h with
  | nil => exact wp_pure.mpr ⟨⟨hfill.proper, hfill.made, hfill.ahead⟩, fun _ _ => hfill⟩
  | cons piece rest ih =>
    rw [writeAll, wp_bind]
    refine wp_attemptOp fun r => ?_
    have hproper : Guarded (Proper doc) (h ++ [⟨.write file piece, r⟩]) := by
      refine guarded_snoc.mpr ⟨hfill.proper, nofun, ?_, nofun⟩
      rintro file' piece' ⟨⟩
      exact ⟨hfill.made, hfill.ahead⟩
    have hahead : ¬ Renamed (h ++ [⟨.write file piece, r⟩]) := not_renamed_snoc hfill.ahead nofun
    cases r with
    | ok u =>
      refine ih ⟨hproper, hfill.made.mono, hahead, ?_, not_torn_snoc hfill.whole nofun⟩
      rw [written_append, List.append_assoc, ← hfill.sofar]
      rfl
    | error x => exact ⟨⟨hproper, hfill.made.mono, hahead⟩, nofun⟩

theorem wp_fill (hfill : Filling doc doc file h) :
    Wp (fill file doc) (fun _ h' => Guarded (Proper doc) h') h := by
  rw [fill, wp_attempt_bind]
  refine (wp_writeAll hfill).mono fun r h₁ ⟨⟨hproper, hmade, hahead⟩, hdone⟩ => ?_
  rw [wp_bind]
  refine wp_attemptOp fun closed => ?_
  have hproper' : Guarded (Proper doc) (h₁ ++ [⟨.close file, closed⟩]) :=
    guarded_snoc.mpr ⟨hproper, nofun, nofun, nofun⟩
  cases closed with
  | error x => exact hproper'
  | ok u =>
    cases r with
    | error x => exact wp_throw.mpr hproper'
    | ok u' =>
      have hfull := hdone u' rfl
      refine wp_attemptOp fun renamed => guarded_snoc.mpr ⟨hproper', nofun, nofun, ?_⟩
      rintro file' ⟨⟩
      refine ⟨hmade.mono, ?_, not_torn_snoc hfull.whole nofun⟩
      rw [written_append]
      exact hfull.sofar

/-- The `finally`. -/
theorem wp_tidy {filled : Except ε Unit} (hproper : Guarded (Proper doc) h) :
    Wp (tidy file filled) (fun _ h' => Guarded (Proper doc) h') h := by
  rw [tidy, wp_bind, wp_ask]
  intro left
  have hleft : Guarded (Proper doc) (h ++ [⟨.isThere file, left⟩]) :=
    guarded_snoc.mpr ⟨hproper, nofun, nofun, nofun⟩
  cases left with
  | false => exact wp_fromExcept.mpr hleft
  | true =>
    show Wp (attemptOp (.unlink file) id >>= fun _ => fromExcept filled) _ _
    rw [wp_bind]
    refine wp_attemptOp fun gone => ?_
    have hgone : Guarded (Proper doc) (h ++ [⟨.isThere file, true⟩] ++ [⟨.unlink file, gone⟩]) :=
      guarded_snoc.mpr ⟨hleft, nofun, nofun, nofun⟩
    cases gone with
    | ok u => exact wp_fromExcept.mpr hgone
    | error x => exact hgone

theorem wp_publish : Wp (publish doc) (fun _ h' => Guarded (Proper (ε := ε) doc) h') [] := by
  rw [publish, wp_bind]
  refine wp_attemptOp fun made => ?_
  have hdir : Guarded (Proper doc) ([] ++ [(⟨.mkdir, made⟩ : Event (fileSig α ε))]) :=
    guarded_snoc.mpr ⟨guarded_nil, nofun, nofun, nofun⟩
  cases made with
  | error x => exact hdir
  | ok u =>
    show Wp _ _ _
    rw [wp_bind]
    refine wp_attemptOp fun temp => ?_
    have hnone : ∀ file, ¬ Made ([] ++ [(⟨.mkdir, .ok u⟩ : Event (fileSig α ε))]) file :=
      fun file hmade => by cases List.mem_singleton.mp hmade
    have htemp : Guarded (Proper doc) ([] ++ [(⟨.mkdir, .ok u⟩ : Event (fileSig α ε))] ++
        [⟨.mkstemp, temp⟩]) := guarded_snoc.mpr ⟨hdir, fun _ => hnone, nofun, nofun⟩
    cases temp with
    | error x => exact htemp
    | ok file =>
      show Wp _ _ _
      rw [wp_attempt_bind]
      have hfill : Filling doc doc file ([] ++ [(⟨.mkdir, .ok u⟩ : Event (fileSig α ε))] ++
          [⟨.mkstemp, .ok file⟩]) := by
        refine ⟨htemp, by simp [Made], ?_, rfl, ?_⟩
        · exact not_renamed_snoc (not_renamed_snoc (by rintro ⟨e, he, -⟩; cases he) nofun) nofun
        · exact not_torn_snoc (not_torn_snoc (by rintro ⟨_, _, _, he⟩; cases he) nofun) nofun
      refine (wp_fill hfill).mono fun filled h₁ hproper => ?_
      exact wp_tidy hproper

/-- After the rename the document stands in the file. -/
theorem Renaming.final {t : FileTrace α ε} {r : Except ε Unit} (hp : Guarded (Proper doc) t)
    (hmem : (⟨.replace file, r⟩ : Event (fileSig α ε)) ∈ t) :
    Made t file ∧ written t = doc ∧ ¬ Torn t := by
  obtain ⟨t₁, t₂, rfl⟩ := List.append_of_mem hmem
  obtain ⟨hmade, hall, hwhole⟩ := (hp t₁ _ t₂ rfl).replace file rfl
  have hquiet : ∀ e ∈ (⟨.replace file, r⟩ : Event (fileSig α ε)) :: t₂,
      ∀ file' piece, e.op ≠ .write file' piece := by
    intro e he file' piece hop
    rcases List.mem_cons.mp he with rfl | he
    · cases hop
    · obtain ⟨u₁, u₂, rfl⟩ := List.append_of_mem he
      have hahead := ((hp (t₁ ++ ⟨.replace file, r⟩ :: u₁) e u₂ (by simp)).write _ _ hop).2
      exact hahead ⟨⟨.replace file, r⟩, by simp, file, rfl⟩
  refine ⟨hmade.mono, ?_, ?_⟩
  · have hnone : written ((⟨.replace file, r⟩ : Event (fileSig α ε)) :: t₂) = [] := by
      refine List.filterMap_eq_nil_iff.mpr fun e he => ?_
      obtain ⟨op, ans⟩ := e
      cases op with
      | write file' piece => exact absurd rfl (hquiet _ he file' piece)
      | _ => rfl
    rw [written_append, hnone, List.append_nil, hall]
  · rintro ⟨file', piece, x, htorn⟩
    rcases List.mem_append.mp htorn with htorn | htorn
    · exact hwhole ⟨file', piece, x, htorn⟩
    · exact hquiet _ htorn file' piece rfl

/-- The temporary file of a writer is its only one. -/
theorem Made.unique {file' : Nat} (hp : Guarded (Proper doc) t) (hm : Made t file)
    (hm' : Made t file') : file = file' := by
  obtain ⟨t₁, t₂, rfl⟩ := List.append_of_mem hm
  have hfirst := (hp t₁ _ t₂ rfl).mkstemp rfl
  rcases List.mem_append.mp hm' with hm' | hm'
  · exact absurd hm' (hfirst file')
  · rcases List.mem_cons.mp hm' with heq | hm'
    · cases heq
      rfl
    · obtain ⟨u₁, u₂, rfl⟩ := List.append_of_mem hm'
      have hagain := (hp (t₁ ++ ⟨.mkstemp, .ok file⟩ :: u₁) ⟨.mkstemp, .ok file'⟩ u₂
        (by simp)).mkstemp rfl file
      exact absurd (List.mem_append_right t₁ List.mem_cons_self) hagain

end

/-! ## Turns -/

/-- The exchanges of the processes; the step of the environment takes the name away. -/
abbrev Turn (α ε : Type) := Move Nat (Event (fileSig α ε)) Unit

inductive TurnStep : Disk α → Turn α ε → Disk α → Prop
  | proc {i : Nat} {e : Event (fileSig α ε)} {d d' : Disk α} (h : Disk.Step d e d') :
      TurnStep d (.proc i e) d'
  | removed {d : Disk α} : TurnStep d (.env ()) { d with path := none }

/-- Writers, each with the document of `docs`, and readers have come as far as `h`. -/
structure Shared (docs : Nat → Option (List α)) (h : List (Turn α ε)) (d : Disk α) : Prop where
  writer : ∀ i doc, docs i = some doc → Begun (publish doc) (part i h)
  reader : ∀ i, docs i = none → Begun readPath (part i h)
  run : Run TurnStep .empty h d

/-- The name has been put on `file`, and on no other since. -/
def LastRenamed (h : List (Turn α ε)) (i file : Nat) : Prop :=
  ∃ pre mid, h = pre ++ .proc i ⟨.replace file, .ok ()⟩ :: mid ∧
    ∀ j file', (.proc j ⟨.replace file', .ok ()⟩ : Turn α ε) ∉ mid

section

variable {docs : Nat → Option (List α)} {h h₁ h₂ : List (Turn α ε)} {d d' : Disk α} {i j : Nat}
  {file : Nat} {e : Event (fileSig α ε)} {m : Turn α ε}

theorem Shared.earlier (hs : Shared docs (h₁ ++ h₂) d) :
    ∃ d₁, Shared docs h₁ d₁ ∧ Run TurnStep d₁ h₂ d := by
  obtain ⟨d₁, hrun, hrest⟩ := hs.run.append_inv
  refine ⟨d₁, ⟨fun i doc hdoc => ?_, fun i hnone => ?_, hrun⟩, hrest⟩
  · have hbegun := hs.writer i doc hdoc
    rw [part_append] at hbegun
    exact hbegun.append
  · have hbegun := hs.reader i hnone
    rw [part_append] at hbegun
    exact hbegun.append

/-- A reader opens the name, and reads the file that it got. -/
theorem runs_readPath {t : FileTrace α ε} {r : Except ε (List α)} (hr : Runs readPath t r) :
    (∃ x, t = [⟨.openPath, .error x⟩] ∧ r = .error x) ∨
      ∃ file c, t = [⟨.openPath, .ok file⟩, ⟨.read file, c⟩] ∧ r = c := by
  obtain ⟨opened, t₁, rfl, hrest⟩ := runs_ask_bind.mp hr
  cases opened with
  | error x =>
    obtain ⟨rfl, rfl⟩ := hrest
    exact .inl ⟨x, rfl, rfl⟩
  | ok file =>
    obtain ⟨c, t₂, rfl, rfl, rfl⟩ := runs_ask_bind.mp hrest
    exact .inr ⟨file, _, rfl, rfl⟩

theorem readPath_proper {t : FileTrace α ε} (hb : Begun readPath t) (doc : List α) :
    Guarded (Proper doc) t ∧ ∀ file r, (⟨.replace file, r⟩ : Event (fileSig α ε)) ∉ t := by
  obtain ⟨t', r, hr⟩ := hb
  have hlook : ∀ e ∈ t ++ t', e.op = .openPath ∨ ∃ file, e.op = .read file := by
    rcases runs_readPath hr with ⟨x, ht, -⟩ | ⟨file, c, ht, -⟩
    all_goals
      rw [ht]
      simp
  refine ⟨?_, fun file r hmem => ?_⟩
  · rintro t₁ e t₂ rfl
    rcases hlook e (by simp) with hop | ⟨file, hop⟩
    all_goals exact ⟨by simp [hop], by simp [hop], by simp [hop]⟩
  · have hop := hlook _ (List.mem_append_left _ hmem)
    simp at hop

theorem Shared.proper (hs : Shared docs h d) : Guarded (Proper ((docs i).getD [])) (part i h) := by
  cases hdoc : docs i with
  | none => exact (readPath_proper (hs.reader i hdoc) _).1
  | some doc =>
    refine (hs.writer i doc hdoc).guarded fun t r hr => ?_
    have hproper := wp_publish t r hr
    rwa [List.nil_append] at hproper

/-- What a rename has put under the name. -/
theorem Shared.renamed {r : Except ε Unit} (hs : Shared docs h d)
    (hmem : (⟨.replace file, r⟩ : Event (fileSig α ε)) ∈ part i h) :
    Made (part i h) file ∧ docs i = some (written (part i h)) ∧ ¬ Torn (part i h) := by
  obtain ⟨hmade, hall, hwhole⟩ := Renaming.final hs.proper hmem
  refine ⟨hmade, ?_, hwhole⟩
  cases hdoc : docs i with
  | none => exact absurd hmem ((readPath_proper (hs.reader i hdoc) []).2 file r)
  | some doc =>
    rw [hdoc] at hall
    exact congrArg some hall.symm

/-! ## What the disk holds -/

structure DiskInv (h : List (Turn α ε)) (d : Disk α) : Prop where
  fresh : ∀ i file, Made (part i h) file → file < d.fresh
  own : ∀ i j file, Made (part i h) file → Made (part j h) file → i = j
  content : ∀ i file, Made (part i h) file → ¬ Torn (part i h) →
    d.content file = written (part i h)
  path : ∀ file, d.path = some file → ∃ i, LastRenamed h i file

theorem LastRenamed.snoc (hl : LastRenamed h i file)
    (hm : ∀ j file', m ≠ .proc j ⟨.replace file', .ok ()⟩) : LastRenamed (h ++ [m]) i file := by
  obtain ⟨pre, mid, rfl, hquiet⟩ := hl
  refine ⟨pre, mid ++ [m], by simp, fun j file' hmem => ?_⟩
  rcases List.mem_append.mp hmem with hmem | hmem
  · exact hquiet j file' hmem
  · exact hm j file' (List.mem_singleton.mp hmem).symm

theorem LastRenamed.mem (hl : LastRenamed h i file) :
    (⟨.replace file, .ok ()⟩ : Event (fileSig α ε)) ∈ part i h := by
  obtain ⟨pre, mid, rfl, -⟩ := hl
  simp

theorem part_snoc : part i (h ++ [.proc j e]) = if j = i then part i h ++ [e] else part i h := by
  by_cases hj : j = i
  · subst hj
    rw [if_pos rfl, part_append, part_proc]
    rfl
  · rw [if_neg hj, part_append]
    simp [part, Move.ofProc, hj]

theorem made_snoc (he : ∀ file', e ≠ ⟨.mkstemp, .ok file'⟩)
    (hm : Made (part i (h ++ [.proc j e])) file) : Made (part i h) file := by
  rw [part_snoc] at hm
  split at hm
  · rcases List.mem_append.mp hm with hm | hm
    · exact hm
    · exact absurd (List.mem_singleton.mp hm).symm (he file)
  · exact hm

theorem torn_snoc (ht : Torn (part i h)) : Torn (part i (h ++ [.proc j e])) := by
  obtain ⟨file, piece, x, hmem⟩ := ht
  refine ⟨file, piece, x, ?_⟩
  rw [part_append]
  exact List.mem_append_left _ hmem

/-- An exchange that neither makes nor fills a file. -/
theorem DiskInv.snoc (hi : DiskInv h d) (hmake : ∀ file', e ≠ ⟨.mkstemp, .ok file'⟩)
    (hpiece : ∀ file' piece, e.op ≠ .write file' piece) (hfresh : d'.fresh = d.fresh)
    (hcontent : d'.content = d.content)
    (hpath : ∀ file, d'.path = some file → ∃ i, LastRenamed (h ++ [.proc j e]) i file) :
    DiskInv (h ++ [.proc j e]) d' := by
  refine ⟨fun i file hm => ?_, fun i i' file hm hm' => ?_, fun i file hm ht => ?_, hpath⟩
  · rw [hfresh]
    exact hi.fresh i file (made_snoc hmake hm)
  · exact hi.own i i' file (made_snoc hmake hm) (made_snoc hmake hm')
  · have hsame : written (part i (h ++ [.proc j e])) = written (part i h) := by
      rw [part_snoc]
      split
      · have hnone : pieceOf e = none := by
          obtain ⟨op, ans⟩ := e
          cases op with
          | write file' piece => exact absurd rfl (hpiece file' piece)
          | _ => rfl
        rw [written_append, written, written, List.filterMap_cons, hnone]
        simp
      · rfl
    rw [hcontent, hsame]
    exact hi.content i file (made_snoc hmake hm) fun h' => ht (torn_snoc h')

/-- A writer that has no file yet has written nothing. -/
theorem written_nil {doc : List α} {t : FileTrace α ε} (hp : Guarded (Proper doc) t)
    (hnone : ∀ file, ¬ Made t file) : written t = [] := by
  refine List.filterMap_eq_nil_iff.mpr fun e he => ?_
  obtain ⟨t₁, t₂, rfl⟩ := List.append_of_mem he
  obtain ⟨op, ans⟩ := e
  cases op with
  | write file piece =>
    have hmade := ((hp t₁ _ t₂ rfl).write file piece rfl).1
    exact absurd hmade.mono (hnone file)
  | _ => rfl

theorem DiskInv.mkstemp (hs : Shared docs (h ++ [.proc j ⟨.mkstemp, .ok d.fresh⟩]) d')
    (hi : DiskInv h d) : DiskInv (h ++ [(.proc j ⟨.mkstemp, .ok d.fresh⟩ : Turn α ε)])
      { d with
        temp := Function.update d.temp d.fresh true
        fresh := d.fresh + 1
        content := Function.update d.content d.fresh [] } := by
  have hmade : ∀ {i file},
      Made (part i (h ++ [(.proc j ⟨.mkstemp, .ok d.fresh⟩ : Turn α ε)])) file →
      Made (part i h) file ∨ i = j ∧ file = d.fresh := by
    intro i file hm
    rw [part_snoc] at hm
    split at hm
    · rename_i hji
      rcases List.mem_append.mp hm with hm | hm
      · exact .inl hm
      · cases List.mem_singleton.mp hm
        exact .inr ⟨hji.symm, rfl⟩
    · exact .inl hm
  refine ⟨fun i file hm => ?_, fun i i' file hm hm' => ?_, fun i file hm ht => ?_, fun file hf => ?_⟩
  · rcases hmade hm with hm | ⟨-, rfl⟩
    · exact Nat.lt_succ_of_lt (hi.fresh i file hm)
    · exact Nat.lt_succ_self _
  · rcases hmade hm with hold | ⟨hij, hf⟩
    · rcases hmade hm' with hold' | ⟨-, hf⟩
      · exact hi.own i i' file hold hold'
      · exact absurd (hi.fresh i file hold) (by omega)
    · rcases hmade hm' with hold' | ⟨hij', -⟩
      · exact absurd (hi.fresh i' file hold') (by omega)
      · rw [hij, hij']
  · have hsame : written (part i (h ++ [(.proc j ⟨.mkstemp, .ok d.fresh⟩ : Turn α ε)])) =
        written (part i h) := by
      rw [part_snoc]
      split
      · rw [written_append]
        exact List.append_nil _
      · rfl
    rw [hsame]
    show Function.update d.content d.fresh [] file = _
    rcases hmade hm with hm | ⟨rfl, rfl⟩
    · have hne : file ≠ d.fresh := Nat.ne_of_lt (hi.fresh i file hm)
      rw [Function.update_of_ne hne]
      exact hi.content i file hm fun h' => ht (torn_snoc h')
    · have hproper := hs.proper (i := i)
      rw [part_snoc, if_pos rfl] at hproper
      obtain ⟨hbefore, hnow⟩ := guarded_snoc.mp hproper
      rw [Function.update_self, written_nil hbefore (hnow.mkstemp rfl)]
  · obtain ⟨i, hl⟩ := hi.path file hf
    exact ⟨i, hl.snoc nofun⟩

/-- A write, whole or torn: `more` is what it has brought to the file. -/
theorem DiskInv.write {piece : α} {r : Except ε Unit} {more : List α}
    (hs : Shared docs (h ++ [.proc j ⟨.write file piece, r⟩]) d') (hi : DiskInv h d)
    (hr : ∀ u, r = .ok u → more = [piece]) :
    DiskInv (h ++ [(.proc j ⟨.write file piece, r⟩ : Turn α ε)])
      { d with content := Function.update d.content file (d.content file ++ more) } := by
  have hproper := hs.proper (i := j)
  rw [part_snoc, if_pos rfl] at hproper
  obtain ⟨hbefore, hnow⟩ := guarded_snoc.mp hproper
  have hown : Made (part j h) file := (hnow.write file piece rfl).1
  have hnot : ∀ file', (⟨.write file piece, r⟩ : Event (fileSig α ε)) ≠ ⟨.mkstemp, .ok file'⟩ :=
    nofun
  refine ⟨fun i file' hm => ?_, fun i i' file' hm hm' => ?_, fun i file' hm ht => ?_,
    fun file' hf => ?_⟩
  · exact hi.fresh i file' (made_snoc hnot hm)
  · exact hi.own i i' file' (made_snoc hnot hm) (made_snoc hnot hm')
  · have hold := made_snoc hnot hm
    have hclean : ¬ Torn (part i h) := fun h' => ht (torn_snoc h')
    have hcontent := hi.content i file' hold hclean
    show Function.update d.content file (d.content file ++ more) file' = _
    by_cases hji : j = i
    · subst hji
      obtain rfl := hown.unique hbefore hold
      rw [part_snoc, if_pos rfl] at ht ⊢
      rw [Function.update_self, hcontent, written_append]
      cases r with
      | ok u =>
        rw [hr u rfl]
        rfl
      | error x => exact absurd ⟨file, piece, x, by simp⟩ ht
    · have hne : file' ≠ file := by
        rintro rfl
        exact hji (hi.own j i file' hown hold)
      rw [part_snoc, if_neg hji, Function.update_of_ne hne]
      exact hcontent
  · obtain ⟨i, hl⟩ := hi.path file' hf
    exact ⟨i, hl.snoc nofun⟩

theorem DiskInv.step (hs : Shared docs (h ++ [m]) d') (hi : DiskInv h d) (hstep : TurnStep d m d') :
    DiskInv (h ++ [m]) d' := by
  cases hstep with
  | removed =>
    have hsame : ∀ i, part i (h ++ [(.env () : Turn α ε)]) = part i h := by
      intro i
      rw [part_append]
      exact List.append_nil _
    refine ⟨fun i file hm => ?_, fun i i' file hm hm' => ?_, fun i file hm ht => ?_, nofun⟩
    · rw [hsame] at hm
      exact hi.fresh i file hm
    · rw [hsame] at hm hm'
      exact hi.own i i' file hm hm'
    · rw [hsame] at hm ht ⊢
      exact hi.content i file hm ht
  | proc he =>
    have hkeep : ∀ {j : Nat} {e : Event (fileSig α ε)}, (∀ file', e.op ≠ .replace file') →
        ∀ file, d.path = some file → ∃ i, LastRenamed (h ++ [.proc j e]) i file := by
      intro j e hop file hf
      obtain ⟨i, hl⟩ := hi.path file hf
      refine ⟨i, hl.snoc fun j' file' heq => ?_⟩
      cases heq
      exact hop file' rfl
    cases he with
    | mkstemp => exact hi.mkstemp hs
    | write => exact hi.write hs fun _ _ => rfl
    | torn => exact hi.write hs nofun
    | replace =>
      refine hi.snoc nofun nofun rfl rfl fun file hf => ?_
      cases hf
      exact ⟨_, h, [], rfl, by simp⟩
    | notReplaced =>
      refine hi.snoc nofun nofun rfl rfl fun file hf => ?_
      obtain ⟨i, hl⟩ := hi.path file hf
      exact ⟨i, hl.snoc nofun⟩
    | mkdir => exact hi.snoc nofun nofun rfl rfl (hkeep nofun)
    | noTemp => exact hi.snoc nofun nofun rfl rfl (hkeep nofun)
    | close => exact hi.snoc nofun nofun rfl rfl (hkeep nofun)
    | isThere => exact hi.snoc nofun nofun rfl rfl (hkeep nofun)
    | unlink => exact hi.snoc nofun nofun rfl rfl (hkeep nofun)
    | notUnlinked => exact hi.snoc nofun nofun rfl rfl (hkeep nofun)
    | openPath _ => exact hi.snoc nofun nofun rfl rfl (hkeep nofun)
    | notOpened => exact hi.snoc nofun nofun rfl rfl (hkeep nofun)
    | read => exact hi.snoc nofun nofun rfl rfl (hkeep nofun)
    | notRead => exact hi.snoc nofun nofun rfl rfl (hkeep nofun)

theorem Shared.inv (hs : Shared docs h d) : DiskInv h d := by
  induction h using List.reverseRecOn generalizing d with
  | nil =>
    obtain rfl := hs.run.nil_inv
    exact ⟨nofun, nofun, nofun, nofun⟩
  | append_singleton h m ih =>
    obtain ⟨d₁, hs₁, hrest⟩ := hs.earlier
    obtain ⟨d₂, hstep, hend⟩ := hrest.cons_inv
    obtain rfl := hend.nil_inv
    exact (ih hs₁).step hs hstep

/-- A reader gets the whole document of the last rename before it opened the name. -/
theorem Shared.read_whole {doc : List α} (hs : Shared docs h d)
    (hr : Runs readPath (part j h) (.ok doc)) :
    ∃ i file before after, h = before ++ .proc j ⟨.openPath, .ok file⟩ :: after ∧
      LastRenamed before i file ∧ docs i = some doc := by
  rcases runs_readPath hr with ⟨x, -, hno⟩ | ⟨file, c, ht, hc⟩
  · cases hno
  · subst hc
    obtain ⟨before, after, rfl, -, hafter⟩ := @part_split _ _ _ _ _ _ _ [] _ ht
    obtain ⟨mid, rest, rfl, -, -⟩ := @part_split _ _ _ _ _ _ _ [] _ hafter
    obtain ⟨d₀, hs₀, hrest⟩ := hs.earlier
    obtain ⟨d₁, hopen, -⟩ := hrest.cons_inv
    have hpath : d₀.path = some file := by
      cases hopen with
      | proc hopen => cases hopen with
        | openPath hpath => exact hpath
    obtain ⟨i, hl⟩ := hs₀.inv.path file hpath
    rw [← List.cons_append, ← List.append_assoc] at hs
    obtain ⟨d₂, hs₂, hrest₂⟩ := hs.earlier
    obtain ⟨d₃, hread, -⟩ := hrest₂.cons_inv
    have hdoc : doc = d₂.content file := by
      cases hread with
      | proc hread => cases hread with
        | read => rfl
    have hlater : (⟨.replace file, .ok ()⟩ : Event (fileSig α ε)) ∈
        part i (before ++ .proc j ⟨.openPath, .ok file⟩ :: mid) := by
      rw [part_append]
      exact List.mem_append_left _ hl.mem
    obtain ⟨hmade, hdocs, hclean⟩ := hs₂.renamed hlater
    refine ⟨i, file, before, _, rfl, hl, ?_⟩
    rw [hdoc, hs₂.inv.content i file hmade hclean]
    exact hdocs

end

end RenameFile
