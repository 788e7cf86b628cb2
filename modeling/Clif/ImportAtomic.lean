import Clif.ImportSafe

/-!
# ImportAtomic — an import that fails

`import_credentials` with its file operations, any of which may fail.  `importAtomic_iff` says when
it raises nothing but `BundleError` and `OSError` and leaves the env file as it was.
-/

namespace Clif

open PyStr

/-! ## The env file -/

/-- The newlines that reading in text mode translates. -/
def universalNewlines : PyStr → PyStr
  | 0x0D :: 0x0A :: cs => 0x0A :: universalNewlines cs
  | c :: cs => (if c = 0x0D then 0x0A else c) :: universalNewlines cs
  | [] => []

/-- The text of a UTF-8 file. -/
def decodeUtf8 (bytes : Bytes) : Option PyStr :=
  (String.fromUTF8? ⟨bytes.toArray⟩).map fun s => universalNewlines (s.toList.map Char.toNat)

/-- `str.encode("utf-8")`. -/
def encodeUtf8 (text : PyStr) : Option Bytes :=
  if Encodable text then some (text.flatMap fun c => String.utf8EncodeChar (Char.ofNat c)) else none

/-- The file operations of an import, each with the text of the `OSError` it raises, if it does. -/
structure Faults where
  mkdir : Option String := none
  isFile : Option String := none
  read : Option String := none
  touch : Option String := none
  chmod : Option String := none
  openFile : Option String := none
  write : Option String := none

def Faults.all (f : Faults) : List (Option String) :=
  [f.mkdir, f.isFile, f.read, f.touch, f.chmod, f.openFile, f.write]

/-- `env_file.read_text() if env_file.is_file() else ""`. -/
def readEnvText (faults : Faults) (file : Option Bytes) : Except ImportExc PyStr :=
  match faults.isFile with
  | some e => .error (.osError e)
  | none =>
    match file with
    | none => .ok []
    | some bytes =>
      match faults.read with
      | some e => .error (.osError e)
      | none =>
        match decodeUtf8 bytes with
        | none => .error .unicodeDecodeError
        | some text => .ok text

/-- `touch`, `chmod` and `write_text`, which opens the file truncated.  A write that fails has
brought `written` bytes to the file. -/
def writeEnvText (faults : Faults) (written : Nat) (text : PyStr) (file : Option Bytes) :
    Except ImportExc Unit × Option Bytes :=
  match faults.touch with
  | some e => (.error (.osError e), file)
  | none =>
    let touched := some (file.getD [])
    match faults.chmod with
    | some e => (.error (.osError e), touched)
    | none =>
      match faults.openFile with
      | some e => (.error (.osError e), touched)
      | none =>
        match encodeUtf8 text with
        | none => (.error .unicodeEncodeError, some [])
        | some data =>
          match faults.write with
          | some e => (.error (.osError e), some (data.take written))
          | none => (.ok (), some data)

section

variable [Calendar]

/-- `import_credentials`: what it returns or raises, and the env file after it. -/
def importCredentials (now : ℚ) (s : Settings) (faults : Faults) (written : Nat) (bundle : Json)
    (file : Option Bytes) : Except ImportExc ImportResult × Option Bytes :=
  match validateBundle now s bundle with
  | .error e => (.error e, file)
  | .ok network =>
    match faults.mkdir with
    | some e => (.error (.osError e), file)
    | none =>
      match readEnvText faults file with
      | .error e => (.error e, file)
      | .ok text =>
        let st := importText s network bundle text
        match writeEnvText faults written st.text file with
        | (.error e, after) => (.error e, after)
        | (.ok _, after) =>
          (.ok ⟨network, st.imported, bundle.field "version", st.configKeys⟩, after)

end

/-! ## What is asked of an import that fails -/

/-- `BundleError`, or the `OSError` of a file operation that failed. -/
def Foreseen (faults : Faults) : ImportExc → Prop
  | .bundleError _ => True
  | .osError e => some e ∈ faults.all
  | _ => False

/-- If it raises, it raises what is foreseen, and a file that was there is as it was. -/
structure Atomic (faults : Faults) (file : Option Bytes)
    (run : Except ImportExc ImportResult × Option Bytes) : Prop where
  foreseen : ∀ e, run.1 = .error e → Foreseen faults e
  kept : ∀ e bytes, run.1 = .error e → file = some bytes → run.2 = some bytes

section

variable [Calendar]

/-- What validation looks up in a set or a dict is hashable: the version, and the capability id of
each entry that it comes to. -/
structure Hashed (now : ℚ) (s : Settings) (bundle : Json) : Prop where
  version : bundle.dict.isSome = true → (bundle.field "version").hashable = true
  capability : ∀ network entries, validateHeader now bundle = .ok (network, entries) →
    ∀ pre entry post, entries = pre ++ entry :: post →
      (∀ e ∈ pre, validateEntry { s with network := network } (isV2 bundle) e = .ok ()) →
        entry.dict.isSome = true → (entry.field "capability_id").hashable = true

/-- The text of the old file reaches the write. -/
structure WriteReached (faults : Faults) (file : Option Bytes) : Prop where
  mkdir : faults.mkdir = none
  isFile : faults.isFile = none
  read : file.isSome = true → faults.read = none
  touch : faults.touch = none
  chmod : faults.chmod = none
  openFile : faults.openFile = none

/-- The import can fail only as it is meant to. -/
structure Retryable (now : ℚ) (s : Settings) (faults : Faults) (bundle : Json)
    (file : Option Bytes) : Prop where
  hashed : Hashed now s bundle
  /-- An old file that is read is UTF-8. -/
  decodable : ∀ network bytes, validateBundle now s bundle = .ok network → faults.mkdir = none →
    faults.isFile = none → faults.read = none → file = some bytes → (decodeUtf8 bytes).isSome = true
  /-- The lines that the upserts leave can be encoded. -/
  encodable : ∀ network, validateBundle now s bundle = .ok network → WriteReached faults file →
    ∀ pre w post, bundleWrites s network bundle = pre ++ w :: post →
      ∀ line ∈ pieces (assignment w.1 w.2), (∀ w' ∈ post, assignedName line ≠ some w'.1) →
        Encodable line
  /-- Where there is an old file, the write does not fail. -/
  written : ∀ network, validateBundle now s bundle = .ok network → WriteReached faults file →
    file = none ∨ faults.write = none

end

/-! ## Validation -/

/-- An entry is refused, or its capability id is looked up and cannot be. -/
theorem validateEntry_error {s : Settings} {v2 : Bool} {entry : Json} {e : ImportExc}
    (h : validateEntry s v2 entry = .error e) :
    (∃ b, e = .bundleError b) ∨
      (e = .typeError ∧ entry.dict.isSome = true ∧
        (entry.field "capability_id").hashable = false) := by
  unfold validateEntry at h
  split at h
  · cases h
    exact .inl ⟨_, rfl⟩
  rename_i d hd
  dsimp only at h
  split at h
  · rename_i hnot
    cases h
    exact .inr ⟨rfl, by rw [hd]; rfl, by simpa using hnot⟩
  split at h
  · cases h
    exact .inl ⟨_, rfl⟩
  rename_i c cap hgov
  cases hok : validateGoverned v2 c cap entry with
  | error b =>
    rw [hok] at h
    cases h
    exact .inl ⟨b, rfl⟩
  | ok _ =>
    rw [hok] at h
    cases h

theorem validateEntry_unhashable {s : Settings} {v2 : Bool} {entry : Json}
    (hobject : entry.dict.isSome = true) (h : (entry.field "capability_id").hashable = false) :
    validateEntry s v2 entry = .error .typeError := by
  obtain ⟨d, hd⟩ := Option.isSome_iff_exists.mp hobject
  unfold validateEntry
  rw [hd]
  dsimp only
  rw [h]
  rfl

/-- The first entry that fails decides. -/
theorem validateEntries_error {s : Settings} {v2 : Bool} {e : ImportExc} : ∀ {entries : List Json},
    validateEntries s v2 entries = .error e ↔ ∃ pre entry post, entries = pre ++ entry :: post ∧
      (∀ x ∈ pre, validateEntry s v2 x = .ok ()) ∧ validateEntry s v2 entry = .error e := by
  intro entries
  induction entries with
  | nil => simp [validateEntries]
  | cons entry entries ih =>
    unfold validateEntries
    cases hentry : validateEntry s v2 entry with
    | error e' =>
      constructor
      · intro h
        cases h
        exact ⟨[], entry, entries, rfl, by simp, hentry⟩
      · rintro ⟨pre, entry', post, heq, hpre, herror⟩
        cases pre with
        | nil =>
          obtain ⟨rfl, -⟩ := List.cons.inj heq
          rw [hentry] at herror
          exact herror
        | cons x pre =>
          obtain ⟨rfl, -⟩ := List.cons.inj heq
          rw [hpre _ List.mem_cons_self] at hentry
          cases hentry
    | ok _ =>
      refine Iff.trans ih ?_
      constructor
      · rintro ⟨pre, entry', post, rfl, hpre, herror⟩
        exact ⟨entry :: pre, entry', post, rfl, List.forall_mem_cons.mpr ⟨hentry, hpre⟩, herror⟩
      · rintro ⟨pre, entry', post, heq, hpre, herror⟩
        cases pre with
        | nil =>
          obtain ⟨rfl, -⟩ := List.cons.inj heq
          rw [hentry] at herror
          cases herror
        | cons x pre =>
          obtain ⟨rfl, rfl⟩ := List.cons.inj heq
          exact ⟨pre, entry', post, rfl, (List.forall_mem_cons.mp hpre).2, herror⟩

section

variable [Calendar] {now : ℚ} {s : Settings} {bundle : Json}

theorem validateHeader_error {e : ImportExc} (h : validateHeader now bundle = .error e) :
    (∃ b, e = .bundleError b) ∨
      (e = .typeError ∧ bundle.dict.isSome = true ∧ (bundle.field "version").hashable = false) := by
  unfold validateHeader at h
  split at h
  · cases h
    exact .inl ⟨_, rfl⟩
  rename_i d hd
  dsimp only at h
  split at h
  · rename_i hnot
    cases h
    exact .inr ⟨rfl, by rw [hd]; rfl, by simpa using hnot⟩
  refine .inl ?_
  split at h
  · cases h
    exact ⟨_, rfl⟩
  split at h
  · cases h
    exact ⟨_, rfl⟩
  split at h
  · cases h
    exact ⟨_, rfl⟩
  split at h
  · cases h
    exact ⟨_, rfl⟩
  split at h
  · cases h
    exact ⟨_, rfl⟩
  split at h
  · cases h
    exact ⟨_, rfl⟩
  split at h
  · cases h
    exact ⟨_, rfl⟩
  split at h
  · cases h
    exact ⟨_, rfl⟩
  · cases h

theorem validateHeader_unhashable (hobject : bundle.dict.isSome = true)
    (h : (bundle.field "version").hashable = false) :
    validateHeader now bundle = .error .typeError := by
  obtain ⟨d, hd⟩ := Option.isSome_iff_exists.mp hobject
  unfold validateHeader
  rw [hd]
  dsimp only
  rw [h]
  rfl

/-- Validation raises `BundleError`, or `TypeError` exactly if it looks up what is not hashable. -/
theorem validateBundle_error {e : ImportExc} (h : validateBundle now s bundle = .error e) :
    (∃ b, e = .bundleError b) ∨ (e = .typeError ∧ ¬ Hashed now s bundle) := by
  unfold validateBundle at h
  cases hheader : validateHeader now bundle with
  | error e' =>
    rw [hheader] at h
    cases h
    refine (validateHeader_error hheader).imp id ?_
    rintro ⟨rfl, hobject, hnot⟩
    refine ⟨rfl, fun hashed => ?_⟩
    rw [hashed.version hobject] at hnot
    cases hnot
  | ok ne =>
    obtain ⟨network, entries⟩ := ne
    rw [hheader] at h
    simp only [bind, Except.bind] at h
    cases hentries : validateEntries { s with network := network } (isV2 bundle) entries with
    | error e' =>
      rw [hentries] at h
      cases h
      obtain ⟨pre, entry, post, heq, hpre, herror⟩ := validateEntries_error.mp hentries
      refine (validateEntry_error herror).imp id ?_
      rintro ⟨rfl, hobject, hnot⟩
      refine ⟨rfl, fun hashed => ?_⟩
      rw [hashed.capability network entries hheader pre entry post heq hpre hobject] at hnot
      cases hnot
    | ok _ =>
      rw [hentries] at h
      dsimp only at h
      split at h
      · cases hconfig : validateConfig { s with network := network } bundle (py network.str) with
        | error b =>
          rw [hconfig] at h
          cases h
          exact .inl ⟨b, rfl⟩
        | ok _ =>
          rw [hconfig] at h
          cases h
      · cases h

theorem hashed_of_ne_typeError (h : validateBundle now s bundle ≠ .error .typeError) :
    Hashed now s bundle := by
  refine ⟨fun hobject => ?_, fun network entries hheader pre entry post heq hpre hobject => ?_⟩
  · by_contra hnot
    refine h ?_
    rw [validateBundle, validateHeader_unhashable hobject (by simpa using hnot)]
    rfl
  · by_contra hnot
    have herror := validateEntries_error.mpr ⟨pre, entry, post, heq, hpre,
      validateEntry_unhashable hobject (by simpa using hnot)⟩
    refine h ?_
    rw [validateBundle, hheader]
    simp only [bind, Except.bind]
    rw [herror]

end

/-! ## Encoding -/

theorem encodable_splitlines {text : PyStr} :
    Encodable text ↔ ∀ line ∈ splitlines text, Encodable line := by
  constructor
  · intro h line hline c hc
    exact h c (Lines.mem_of_mem_split hline hc)
  · intro h c hc
    by_cases hbreak : isLineBreak c = true
    · simp only [isLineBreak, Bool.or_eq_true, Bool.and_eq_true, decide_eq_true_eq,
        beq_iff_eq] at hbreak
      omega
    · have hfree : lineBreaks.isBreak c = false := Bool.eq_false_iff.mpr hbreak
      obtain ⟨line, hline, hmem⟩ := Lines.exists_mem_split hfree hc
      exact h line hline c hmem

/-- What the upserts make of a text can be encoded if what they leave of themselves can. -/
theorem encodable_upsertAll {old : PyStr} {ws : List (PyStr × PyStr)} (hold : Encodable old) :
    Encodable (upsertAll old ws) ↔ ∀ pre w post, ws = pre ++ w :: post →
      ∀ line ∈ pieces (assignment w.1 w.2), (∀ w' ∈ post, assignedName line ≠ some w'.1) →
        Encodable line := by
  rw [encodable_splitlines]
  constructor
  · intro h pre w post heq line hline hpost
    exact h line (mem_splitlines_upsertAll.mpr (.inr ⟨pre, w, post, heq, hline, hpost⟩))
  · intro h line hline
    rcases mem_splitlines_upsertAll.mp hline with ⟨hline, -⟩ | ⟨pre, w, post, heq, hline, hpost⟩
    · exact encodable_splitlines.mp hold line hline
    · exact h pre w post heq line hline hpost

theorem mem_universalNewlines {c : Nat} {s : PyStr} (h : c ∈ universalNewlines s) :
    c ∈ s ∨ c = 0x0A := by
  fun_induction universalNewlines s with
  | case1 cs ih =>
    rcases List.mem_cons.mp h with rfl | h
    · exact .inr rfl
    · exact (ih h).imp (fun hc => List.mem_cons_of_mem _ (List.mem_cons_of_mem _ hc)) id
  | case2 x cs _ ih =>
    rcases List.mem_cons.mp h with hx | h
    · split at hx
      · exact .inr hx
      · rw [hx]
        exact .inl List.mem_cons_self
    · exact (ih h).imp (fun hc => List.mem_cons_of_mem _ hc) id
  | case3 => cases h

theorem encodable_decodeUtf8 {bytes : Bytes} {text : PyStr} (h : decodeUtf8 bytes = some text) :
    Encodable text := by
  obtain ⟨s, -, rfl⟩ := Option.map_eq_some_iff.mp h
  intro c hc
  rcases mem_universalNewlines hc with hc | rfl
  · obtain ⟨x, -, rfl⟩ := List.mem_map.mp hc
    have hvalid : x.toNat < 0xD800 ∨ 0xDFFF < x.toNat ∧ x.toNat < 0x110000 := x.valid
    omega
  · omega

theorem encodeUtf8_ne_nil {text : PyStr} {data : Bytes} (h : encodeUtf8 text = some data)
    (hne : text ≠ []) : data ≠ [] := by
  unfold encodeUtf8 at h
  split at h
  · cases text with
    | nil => exact absurd rfl hne
    | cons c text =>
      rw [← Option.some.inj h, List.flatMap_cons]
      exact List.append_ne_nil_of_left_ne_nil String.utf8EncodeChar_ne_nil _
  · cases h

/-! ## Reading and writing the file -/

section

variable {faults : Faults} {file : Option Bytes} {text : PyStr}

theorem readEnvText_ok (h : readEnvText faults file = .ok text) :
    faults.isFile = none ∧ (file.isSome = true → faults.read = none) ∧ Encodable text := by
  unfold readEnvText at h
  split at h
  · cases h
  rename_i hfile
  split at h
  · cases h
    exact ⟨hfile, nofun, fun c hc => by cases hc⟩
  split at h
  · cases h
  rename_i hread
  split at h
  · cases h
  rename_i hdecode
  cases h
  exact ⟨hfile, fun _ => hread, encodable_decodeUtf8 hdecode⟩

theorem readEnvText_error {e : ImportExc} (h : readEnvText faults file = .error e) :
    (∃ t, e = .osError t ∧ some t ∈ faults.all) ∨ (e = .unicodeDecodeError ∧
      faults.isFile = none ∧ faults.read = none ∧ ∃ bytes, file = some bytes ∧
        decodeUtf8 bytes = none) := by
  unfold readEnvText at h
  split at h
  · rename_i t ht
    cases h
    exact .inl ⟨t, rfl, by simp [Faults.all, ht]⟩
  rename_i hfile
  split at h
  · cases h
  rename_i bytes
  split at h
  · rename_i t ht
    cases h
    exact .inl ⟨t, rfl, by simp [Faults.all, ht]⟩
  rename_i hread
  split at h
  · rename_i hdecode
    cases h
    exact .inr ⟨rfl, hfile, hread, bytes, rfl, hdecode⟩
  · cases h

theorem readEnvText_readable (hfile : faults.isFile = none)
    (hread : file.isSome = true → faults.read = none)
    (hdecode : ∀ bytes, file = some bytes → (decodeUtf8 bytes).isSome = true) :
    ∃ text, readEnvText faults file = .ok text := by
  unfold readEnvText
  rw [hfile]
  cases file with
  | none => exact ⟨[], rfl⟩
  | some bytes =>
    obtain ⟨text, htext⟩ := Option.isSome_iff_exists.mp (hdecode bytes rfl)
    refine ⟨text, ?_⟩
    dsimp only
    rw [hread rfl]
    dsimp only
    rw [htext]

/-- The file is only opened when `touch`, `chmod` and `open` succeed. -/
structure Opened (faults : Faults) : Prop where
  touch : faults.touch = none
  chmod : faults.chmod = none
  openFile : faults.openFile = none

theorem writeEnvText_opened {written : Nat} (h : Opened faults) :
    writeEnvText faults written text file =
      match encodeUtf8 text with
      | none => (.error .unicodeEncodeError, some [])
      | some data =>
        match faults.write with
        | some e => (.error (.osError e), some (data.take written))
        | none => (.ok (), some data) := by
  unfold writeEnvText
  rw [h.touch, h.chmod, h.openFile]

theorem writeEnvText_unopened {written : Nat} (h : ¬ Opened faults) :
    (∃ t, (writeEnvText faults written text file).1 = .error (.osError t) ∧
      some t ∈ faults.all) ∧
      ∀ bytes, file = some bytes → (writeEnvText faults written text file).2 = some bytes := by
  unfold writeEnvText
  split
  · rename_i t ht
    exact ⟨⟨t, rfl, by simp [Faults.all, ht]⟩, fun bytes hfile => hfile⟩
  rename_i htouch
  dsimp only
  split
  · rename_i t ht
    exact ⟨⟨t, rfl, by simp [Faults.all, ht]⟩, fun bytes hfile => by rw [hfile]; rfl⟩
  rename_i hchmod
  split
  · rename_i t ht
    exact ⟨⟨t, rfl, by simp [Faults.all, ht]⟩, fun bytes hfile => by rw [hfile]; rfl⟩
  rename_i hopen
  exact absurd ⟨htouch, hchmod, hopen⟩ h

end

/-! ## The import -/

section

variable [Calendar] {now : ℚ} {s : Settings} {faults : Faults} {bundle : Json}
  {file : Option Bytes} {network : Network} {text : PyStr}

theorem importCredentials_validated {written : Nat}
    (hbundle : validateBundle now s bundle = .ok network)
    (hmkdir : faults.mkdir = none) (hread : readEnvText faults file = .ok text) :
    importCredentials now s faults written bundle file =
      ((writeEnvText faults written (importText s network bundle text).text file).1.map fun _ =>
          ⟨network, (importText s network bundle text).imported, bundle.field "version",
            (importText s network bundle text).configKeys⟩,
        (writeEnvText faults written (importText s network bundle text).text file).2) := by
  unfold importCredentials
  rw [hbundle]
  dsimp only
  rw [hmkdir]
  dsimp only
  rw [hread]
  dsimp only
  cases hrun : writeEnvText faults written (importText s network bundle text).text file with
  | mk result after => cases result <;> rfl

omit [Calendar] in
theorem importText_ne_nil : (importText s network bundle text).text ≠ [] := by
  rw [text_importText, bundleWrites, upsertAll_snoc, upsertEnvVar]
  exact List.append_ne_nil_of_right_ne_nil _ (by decide)

/-- The import that opens the file has written it, or failed after truncating it. -/
theorem importCredentials_opened {written : Nat}
    (hbundle : validateBundle now s bundle = .ok network) (hmkdir : faults.mkdir = none)
    (hread : readEnvText faults file = .ok text) (hopened : Opened faults) :
    importCredentials now s faults written bundle file =
      match encodeUtf8 (importText s network bundle text).text with
      | none => (.error .unicodeEncodeError, some [])
      | some data =>
        match faults.write with
        | some e => (.error (.osError e), some (data.take written))
        | none => (.ok ⟨network, (importText s network bundle text).imported,
            bundle.field "version", (importText s network bundle text).configKeys⟩, some data) := by
  rw [importCredentials_validated hbundle hmkdir hread, writeEnvText_opened hopened]
  cases encodeUtf8 (importText s network bundle text).text with
  | none => rfl
  | some data => cases faults.write <;> rfl

omit [Calendar] in
theorem WriteReached.opened (h : WriteReached faults file) : Opened faults :=
  ⟨h.touch, h.chmod, h.openFile⟩

theorem retryable_of_atomic
    (h : ∀ written, Atomic faults file (importCredentials now s faults written bundle file)) :
    Retryable now s faults bundle file := by
  have hdecodable : ∀ network bytes, validateBundle now s bundle = .ok network →
      faults.mkdir = none → faults.isFile = none → faults.read = none → file = some bytes →
        (decodeUtf8 bytes).isSome = true := by
    intro network bytes hbundle hmkdir hisFile hread hfile
    by_contra hnone
    have hdecode : decodeUtf8 bytes = none := by simpa using hnone
    have herror : readEnvText faults file = .error .unicodeDecodeError := by
      unfold readEnvText
      rw [hisFile, hfile]
      dsimp only
      rw [hread]
      dsimp only
      rw [hdecode]
    have hrun : (importCredentials now s faults 0 bundle file).1 = .error .unicodeDecodeError := by
      unfold importCredentials
      rw [hbundle]
      dsimp only
      rw [hmkdir]
      dsimp only
      rw [herror]
    exact (h 0).foreseen _ hrun
  have hreadable : ∀ network, validateBundle now s bundle = .ok network →
      WriteReached faults file → ∃ text, readEnvText faults file = .ok text := by
    intro network hbundle hreached
    refine readEnvText_readable hreached.isFile hreached.read fun bytes hfile => ?_
    exact hdecodable network bytes hbundle hreached.mkdir hreached.isFile
      (hreached.read (by rw [hfile]; rfl)) hfile
  refine ⟨hashed_of_ne_typeError fun herror => ?_, hdecodable, fun network hbundle hreached => ?_,
    fun network hbundle hreached => ?_⟩
  · have hrun : (importCredentials now s faults 0 bundle file).1 = .error .typeError := by
      rw [importCredentials, herror]
    exact (h 0).foreseen _ hrun
  · obtain ⟨text, htext⟩ := hreadable network hbundle hreached
    have hencodable : Encodable (importText s network bundle text).text := by
      by_contra hnot
      have hforeseen := (h 0).foreseen .unicodeEncodeError (by
        rw [importCredentials_opened hbundle hreached.mkdir htext hreached.opened, encodeUtf8,
          if_neg hnot])
      exact hforeseen
    rw [text_importText] at hencodable
    exact (encodable_upsertAll (readEnvText_ok htext).2.2).mp hencodable
  · obtain ⟨text, htext⟩ := hreadable network hbundle hreached
    cases hold : file with
    | none => exact .inl rfl
    | some old =>
      refine .inr ?_
      cases hwrite : faults.write with
      | none => rfl
      | some e =>
        have hrun := fun written =>
          @importCredentials_opened _ now s faults bundle file network text written hbundle
            hreached.mkdir htext hreached.opened
        rw [hwrite] at hrun
        cases hdata : encodeUtf8 (importText s network bundle text).text with
        | none =>
          rw [hdata] at hrun
          exact absurd ((h 0).foreseen .unicodeEncodeError (by rw [hrun])) id
        | some data =>
          rw [hdata] at hrun
          have hkept : ∀ written, data.take written = old := by
            intro written
            have hafter := (h written).kept (.osError e) old (by rw [hrun]) hold
            rw [hrun] at hafter
            exact Option.some.inj hafter
          have hnil : data.take 0 = data.take data.length :=
            (hkept 0).trans (hkept data.length).symm
          rw [List.take_zero, List.take_length] at hnil
          exact absurd hnil.symm (encodeUtf8_ne_nil hdata importText_ne_nil)

theorem atomic_of_retryable (h : Retryable now s faults bundle file) (written : Nat) :
    Atomic faults file (importCredentials now s faults written bundle file) := by
  cases hbundle : validateBundle now s bundle with
  | error e =>
    have hrun : importCredentials now s faults written bundle file = (.error e, file) := by
      rw [importCredentials, hbundle]
    rw [hrun]
    refine ⟨fun e' he' => ?_, fun _ _ _ hfile => hfile⟩
    cases he'
    rcases validateBundle_error hbundle with ⟨b, rfl⟩ | ⟨-, hnot⟩
    · trivial
    · exact absurd h.hashed hnot
  | ok network =>
    cases hmkdir : faults.mkdir with
    | some t =>
      have hrun : importCredentials now s faults written bundle file =
          (.error (.osError t), file) := by
        unfold importCredentials
        rw [hbundle]
        dsimp only
        rw [hmkdir]
      rw [hrun]
      refine ⟨fun e' he' => ?_, fun _ _ _ hfile => hfile⟩
      cases he'
      simp [Foreseen, Faults.all, hmkdir]
    | none =>
      cases hread : readEnvText faults file with
      | error e =>
        have hrun : importCredentials now s faults written bundle file = (.error e, file) := by
          unfold importCredentials
          rw [hbundle]
          dsimp only
          rw [hmkdir]
          dsimp only
          rw [hread]
        rw [hrun]
        refine ⟨fun e' he' => ?_, fun _ _ _ hfile => hfile⟩
        cases he'
        rcases readEnvText_error hread with ⟨t, rfl, hmem⟩ | ⟨-, hisFile, hr, bytes, hfile, hnone⟩
        · exact hmem
        · have hsome := h.decodable network bytes hbundle hmkdir hisFile hr hfile
          rw [hnone] at hsome
          cases hsome
      | ok text =>
        obtain ⟨hisFile, hr, hold⟩ := readEnvText_ok hread
        by_cases hopened : Opened faults
        · -- from here the old file is gone
          have hreached : WriteReached faults file :=
            ⟨hmkdir, hisFile, hr, hopened.touch, hopened.chmod, hopened.openFile⟩
          have hencodable : Encodable (importText s network bundle text).text := by
            rw [text_importText]
            exact (encodable_upsertAll hold).mpr (h.encodable network hbundle hreached)
          rw [importCredentials_opened hbundle hmkdir hread hopened, encodeUtf8, if_pos hencodable]
          dsimp only
          split
          · rename_i t ht
            refine ⟨fun e' he' => ?_, fun e' bytes he' hfile => ?_⟩
            · cases he'
              simp [Foreseen, Faults.all, ht]
            · rcases h.written network hbundle hreached with hnone | hwrite
              · rw [hnone] at hfile
                cases hfile
              · rw [hwrite] at ht
                cases ht
          · exact ⟨nofun, nofun⟩
        · obtain ⟨⟨t, herror, hmem⟩, hkept⟩ := @writeEnvText_unopened faults file
            (importText s network bundle text).text written hopened
          rw [importCredentials_validated hbundle hmkdir hread, herror]
          refine ⟨fun e' he' => ?_, fun e' bytes _ hfile => hkept bytes hfile⟩
          cases he'
          exact hmem

/-- An import raises what is foreseen and keeps the file, however much of a failing write reached
it, exactly if the import is retryable. -/
theorem importAtomic_iff :
    (∀ written, Atomic faults file (importCredentials now s faults written bundle file)) ↔
      Retryable now s faults bundle file :=
  ⟨retryable_of_atomic, atomic_of_retryable⟩

end

/-! ### A list for a version, and a full disk -/

/-- The version is a list. -/
def listVersion : Json := .obj [(py "version", .arr [])]

/-- The disk is full when the new text is flushed. -/
def fullDisk : Faults := { write := some "No space left on device" }

def oldEnv : Bytes := (py "FWD_CALLER_TOKEN=old\n").map Nat.toUInt8

/-- The list ends the import with a `TypeError`, and the full disk takes the old token. -/
theorem import_notAtomic :
    (@importCredentials extendedFormat 0 {} {} 0 listVersion none).1 = .error .typeError ∧
      ¬ @Atomic {} none (@importCredentials extendedFormat 0 {} {} 0 listVersion none) ∧
      (@importCredentials extendedFormat 0 {} fullDisk 0 plainBundle (some oldEnv)).2 = some [] ∧
      ¬ @Atomic fullDisk (some oldEnv)
        (@importCredentials extendedFormat 0 {} fullDisk 0 plainBundle (some oldEnv)) := by
  have htype : (@importCredentials extendedFormat 0 {} {} 0 listVersion none).1 =
      .error .typeError := by rfl
  have hlost : (@importCredentials extendedFormat 0 {} fullDisk 0 plainBundle (some oldEnv)).2 =
      some [] := by decide +kernel
  refine ⟨htype, fun h => h.foreseen _ htype, hlost, fun h => ?_⟩
  cases hrun : (@importCredentials extendedFormat 0 {} fullDisk 0 plainBundle (some oldEnv)).1 with
  | ok result =>
    have hfails : (@importCredentials extendedFormat 0 {} fullDisk 0 plainBundle
        (some oldEnv)).1.toOption.isSome = false := by decide +kernel
    rw [hrun] at hfails
    cases hfails
  | error e =>
    have hkept := h.kept e oldEnv hrun rfl
    rw [hlost] at hkept
    exact absurd (Option.some.inj hkept) (by decide)

end Clif
