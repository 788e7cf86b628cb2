import Clif.ImportSafe

/-!
# ReadBack — what `clif` reads from the env file after an import

The reader is the grammar of `.env` files that `Settings` is loaded with: names without regard to
case, an optional `export`, comments and quotes.  `readsBack_iff` says for which bundles and files
it gives back what was imported.
-/

namespace Clif

open PyStr

/-! ## The reader -/

/-- The ASCII text in the lower case of a character. -/
def PyStr.lowerOf (c : Nat) : List Nat :=
  if 0x41 ≤ c ∧ c ≤ 0x5A then [c + 0x20]
  else if c = 0x212A then [0x6B]
  else if c = 0x130 then [0x69, 0x307]
  else [c]

/-- `str.lower`, as far as it is compared with ASCII text. -/
def PyStr.lower (s : PyStr) : PyStr := s.flatMap lowerOf

/-- The line breaks of the reader. -/
def readerBreaks : Lines.Breaks Nat :=
  ⟨fun c => c == 0x0A || c == 0x0D, 0x0D, 0x0A, rfl, lf_ne_cr⟩

/-- An unquoted value ends at whitespace followed by `#`. -/
def cutComment : PyStr → PyStr
  | c :: d :: cs => if isSpace c && d == 0x23 then [] else c :: cutComment (d :: cs)
  | cs => cs

/-- The value stands in matching quotes. -/
def isQuoted : PyStr → Bool
  | q :: cs => (q == 0x22 || q == 0x27) && cs.getLast? == some q
  | [] => false

def unquote (value : PyStr) : PyStr := if isQuoted value then value.tail.dropLast else value

/-- The value of what stands after the `=`. -/
def readValue (text : PyStr) : PyStr :=
  let value := strip text
  if isQuoted value then unquote value else unquote (rstrip (cutComment value))

/-- An optional `export` followed by whitespace is skipped. -/
def skipExport (key : PyStr) : PyStr :=
  let rest := key.drop 6
  if (py "export").isPrefixOf key && rest.head?.any isSpace then lstrip rest else key

/-- The name, in lower case, and the value that a line gives. -/
def readLine (line : PyStr) : Option (PyStr × PyStr) :=
  let s := lstrip line
  if s.isEmpty || (py "#").isPrefixOf s || !s.contains 0x3D then none
  else
    some (lower (skipExport (strip (s.takeWhile fun c => c != 0x3D))),
      readValue (s.dropWhile fun c => c != 0x3D).tail)

/-- The value that a line gives the name. -/
def readAs (name line : PyStr) : Option PyStr :=
  (readLine line).bind fun nv => if nv.1 = lower name then some nv.2 else none

def readerLines (text : PyStr) : List PyStr := Lines.split readerBreaks text

/-- The value a file gives the name: its last assignment wins. -/
def readEnv (text name : PyStr) : Option PyStr :=
  ((readerLines text).filterMap (readAs name)).getLast?

/-! ### Values that are read as they are written -/

/-- Somewhere whitespace is followed by `#`. -/
def HasComment (value : PyStr) : Prop :=
  ∃ pre c post, value = pre ++ c :: 0x23 :: post ∧ isSpace c = true

theorem cutComment_isPrefix : ∀ (value : PyStr), cutComment value <+: value
  | [] => List.prefix_rfl
  | [_] => List.prefix_rfl
  | c :: d :: cs => by
    unfold cutComment
    split
    · exact List.nil_prefix
    · exact (List.prefix_cons_inj c).mpr (cutComment_isPrefix (d :: cs))

theorem cutComment_eq_self : ∀ {value : PyStr}, cutComment value = value ↔ ¬ HasComment value
  | [] => by
    simp only [cutComment, true_iff]
    rintro ⟨pre, c, post, h, -⟩
    simp at h
  | [x] => by
    simp only [cutComment, true_iff]
    rintro ⟨pre, c, post, h, -⟩
    have hlen := congrArg List.length h
    simp at hlen
    omega
  | c :: d :: cs => by
    unfold cutComment
    by_cases hcut : (isSpace c && d == 0x23) = true
    · obtain ⟨hc, hd⟩ : isSpace c = true ∧ d = 0x23 := by simpa using hcut
      rw [if_pos hcut]
      refine ⟨nofun, fun hnone => absurd ⟨[], c, cs, ?_, hc⟩ hnone⟩
      rw [hd]
      rfl
    · rw [if_neg hcut, List.cons_inj_right, cutComment_eq_self, not_iff_not]
      constructor
      · rintro ⟨pre, x, post, h, hx⟩
        exact ⟨c :: pre, x, post, by rw [h]; rfl, hx⟩
      · rintro ⟨pre, x, post, h, hx⟩
        cases pre with
        | nil =>
          obtain ⟨rfl, hrest⟩ := List.cons.inj h
          obtain ⟨rfl, -⟩ := List.cons.inj hrest
          exact absurd (by simp [hx]) hcut
        | cons y pre => exact ⟨pre, x, post, (List.cons.inj h).2, hx⟩

instance (value : PyStr) : Decidable (HasComment value) :=
  decidable_of_iff (¬ cutComment value = value) (by rw [cutComment_eq_self, not_not])

theorem unquote_length (value : PyStr) : (unquote value).length ≤ value.length := by
  unfold unquote
  split
  · simp only [List.length_dropLast, List.length_tail]
    omega
  · exact le_rfl

theorem rstrip_length (s : PyStr) : (rstrip s).length ≤ s.length :=
  (List.rdropWhile_prefix isSpace s).length_le

theorem rstrip_of_strip {s : PyStr} (h : strip s = s) : rstrip s = s := by
  have hidem : rstrip (rstrip (lstrip s)) = rstrip (lstrip s) := List.rdropWhile_idempotent _ _
  rw [← h, strip, hidem]

/-- A stripped value is read as it is written unless it is quoted or holds a comment. -/
theorem readValue_eq_self {value : PyStr} (h : strip value = value) :
    readValue value = value ↔ isQuoted value = false ∧ ¬ HasComment value := by
  unfold readValue
  rw [h]
  dsimp only
  cases hq : isQuoted value with
  | true =>
    have hne : unquote value ≠ value := by
      intro heq
      have hlen := congrArg List.length heq
      cases value with
      | nil => cases hq
      | cons q cs =>
        rw [unquote, if_pos hq] at hlen
        simp only [List.tail_cons, List.length_dropLast, List.length_cons] at hlen
        omega
    simp [hne]
  | false =>
    rw [if_neg Bool.false_ne_true, ← cutComment_eq_self]
    constructor
    · intro heq
      have hlen := congrArg List.length heq
      have hunquote := unquote_length (rstrip (cutComment value))
      have hrstrip := rstrip_length (cutComment value)
      exact ⟨rfl, (cutComment_isPrefix value).eq_of_length_le (by omega)⟩
    · rintro ⟨-, hcut⟩
      rw [hcut, rstrip_of_strip h, unquote, hq]
      rfl

/-- What is read of a line stands in it. -/
theorem mem_of_readValue {text : PyStr} {c : Nat} (h : c ∈ readValue text) : c ∈ text := by
  have hunquote : ∀ {s : PyStr}, c ∈ unquote s → c ∈ s := by
    intro s hs
    unfold unquote at hs
    split at hs
    · exact List.mem_of_mem_tail (List.mem_of_mem_dropLast hs)
    · exact hs
  have hrstrip : ∀ {s : PyStr}, c ∈ rstrip s → c ∈ s := fun {s} hs =>
    (List.rdropWhile_prefix isSpace s).subset hs
  have hstrip : c ∈ strip text → c ∈ text := fun hs =>
    (List.dropWhile_sublist _).subset (hrstrip hs)
  unfold readValue at h
  dsimp only at h
  split at h
  · exact hstrip (hunquote h)
  · exact hstrip ((cutComment_isPrefix _).subset (hrstrip (hunquote h)))

theorem mem_of_readLine {line name value : PyStr} {c : Nat} (h : readLine line = some (name, value))
    (hc : c ∈ value) : c ∈ line := by
  unfold readLine at h
  dsimp only at h
  split at h
  · cases h
  · obtain ⟨-, rfl⟩ := Prod.mk.inj (Option.some.inj h)
    have htail := List.mem_of_mem_tail (mem_of_readValue hc)
    exact (List.dropWhile_sublist _).subset ((List.dropWhile_sublist _).subset htail)

/-! ### The line of an assignment -/

/-- A name is read as it is written, in lower case, and its value as `readValue` has it. -/
theorem readLine_assignment {name value : PyStr} (h : PlainName name) :
    readLine (assignment name value) = some (lower name, readValue value) := by
  have hspaces : ∀ c ∈ name, isSpace c = false := fun c hc => (h.plain c hc).1
  have hstart : lstrip (assignment name value) = assignment name value := by
    cases hn : name with
    | nil => exact absurd hn h.nonempty
    | cons c cs => exact lstrip_cons (hspaces c (by rw [hn]; exact List.mem_cons_self))
  have hcomment : (py "#").isPrefixOf (assignment name value) = false := by
    cases hn : name with
    | nil => exact absurd hn h.nonempty
    | cons c cs =>
      have hc := h.comment
      rw [hn] at hc
      simpa [py, assignment, List.isPrefixOf] using hc
  have hempty : (assignment name value).isEmpty = false := by simp [assignment]
  have hequals : (assignment name value).contains 0x3D = true := by simp [assignment]
  have hexport : skipExport name = name := by
    unfold skipExport
    have hrest : (name.drop 6).head?.any isSpace = false := by
      cases hd : name.drop 6 with
      | nil => rfl
      | cons c cs =>
        have hc : c ∈ name := List.mem_of_mem_drop (by rw [hd]; exact List.mem_cons_self)
        simpa using hspaces c hc
    dsimp only
    rw [hrest, Bool.and_false]
    rfl
  have hvalue : ((assignment name value).dropWhile fun c => c != 0x3D).tail = value :=
    assignedValue_assignment h
  unfold readLine
  simp only [hstart, hempty, hcomment, hequals, takeWhile_assignment h, strip_of_forall hspaces,
    hexport, hvalue]
  rfl

/-! ## What is read after the upserts -/

/-- The file that ends with the upsert of a value on one line has the same lines for the reader. -/
theorem readerLines_upsert {text name value : PyStr} (h : PlainName name)
    (hfree : BreakFree value) : readerLines (upsertEnvVar text name value) =
      splitlines (upsertEnvVar text name value) := by
  have hlines : splitlines (upsertEnvVar text name value) =
      Lines.collapse (fun line => isAssignment line name) (assignment name value) false
        (splitlines text) := (upsert_own_line h).mpr hfree
  have hne : Lines.collapse (fun line => isAssignment line name) (assignment name value) false
      (splitlines text) ≠ [] :=
    List.ne_nil_of_mem (Lines.mem_collapse.mpr (.inr ⟨rfl, rfl⟩))
  have hunlines : upsertEnvVar text name value = Lines.unlines readerBreaks
      (splitlines (upsertEnvVar text name value)) := by
    rw [hlines]
    exact intercalate_unlines hne
  have hreader : ∀ line ∈ splitlines (upsertEnvVar text name value),
      Lines.BreakFree readerBreaks line := by
    intro line hline c hc
    have hbreak : isLineBreak c = false := breakFree_of_mem hline c hc
    simp only [isLineBreak, Bool.or_eq_false_iff, Bool.and_eq_false_iff, decide_eq_false_iff_not]
      at hbreak
    simp only [readerBreaks, Bool.or_eq_false_iff, beq_eq_false_iff_ne]
    omega
  conv_lhs => rw [hunlines]
  rw [readerLines, Lines.split_unlines, Lines.flatMap_pieces hreader]

/-- A value that is read as it is written. -/
structure ReadAsWritten (value : PyStr) : Prop where
  oneLine : BreakFree value
  comment : ¬ HasComment value
  quoted : isQuoted value = false

/-- What the reader takes for another assignment of a written name, and the writer does not, has the
value that is written. -/
def NoOtherSpelling (ws : List (PyStr × PyStr)) (old : PyStr) : Prop :=
  ∀ line ∈ splitlines old, (∀ w ∈ ws, assignedName line ≠ some w.1) →
    ∀ w ∈ ws, ∀ value, readAs w.1 line = some value → value = w.2

/-- The file gives every written name its value, and no line gives it another one. -/
def ReadsBack (ws : List (PyStr × PyStr)) (new : PyStr) : Prop :=
  ∀ w ∈ ws, readEnv new w.1 = some w.2 ∧
    ∀ line ∈ readerLines new, ∀ value, readAs w.1 line = some value → value = w.2

theorem readEnv_of_forall {text name value line : PyStr} (hline : line ∈ readerLines text)
    (hvalue : readAs name line = some value)
    (hall : ∀ line ∈ readerLines text, ∀ v, readAs name line = some v → v = value) :
    readEnv text name = some value := by
  have hmem : value ∈ (readerLines text).filterMap (readAs name) :=
    List.mem_filterMap.mpr ⟨line, hline, hvalue⟩
  rw [readEnv, List.getLast?_eq_some_getLast (List.ne_nil_of_mem hmem)]
  obtain ⟨last, hlast, hread⟩ := List.mem_filterMap.mp
    (List.getLast_mem (List.ne_nil_of_mem hmem))
  exact congrArg some (hall last hlast _ hread)

theorem readAs_of_readEnv {text name value : PyStr} (h : readEnv text name = some value) :
    ∃ line ∈ readerLines text, readAs name line = some value :=
  List.mem_filterMap.mp (List.mem_of_getLast? h)

theorem readAs_assignment {name name' value : PyStr} (h : PlainName name') :
    readAs name (assignment name' value) =
      if lower name' = lower name then some (readValue value) else none := by
  rw [readAs, readLine_assignment h]
  rfl

section

variable {ws : List (PyStr × PyStr)} {old : PyStr}

/-- The upserts are read back exactly if their values agree and are read as they are written, and
no other spelling is left over. -/
theorem readsBack_upsertAll (hplain : ∀ w ∈ ws, PlainName w.1)
    (hlower : ∀ w ∈ ws, ∀ w' ∈ ws, lower w.1 = lower w'.1 → w.1 = w'.1)
    (hstrip : ∀ w ∈ ws, strip w.2 = w.2)
    (hreader : readerLines (upsertAll old ws) = splitlines (upsertAll old ws)) :
    ReadsBack ws (upsertAll old ws) ↔
      OneValue ws ∧ (∀ w ∈ ws, ReadAsWritten w.2) ∧ NoOtherSpelling ws old := by
  constructor
  · intro hread
    have hone : OneValue ws := by
      intro w hw w' hw' hname
      have hvalue := (hread w hw).1
      rw [hname, (hread w' hw').1] at hvalue
      exact (Option.some.inj hvalue).symm
    have hfree : ∀ w ∈ ws, BreakFree w.2 := by
      intro w hw
      obtain ⟨line, hline, hvalue⟩ := readAs_of_readEnv (hread w hw).1
      rw [hreader] at hline
      obtain ⟨⟨name, v⟩, hnv, hif⟩ := Option.bind_eq_some_iff.mp hvalue
      split at hif
      · intro c hc
        rw [← Option.some.inj hif] at hc
        exact breakFree_of_mem hline c (mem_of_readLine hnv hc)
      · cases hif
    refine ⟨hone, fun w hw => ?_, fun line hline hnot w hw value hvalue => ?_⟩
    · -- the last upsert of the name leaves its line
      obtain ⟨pre, w', post, heq, hname, hpost⟩ := exists_last_upsert hw
      have hw' : w' ∈ ws := by
        rw [heq]
        simp
      have hline : assignment w'.1 w'.2 ∈ splitlines (upsertAll old ws) := by
        refine mem_splitlines_upsertAll.mpr (.inr ⟨pre, w', post, heq, ?_, fun x hx => ?_⟩)
        · rw [pieces_assignment (hplain w' hw') (hfree w' hw')]
          exact List.mem_singleton_self _
        · rw [assignedName_assignment (hplain w' hw'), hname]
          exact fun h => hpost x hx (Option.some.inj h).symm
      have hgives : readAs w.1 (assignment w'.1 w'.2) = some (readValue w'.2) := by
        rw [readAs_assignment (hplain w' hw'), hname, if_pos rfl]
      have hself := (hread w hw).2 _ (hreader ▸ hline) _ hgives
      rw [hone w' hw' w hw hname] at hself
      obtain ⟨hquoted, hcomment⟩ := (readValue_eq_self (hstrip w hw)).mp hself
      exact ⟨hfree w hw, hcomment, hquoted⟩
    · refine (hread w hw).2 line ?_ value hvalue
      rw [hreader]
      exact mem_splitlines_upsertAll.mpr (.inl ⟨hline, hnot⟩)
  · rintro ⟨hone, hwritten, hother⟩ w hw
    have hvalue : ∀ w ∈ ws, readValue w.2 = w.2 := fun w hw =>
      (readValue_eq_self (hstrip w hw)).mpr ⟨(hwritten w hw).quoted, (hwritten w hw).comment⟩
    have hpieces : ∀ w ∈ ws, pieces (assignment w.1 w.2) = [assignment w.1 w.2] := fun w hw =>
      pieces_assignment (hplain w hw) (hwritten w hw).oneLine
    have hall : ∀ line ∈ readerLines (upsertAll old ws), ∀ value,
        readAs w.1 line = some value → value = w.2 := by
      intro line hline value hread
      rw [hreader] at hline
      rcases mem_splitlines_upsertAll.mp hline with ⟨hline, hnot⟩ | ⟨pre, w', post, heq, hline, -⟩
      · exact hother line hline hnot w hw value hread
      · have hw' : w' ∈ ws := by
          rw [heq]
          simp
        rw [hpieces w' hw'] at hline
        rw [List.mem_singleton.mp hline, readAs_assignment (hplain w' hw')] at hread
        split at hread
        · rename_i hsame
          rw [← Option.some.inj hread, hvalue w' hw']
          exact hone w' hw' w hw (hlower w' hw' w hw hsame)
        · cases hread
    obtain ⟨pre, w', post, heq, hname, hpost⟩ := exists_last_upsert hw
    have hw' : w' ∈ ws := by
      rw [heq]
      simp
    have hline : assignment w'.1 w'.2 ∈ readerLines (upsertAll old ws) := by
      rw [hreader]
      refine mem_splitlines_upsertAll.mpr (.inr ⟨pre, w', post, heq, ?_, fun x hx => ?_⟩)
      · rw [hpieces w' hw']
        exact List.mem_singleton_self _
      · rw [assignedName_assignment (hplain w' hw'), hname]
        exact fun h => hpost x hx (Option.some.inj h).symm
    refine ⟨readEnv_of_forall hline ?_ hall, hall⟩
    rw [readAs_assignment (hplain w' hw'), hname, if_pos rfl, hvalue w' hw',
      hone w' hw' w hw hname]

end

/-! ## The import -/

/-- A text without small letters can be got back from its lower case. -/
theorem map_lower {s : PyStr} (h : ∀ c ∈ s, c < 0x61) :
    (lower s).map (fun c => if 0x61 ≤ c then c - 0x20 else c) = s := by
  induction s with
  | nil => rfl
  | cons c s ih =>
    obtain ⟨hc, hs⟩ := List.forall_mem_cons.mp h
    have hone : (lowerOf c).map (fun c => if 0x61 ≤ c then c - 0x20 else c) = [c] := by
      unfold lowerOf
      by_cases hcap : 0x41 ≤ c ∧ c ≤ 0x5A
      · rw [if_pos hcap, List.map_singleton, if_pos (by omega)]
        rfl
      · have h212A : c ≠ 0x212A := by omega
        have h130 : c ≠ 0x130 := by omega
        rw [if_neg hcap, if_neg h212A, if_neg h130, List.map_singleton, if_neg (by omega)]
    rw [lower, List.flatMap_cons, List.map_append, hone, List.singleton_append, ← lower, ih hs]

theorem lower_settingsFields : ∀ name ∈ settingsFields, ∀ c ∈ upper (py name), c < 0x61 :=
  fun name hname => (settingsFields_names name hname).2.1

theorem lower_capabilities : ∀ cap ∈ capabilities {}, (∀ c ∈ cap.callerTokenEnv, c < 0x61) ∧
    ∀ c ∈ cap.walletEnv, c < 0x61 := by
  decide +kernel

theorem lower_own {s : Settings} {name : PyStr} (h : name ∈ ownNames s) : ∀ c ∈ name, c < 0x61 :=
  forall_own (P := fun name => ∀ c ∈ name, c < 0x61) h lower_capabilities lower_settingsFields
    (by decide)

theorem strip_of_isClean {value : PyStr} (h : isClean value = true) : strip value = value := by
  simp only [isClean, Bool.and_eq_true, beq_iff_eq] at h
  exact h.1.symm

/-- The values of an import are stripped. -/
theorem strip_bundleWrites {s : Settings} {network : Network} {bundle : Json}
    (h : Accepted s network bundle) : ∀ w ∈ bundleWrites s network bundle, strip w.2 = w.2 := by
  intro w hw
  rcases List.mem_append.mp hw with hw | hw
  · rcases List.mem_append.mp hw with hw | hw
    · obtain ⟨entry, hentry, hw⟩ := List.mem_flatMap.mp hw
      obtain ⟨cap, hcap⟩ := h.entries entry hentry
      rcases List.mem_cons.mp hw with rfl | hw
      · exact strip_of_isClean hcap.token
      · split at hw
        · rename_i hv2
          rw [List.mem_singleton.mp hw]
          exact strip_of_isClean (hcap.wallet hv2)
        · cases hw
    · unfold configWrites at hw
      split at hw
      · rename_i hv2
        obtain ⟨item, hitem, rfl⟩ := List.mem_map.mp hw
        exact strip_of_isClean (h.config hv2 item hitem).clean
      · cases hw
  · rw [List.mem_singleton.mp hw]
    cases network <;> decide

section

variable [Calendar]

/-- An accepted import is read back as it was granted exactly if its values for one name agree, each
is read as it is written, and the file held no other spelling of a name with another value. -/
theorem readsBack_iff {now : ℚ} {s : Settings} {bundle : Json} {network : Network} {old : PyStr}
    (h : validateBundle now s bundle = .ok network) :
    ReadsBack (bundleWrites s network bundle) (importText s network bundle old).text ↔
      OneValue (bundleWrites s network bundle) ∧
        (∀ w ∈ bundleWrites s network bundle, ReadAsWritten w.2) ∧
        NoOtherSpelling (bundleWrites s network bundle) old := by
  have hacc := validateBundle_ok h
  have hown : ∀ w ∈ bundleWrites s network bundle, ∀ c ∈ w.1, c < 0x61 := fun w hw =>
    lower_own (bundleWrites_own hacc hw)
  rw [text_importText]
  refine readsBack_upsertAll (fun w hw => bundleWrites_plain hacc hw) (fun w hw w' hw' hlower => ?_)
    (strip_bundleWrites hacc) ?_
  · rw [← map_lower (hown w hw), hlower, map_lower (hown w' hw')]
  · have hnetwork : PlainName (py "NETWORK") := plainName_of_isPlain (by decide)
    rw [bundleWrites, upsertAll_snoc]
    refine readerLines_upsert hnetwork ?_
    cases network <;> decide

end

/-! ### A revoked token in another spelling -/

/-- The old token, and the same name after `export` and a tab. -/
def tabbedExport : PyStr := py "FWD_CALLER_TOKEN=old\nexport\tFWD_CALLER_TOKEN=revoked\n"

/-- After the import the reader still finds the revoked token, and takes it for the current one. -/
theorem tabbedExport_stale :
    @validateBundle extendedFormat 0 {} plainBundle = .ok .flare ∧
      readEnv (importText {} .flare plainBundle tabbedExport).text (py "FWD_CALLER_TOKEN") =
        some (py "revoked") ∧
      ¬ ReadsBack (bundleWrites {} .flare plainBundle)
        (importText {} .flare plainBundle tabbedExport).text := by
  have hstale : readEnv (importText {} .flare plainBundle tabbedExport).text
      (py "FWD_CALLER_TOKEN") = some (py "revoked") := by decide +kernel
  refine ⟨plainBundle_accepted, hstale, fun hread => ?_⟩
  have hmem : (py "FWD_CALLER_TOKEN", py "token") ∈ bundleWrites {} .flare plainBundle := by
    decide +kernel
  have htoken := (hread _ hmem).1
  rw [hstale] at htoken
  exact absurd (Option.some.inj htoken) (by decide)

theorem readsBack_plain :
    ReadsBack (bundleWrites {} .flare plainBundle)
      (importText {} .flare plainBundle (py "FWD_CALLER_TOKEN=old\n")).text := by
  have hwritten : ∀ w ∈ bundleWrites {} .flare plainBundle,
      BreakFree w.2 ∧ ¬ HasComment w.2 ∧ isQuoted w.2 = false := by decide +kernel
  have hold : ∀ line ∈ splitlines (py "FWD_CALLER_TOKEN=old\n"),
      ∃ w ∈ bundleWrites {} .flare plainBundle, assignedName line = some w.1 := by decide +kernel
  refine (@readsBack_iff extendedFormat _ _ _ _ _ plainBundle_accepted).mpr
    ⟨by decide +kernel, fun w hw => ?_, fun line hline hnot => ?_⟩
  · obtain ⟨hfree, hcomment, hquoted⟩ := hwritten w hw
    exact ⟨hfree, hcomment, hquoted⟩
  · obtain ⟨w, hw, hname⟩ := hold line hline
    exact absurd hname (hnot w hw)

end Clif
