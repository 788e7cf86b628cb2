import Clif.ImportTruth

/-!
# Keyless — `clif` refuses to run beside a private key, `config.py`

`assert_keyless` looks at the names of the environment and of the env file.  An import can turn
a file it accepts into one that it refuses: `keyless_import_iff` says for which bundles.
-/

namespace Clif

open PyStr

/-- `"PRIVATE_KEY" in name.upper()`. -/
def isKeyName (name : PyStr) : Bool := isIn (py "PRIVATE_KEY") (upper name)

/-- The offending name of a line. -/
def offenderOf (line : PyStr) : Option PyStr := (assignedName line).filter isKeyName

/-- `_env_file_offenders`; `none` is a file that is not there. -/
def envFileOffenders : Option PyStr → List PyStr
  | none => []
  | some text => (splitlines text).filterMap offenderOf

/-- `KeylessViolation`, with the names its text shows. -/
structure KeylessViolation where
  environment : List PyStr
  file : List PyStr
deriving DecidableEq

/-- `assert_keyless`; `environ` are the names of `os.environ`. -/
def assertKeyless (environ : List PyStr) (envFile : Option PyStr) : Except KeylessViolation Unit :=
  let envOff := environ.filter isKeyName
  let fileOff := envFileOffenders envFile
  if !envOff.isEmpty || !fileOff.isEmpty then
    .error ⟨envOff.insertionSort fun a b => a ≤ b, fileOff⟩
  else .ok ()

/-- The private-key names that a written value assigns on lines of its own. -/
def hiddenKeys (value : PyStr) : List PyStr := (pieces value).tail.filterMap offenderOf

theorem assertKeyless_iff {environ : List PyStr} {envFile : Option PyStr} :
    assertKeyless environ envFile = .ok () ↔
      (∀ name ∈ environ, isKeyName name = false) ∧ envFileOffenders envFile = [] := by
  have henv : (environ.filter isKeyName).isEmpty = true ↔
      ∀ name ∈ environ, isKeyName name = false := by
    simp [List.isEmpty_iff, List.filter_eq_nil_iff]
  rw [← henv, ← List.isEmpty_iff]
  unfold assertKeyless
  dsimp only
  split
  · rename_i h
    refine iff_of_false (fun hok => by cases hok) fun hand => ?_
    rw [hand.1, hand.2] at h
    cases h
  · rename_i h
    refine iff_of_true rfl ?_
    simpa using h

/-! ## One upsert -/

theorem filterMap_filter_of_none {α β : Type} {f : α → Option β} {p : α → Bool}
    (h : ∀ a, p a = false → f a = none) (l : List α) : (l.filter p).filterMap f = l.filterMap f := by
  induction l with
  | nil => rfl
  | cons a l ih =>
    cases hp : p a with
    | true => rw [List.filter_cons_of_pos hp, List.filterMap_cons, List.filterMap_cons, ih]
    | false =>
      rw [List.filter_cons_of_neg (by simp [hp]), ih, List.filterMap_cons, h a hp]

theorem offenderOf_eq_none {line name : PyStr} (hname : assignedName line = some name)
    (hkey : isKeyName name = false) : offenderOf line = none := by
  rw [offenderOf, hname]
  simp [hkey]

theorem offenders_pieces {name value : PyStr} (hplain : PlainName name)
    (hkey : isKeyName name = false) :
    (pieces (assignment name value)).filterMap offenderOf = hiddenKeys value := by
  have hfree : BreakFree (name ++ [0x3D]) := by
    refine breakFree_append.mpr ⟨hplain.breakFree, fun c hc => ?_⟩
    rw [List.mem_singleton.mp hc]
    rfl
  have hsplit : assignment name value = (name ++ [0x3D]) ++ value := by simp [assignment]
  have hfirst : (name ++ [0x3D]) ++ value.takeWhile (fun c => !lineBreaks.isBreak c) =
      assignment name (value.takeWhile fun c => !lineBreaks.isBreak c) := by simp [assignment]
  rw [hsplit, pieces, Lines.pieces_append hfree, hfirst, List.filterMap_cons,
    offenderOf_eq_none (assignedName_assignment hplain) hkey]
  rfl

/-- The upsert of a name that is no key adds the keys hidden in the value, and hides none. -/
theorem offenders_upsert {text name value : PyStr} (hplain : PlainName name)
    (hkey : isKeyName name = false) :
    (envFileOffenders (some (upsertEnvVar text name value))).Perm
      (envFileOffenders (some text) ++ hiddenKeys value) := by
  have hnone : ∀ line, (!isAssignment line name) = false → offenderOf line = none := by
    intro line h
    exact offenderOf_eq_none (isAssignment_iff.mp (by simpa using h)) hkey
  have hfree : ∀ l ∈ splitlines text, BreakFree l := fun l hl => breakFree_of_mem hl
  have hold : splitlines text = ((splitlines text).takeWhile fun l => !isAssignment l name) ++
      (splitlines text).dropWhile fun l => !isAssignment l name :=
    List.takeWhile_append_dropWhile.symm
  have hbefore : ((splitlines text).takeWhile fun l => !isAssignment l name).flatMap pieces =
      (splitlines text).takeWhile fun l => !isAssignment l name :=
    Lines.flatMap_pieces fun l hl => hfree l ((List.takeWhile_sublist _).subset hl)
  have hafter : (((splitlines text).dropWhile fun l => !isAssignment l name).filter fun l =>
      !isAssignment l name).flatMap pieces =
        ((splitlines text).dropWhile fun l => !isAssignment l name).filter fun l =>
          !isAssignment l name :=
    Lines.flatMap_pieces fun l hl => hfree l
      ((List.dropWhile_sublist _).subset (List.mem_filter.mp hl).1)
  have hnew : (splitlines (upsertEnvVar text name value)).filterMap offenderOf =
      ((splitlines text).takeWhile fun l => !isAssignment l name).filterMap offenderOf ++
        (hiddenKeys value ++
          ((splitlines text).dropWhile fun l => !isAssignment l name).filterMap offenderOf) := by
    rw [splitlines_upsert, Lines.collapse_false, List.flatMap_append, List.flatMap_cons, hbefore,
      hafter, List.filterMap_append, List.filterMap_append, offenders_pieces hplain hkey,
      filterMap_filter_of_none hnone]
  show List.Perm ((splitlines _).filterMap offenderOf) ((splitlines text).filterMap _ ++ _)
  rw [hnew]
  nth_rewrite 3 [hold]
  rw [List.filterMap_append, List.append_assoc]
  exact List.Perm.append_left _ List.perm_append_comm

theorem offenders_upsertAll {text : PyStr} {ws : List (PyStr × PyStr)}
    (hplain : ∀ w ∈ ws, PlainName w.1) (hkey : ∀ w ∈ ws, isKeyName w.1 = false) :
    (envFileOffenders (some (upsertAll text ws))).Perm
      (envFileOffenders (some text) ++ ws.flatMap fun w => hiddenKeys w.2) := by
  induction ws using List.reverseRecOn with
  | nil => simp [upsertAll]
  | append_singleton ws w ih =>
    obtain ⟨hplain, hw⟩ := List.forall_mem_append.mp hplain
    obtain ⟨hkey, hk⟩ := List.forall_mem_append.mp hkey
    have hmem : w ∈ [w] := List.mem_singleton_self w
    have hstep := @offenders_upsert (upsertAll text ws) w.1 w.2 (hw w hmem) (hk w hmem)
    rw [upsertAll_snoc, List.flatMap_append, ← List.append_assoc]
    refine hstep.trans ?_
    simpa using (ih hplain hkey).append_right (hiddenKeys w.2)

/-! ## The import -/

theorem isIn_iff {sub s : PyStr} : isIn sub s = true ↔ sub <:+: s := by
  unfold isIn
  rw [List.any_eq_true, List.infix_iff_prefix_suffix]
  constructor
  · rintro ⟨t, ht, hpre⟩
    exact ⟨t, List.isPrefixOf_iff_prefix.mp hpre, (List.mem_tails _ _).mp ht⟩
  · rintro ⟨t, hpre, hsuf⟩
    exact ⟨t, (List.mem_tails _ _).mpr hsuf, List.isPrefixOf_iff_prefix.mpr hpre⟩

theorem isKeyName_mono {a b : PyStr} (h : a <:+: b) (ha : isKeyName a = true) :
    isKeyName b = true := by
  obtain ⟨s, t, rfl⟩ := h
  refine isIn_iff.mpr ((isIn_iff.mp ha).trans ⟨upper s, upper t, ?_⟩)
  simp [upper]

theorem infix_strip {s : PyStr} : strip s <:+: s := by
  have hright : strip s <+: lstrip s := List.rdropWhile_prefix _ _
  exact hright.isInfix.trans (List.dropWhile_suffix _).isInfix

theorem infix_assignedName {line name : PyStr} (h : assignedName line = some name) :
    name <:+: line := by
  unfold assignedName at h
  dsimp only at h
  split at h
  · cases h
  have hkey : strip ((strip line).takeWhile fun c => c != 0x3D) <:+: line :=
    infix_strip.trans ((List.takeWhile_prefix _).isInfix.trans infix_strip)
  obtain rfl := Option.some.inj h
  split
  · exact infix_strip.trans ((List.drop_suffix _ _).isInfix.trans hkey)
  · exact hkey

/-- A value without the words hides no key. -/
theorem hiddenKeys_eq_nil {value : PyStr} (h : isKeyName value = false) : hiddenKeys value = [] := by
  refine List.filterMap_eq_nil_iff.mpr fun line hline => ?_
  by_contra hne
  obtain ⟨name, hname⟩ := Option.ne_none_iff_exists'.mp hne
  obtain ⟨hassigned, hkey⟩ := Option.filter_eq_some_iff.mp hname
  have hvalue := isKeyName_mono ((infix_assignedName hassigned).trans
    (Lines.infix_of_mem_pieces (List.mem_of_mem_tail hline))) hkey
  rw [h] at hvalue
  cases hvalue

theorem isKeyName_own {s : Settings} {name : PyStr} (h : name ∈ ownNames s) :
    isKeyName name = false := by
  have hcaps : ∀ cap ∈ capabilities {}, isKeyName cap.callerTokenEnv = false ∧
      isKeyName cap.walletEnv = false := by decide +kernel
  have hfields : ∀ field ∈ settingsFields, isKeyName (upper (py field)) = false :=
    fun field hfield => (settingsFields_names field hfield).2.2
  exact forall_own (P := fun name => isKeyName name = false) h hcaps hfields (by decide)

theorem isKeyName_network (network : Network) : isKeyName (py network.str) = false := by
  cases network <;> decide

theorem validateConfigItem_keyless {allowlist : List PyStr} {key : PyStr} {value : Json}
    (h : validateConfigItem allowlist key value = .ok ()) : isKeyName value.text = false := by
  unfold validateConfigItem at h
  split at h
  · cases h
  rename_i hkey
  show isKeyName (value.str?.getD []) = false
  cases hv : value.str? with
  | none => decide
  | some v =>
    rw [hv] at hkey
    simp only [Option.any_some, Bool.or_eq_true, not_or] at hkey
    exact Bool.eq_false_of_not_eq_true hkey.2

theorem validateConfigItems_keyless {allowlist : List PyStr} : ∀ {items : List (PyStr × Json)},
    validateConfigItems allowlist items = .ok () →
      ∀ item ∈ items, isKeyName item.2.text = false := by
  intro items
  induction items with
  | nil =>
    intro _ item hitem
    cases hitem
  | cons item items ih =>
    intro h
    obtain ⟨key, value⟩ := item
    unfold validateConfigItems at h
    cases hitem : validateConfigItem allowlist key value with
    | error e =>
      rw [hitem] at h
      cases h
    | ok _ =>
      rw [hitem] at h
      exact List.forall_mem_cons.mpr ⟨validateConfigItem_keyless hitem, ih h⟩

section

variable [Calendar] {now : ℚ} {s : Settings} {network : Network} {bundle : Json}

theorem validateBundle_config (h : validateBundle now s bundle = .ok network)
    (hv2 : isV2 bundle = true) :
    validateConfig { s with network := network } bundle (py network.str) = .ok () := by
  unfold validateBundle at h
  cases hheader : validateHeader now bundle with
  | error e =>
    rw [hheader] at h
    cases h
  | ok ne =>
    obtain ⟨net, entries⟩ := ne
    rw [hheader] at h
    simp only [bind, Except.bind] at h
    cases hentries : validateEntries { s with network := net } (isV2 bundle) entries with
    | error e =>
      rw [hentries] at h
      cases h
    | ok _ =>
      rw [hentries, if_pos hv2] at h
      cases hconfig : validateConfig { s with network := net } bundle (py net.str) with
      | error e =>
        rw [hconfig] at h
        cases h
      | ok _ =>
        rw [hconfig] at h
        cases h
        exact hconfig

/-- The config section of an accepted bundle holds no key. -/
theorem configWrites_keyless (h : validateBundle now s bundle = .ok network) :
    ∀ w ∈ configWrites bundle, isKeyName w.2 = false := by
  intro w hw
  unfold configWrites at hw
  split at hw
  swap
  · cases hw
  rename_i hv2
  obtain ⟨item, hitem, rfl⟩ := List.mem_map.mp hw
  obtain ⟨d, hd, hmem⟩ := mem_configItems.mp hitem
  have hconfig := validateBundle_config h hv2
  unfold validateConfig validateConfigSection at hconfig
  rw [hd] at hconfig
  dsimp only at hconfig
  cases hitems : validateConfigItems (configEnvAllowlist { s with network := network })
      d.entries with
  | error e =>
    rw [hitems] at hconfig
    cases hconfig
  | ok _ => exact validateConfigItems_keyless hitems item hmem

/-- After an accepted import `assert_keyless` passes on the env file exactly if it passed on the old
one and no token or wallet name of the bundle assigns a private-key name on a line of its own.  One
that was there is never hidden. -/
theorem keyless_import_iff {environ : List PyStr} {old : PyStr}
    (h : validateBundle now s bundle = .ok network) :
    assertKeyless environ (some (importText s network bundle old).text) = .ok () ↔
      assertKeyless environ (some old) = .ok () ∧
        ∀ w ∈ credentialWrites s network bundle, hiddenKeys w.2 = [] := by
  have hacc := validateBundle_ok h
  have hperm : (envFileOffenders (some (importText s network bundle old).text)).Perm
      (envFileOffenders (some old) ++
        (bundleWrites s network bundle).flatMap fun w => hiddenKeys w.2) := by
    rw [text_importText]
    exact offenders_upsertAll (fun w hw => bundleWrites_plain hacc hw) fun w hw =>
      isKeyName_own (bundleWrites_own hacc hw)
  have hlater : ∀ w ∈ laterWrites network bundle, hiddenKeys w.2 = [] := by
    intro w hw
    refine hiddenKeys_eq_nil ?_
    rcases List.mem_append.mp hw with hw | hw
    · exact configWrites_keyless h w hw
    · rw [List.mem_singleton.mp hw]
      exact isKeyName_network network
  have hnone : envFileOffenders (some (importText s network bundle old).text) = [] ↔
      envFileOffenders (some old) = [] ∧
        ∀ w ∈ credentialWrites s network bundle, hiddenKeys w.2 = [] := by
    rw [← List.length_eq_zero_iff, hperm.length_eq, List.length_eq_zero_iff,
      List.append_eq_nil_iff, List.flatMap_eq_nil_iff, bundleWrites_eq]
    refine and_congr_right fun _ => ⟨fun hall w hw => hall w (List.mem_append_left _ hw), ?_⟩
    exact fun hall => List.forall_mem_append.mpr ⟨hall, hlater⟩
  rw [assertKeyless_iff, assertKeyless_iff, hnone, and_assoc]

end

/-! ### A private key after a line separator -/

/-- `clif` refuses the file it has just written. -/
example :
    @validateBundle extendedFormat 0 {}
        (flareBundle 1 [claimEntry (py "t" ++ 0x2028 :: py "A_PRIVATE_KEY=0x1") []] []) =
          .ok .flare ∧
      assertKeyless [] (some (importText {} .flare
        (flareBundle 1 [claimEntry (py "t" ++ 0x2028 :: py "A_PRIVATE_KEY=0x1") []] []) []).text) =
          .error ⟨[], [py "A_PRIVATE_KEY"]⟩ :=
  ⟨eq_ok_of_toOption (by decide +kernel), by decide +kernel⟩

theorem keyless_import_plain :
    assertKeyless [py "HOME"] (some (importText {} .flare plainBundle (py "A=1\n")).text) = .ok () :=
  (@keyless_import_iff extendedFormat 0 {} .flare plainBundle [py "HOME"] (py "A=1\n")
    plainBundle_accepted).mpr (by decide +kernel)

end Clif
