import Clif.ImportSafe

/-!
# ImportTruth — the result of an import and the order of its entries

What the result says was imported stands in the file, and the order of the capability list does not
matter, for the bundles of `importTruth_iff`.
-/

namespace Clif

open PyStr

/-! ## What a text assigns -/

/-- A line assigns the value to the name. -/
def AssignsTo (text name value : PyStr) : Prop :=
  ∃ line ∈ splitlines text, assignedName line = some name ∧ assignedValue line = value

/-- The name has the value, and no other. -/
def AssignsOnly (text name value : PyStr) : Prop :=
  AssignsTo text name value ∧ ∀ v, AssignsTo text name v → v = value

def SameAssignments (text text' : PyStr) : Prop :=
  ∀ name value, AssignsTo text name value ↔ AssignsTo text' name value

/-- One of the upserts writes a line that assigns the value to the name, and none after it replaces
the line. -/
def Leaves (ws : List (PyStr × PyStr)) (name value : PyStr) : Prop :=
  ∃ pre w post, ws = pre ++ w :: post ∧
    (∃ line ∈ pieces (assignment w.1 w.2), assignedName line = some name ∧
      assignedValue line = value) ∧ ∀ w' ∈ post, w'.1 ≠ name

section

variable {old name value : PyStr} {ws : List (PyStr × PyStr)}

/-- A name keeps what it had, or has what the upserts left. -/
theorem assignsTo_upsertAll : AssignsTo (upsertAll old ws) name value ↔
    (AssignsTo old name value ∧ ∀ w ∈ ws, w.1 ≠ name) ∨ Leaves ws name value := by
  constructor
  · rintro ⟨line, hline, hname, hvalue⟩
    rcases mem_splitlines_upsertAll.mp hline with ⟨hline, hnot⟩ | ⟨pre, w, post, heq, hline, hnot⟩
    · refine .inl ⟨⟨line, hline, hname, hvalue⟩, fun w hw hsame => hnot w hw ?_⟩
      rw [hname, hsame]
    · refine .inr ⟨pre, w, post, heq, ⟨line, hline, hname, hvalue⟩, fun w' hw' hsame => ?_⟩
      exact hnot w' hw' (by rw [hname, hsame])
  · rintro (⟨⟨line, hline, hname, hvalue⟩, hnot⟩ |
      ⟨pre, w, post, heq, ⟨line, hline, hname, hvalue⟩, hnot⟩)
    · refine ⟨line, mem_splitlines_upsertAll.mpr (.inl ⟨hline, fun w hw hw' => ?_⟩), hname, hvalue⟩
      rw [hname] at hw'
      exact hnot w hw (Option.some.inj hw').symm
    · refine ⟨line,
        mem_splitlines_upsertAll.mpr (.inr ⟨pre, w, post, heq, hline, fun w' hw' h => ?_⟩),
        hname, hvalue⟩
      rw [hname] at h
      exact hnot w' hw' (Option.some.inj h).symm

/-- Upserts that agree leave what they wrote. -/
theorem leaves_iff_mem (hplain : ∀ w ∈ ws, PlainName w.1) (hfree : ∀ w ∈ ws, BreakFree w.2)
    (hone : OneValue ws) : Leaves ws name value ↔ (name, value) ∈ ws := by
  constructor
  · rintro ⟨pre, w, post, heq, ⟨line, hline, hname, hvalue⟩, -⟩
    have hw : w ∈ ws := by
      rw [heq]
      simp
    rw [pieces_assignment (hplain w hw) (hfree w hw), List.mem_singleton] at hline
    rw [hline, assignedName_assignment (hplain w hw)] at hname
    rw [hline, assignedValue_assignment (hplain w hw)] at hvalue
    rw [← Option.some.inj hname, ← hvalue]
    exact hw
  · intro hw
    obtain ⟨pre, w', post, heq, hname, hpost⟩ := exists_last_upsert hw
    have hw' : w' ∈ ws := by
      rw [heq]
      simp
    refine ⟨pre, w', post, heq, ⟨assignment w'.1 w'.2, ?_, ?_, ?_⟩, hpost⟩
    · rw [pieces_assignment (hplain w' hw') (hfree w' hw')]
      exact List.mem_singleton_self _
    · rw [assignedName_assignment (hplain w' hw'), hname]
    · rw [assignedValue_assignment (hplain w' hw')]
      exact hone w' hw' _ hw hname

/-- Whatever the value, an upsert assigns its name. -/
theorem leaves_of_mem {w : PyStr × PyStr} (hplain : ∀ w ∈ ws, PlainName w.1) (hw : w ∈ ws) :
    ∃ v, Leaves ws w.1 v := by
  obtain ⟨pre, w', post, heq, hname, hpost⟩ := exists_last_upsert hw
  have hw' : w' ∈ ws := by
    rw [heq]
    simp
  have hequals : lineBreaks.isBreak 0x3D = false := by decide
  have hfirst : (assignment w'.1 w'.2).takeWhile (fun c => !lineBreaks.isBreak c) =
      assignment w'.1 (w'.2.takeWhile fun c => !lineBreaks.isBreak c) := by
    have hall : ∀ c ∈ w'.1, (!lineBreaks.isBreak c) = true := fun c hc => by
      rw [(hplain w' hw').breakFree c hc]
      rfl
    rw [assignment, List.takeWhile_append_of_pos hall, List.takeWhile_cons, hequals]
    rfl
  have hmem : assignment w'.1 (w'.2.takeWhile fun c => !lineBreaks.isBreak c) ∈
      pieces (assignment w'.1 w'.2) := by
    rw [← hfirst]
    exact Lines.takeWhile_mem_pieces
  refine ⟨_, pre, w', post, heq, ⟨_, hmem, ?_, rfl⟩, hpost⟩
  rw [assignedName_assignment (hplain w' hw'), hname]

end

/-! ## The result -/

/-- The result for an entry. -/
def credentialOf (s : Settings) (v2 : Bool) (entry : Json) : ImportedCredential :=
  ⟨(entry.field "capability_id").text, (entry.field "caller_token_env").text, walletNameOf s entry,
    if v2 then some (walletEnvOf s entry) else none⟩

theorem imported_importEntries {s : Settings} {v2 : Bool} {entries : List Json} :
    ∀ {st : ImportState}, (entries.foldl (importEntry s v2) st).imported =
      st.imported ++ entries.map (credentialOf s v2) := by
  induction entries with
  | nil =>
    intro st
    simp
  | cons entry entries ih =>
    intro st
    rw [List.foldl_cons, ih, List.map_cons, List.append_cons]
    rfl

theorem imported_importConfigItems {items : List (PyStr × Json)} : ∀ {st : ImportState},
    (items.foldl importConfigItem st).imported = st.imported := by
  induction items with
  | nil =>
    intro st
    rfl
  | cons item items ih =>
    intro st
    rw [List.foldl_cons, ih]
    rfl

/-- One credential for each entry, in order. -/
theorem imported_importText {s : Settings} {network : Network} {bundle : Json} {text : PyStr} :
    (importText s network bundle text).imported =
      (entriesOf bundle).map (credentialOf { s with network := network } (isV2 bundle)) := by
  unfold importText
  dsimp only [pinNetwork]
  split
  · rw [imported_importConfigItems, imported_importEntries]
    rfl
  · rw [imported_importEntries]
    rfl

/-- The file has what the result says of an entry. -/
structure Told (new : PyStr) (cred : ImportedCredential) (entry : Json) : Prop where
  token : AssignsOnly new cred.callerTokenEnv (entry.field "caller_token").text
  wallet : ∀ env, cred.walletEnv = some env →
    AssignsOnly new env (entry.field "wallet_name").text

/-- The bundle with its capability list in another order. -/
structure Reordered (bundle bundle' : Json) : Prop where
  object : bundle'.dict.isSome = true
  others : ∀ key, key ≠ "capabilities" → bundle'.field key = bundle.field key
  entries : (entriesOf bundle').Perm (entriesOf bundle)

/-- The upserts of the entries. -/
def credentialWrites (s : Settings) (network : Network) (bundle : Json) : List (PyStr × PyStr) :=
  (entriesOf bundle).flatMap (entryWrites { s with network := network } (isV2 bundle))

/-- The upserts after them. -/
def laterWrites (network : Network) (bundle : Json) : List (PyStr × PyStr) :=
  configWrites bundle ++ [(py "NETWORK", py network.str)]

theorem bundleWrites_eq {s : Settings} {network : Network} {bundle : Json} :
    bundleWrites s network bundle =
      credentialWrites s network bundle ++ laterWrites network bundle :=
  List.append_assoc _ _ _

theorem told_iff {s : Settings} {v2 : Bool} {entries : List Json} {new : PyStr} :
    List.Forall₂ (Told new) (entries.map (credentialOf s v2)) entries ↔
      ∀ w ∈ entries.flatMap (entryWrites s v2), AssignsOnly new w.1 w.2 := by
  rw [List.forall₂_map_left_iff, List.forall₂_same]
  constructor
  · intro htold w hw
    obtain ⟨entry, hentry, hw⟩ := List.mem_flatMap.mp hw
    rcases List.mem_cons.mp hw with rfl | hw
    · exact (htold entry hentry).token
    · split at hw
      · rename_i hv2
        rw [List.mem_singleton.mp hw]
        exact (htold entry hentry).wallet _ (by simp [credentialOf, hv2])
      · cases hw
  · intro hall entry hentry
    have hin : ∀ w ∈ entryWrites s v2 entry, AssignsOnly new w.1 w.2 := fun w hw =>
      hall w (List.mem_flatMap.mpr ⟨entry, hentry, hw⟩)
    refine ⟨hin _ List.mem_cons_self, fun env henv => ?_⟩
    cases v2 with
    | false => cases henv
    | true =>
      cases henv
      exact hin _ (List.mem_cons_of_mem _ (List.mem_singleton_self _))

/-! ### Acceptance does not look at the order -/

theorem validateEntries_iff {s : Settings} {v2 : Bool} : ∀ {entries : List Json},
    validateEntries s v2 entries = .ok () ↔ ∀ entry ∈ entries, validateEntry s v2 entry = .ok () := by
  intro entries
  induction entries with
  | nil => simp [validateEntries]
  | cons entry entries ih =>
    rw [List.forall_mem_cons, ← ih, validateEntries]
    cases hentry : validateEntry s v2 entry with
    | error e => simp [bind, Except.bind]
    | ok _ => simp [bind, Except.bind]

theorem nonEmptyList?_ne_nil {j : Json} {l : List Json} (h : j.nonEmptyList? = some l) :
    l ≠ [] := by
  unfold Json.nonEmptyList? at h
  split at h
  · rw [← Option.some.inj h]
    exact List.cons_ne_nil _ _
  · cases h

theorem nonEmptyList?_of_entriesOf {bundle : Json} (h : entriesOf bundle ≠ []) :
    (bundle.field "capabilities").nonEmptyList? = some (entriesOf bundle) := by
  unfold entriesOf at h ⊢
  cases hlist : (bundle.field "capabilities").nonEmptyList? with
  | none =>
    rw [hlist] at h
    exact absurd rfl h
  | some l => rfl

section

variable [Calendar] {now : ℚ} {s : Settings} {network : Network} {bundle bundle' : Json}

theorem validateHeader_reordered {entries : List Json} (hreordered : Reordered bundle bundle')
    (h : validateHeader now bundle = .ok (network, entries)) :
    validateHeader now bundle' = .ok (network, entriesOf bundle') := by
  have hentries := validateHeader_ok h
  obtain ⟨d, hd⟩ := Option.isSome_iff_exists.mp hreordered.object
  unfold validateHeader at h ⊢
  rw [hd, hreordered.others "version" (by decide), hreordered.others "consumer" (by decide),
    hreordered.others "network" (by decide), hreordered.others "expires_at" (by decide)]
  split at h
  · cases h
  dsimp only at h ⊢
  split at h
  · cases h
  rename_i hhashable
  rw [if_neg hhashable]
  split at h
  · cases h
  rename_i hversion
  rw [if_neg hversion]
  split at h
  · cases h
  rename_i hconsumer
  rw [if_neg hconsumer]
  split at h
  · cases h
  split at h
  · cases h
  rename_i hnetwork
  split at h
  · cases h
  split at h
  · cases h
  rename_i hexpires
  split at h
  · cases h
  rename_i hfresh
  split at h
  · cases h
  rename_i hlist
  cases h
  have hne : entriesOf bundle' ≠ [] := by
    intro hnil
    have hperm := hreordered.entries
    rw [hnil, hentries] at hperm
    rw [← hperm.nil_eq] at hlist
    exact nonEmptyList?_ne_nil hlist rfl
  rw [if_neg hfresh, nonEmptyList?_of_entriesOf hne]

/-- A bundle is accepted in any order of its entries. -/
theorem validateBundle_reordered (hreordered : Reordered bundle bundle')
    (h : validateBundle now s bundle = .ok network) :
    validateBundle now s bundle' = .ok network := by
  have hv2 : isV2 bundle' = isV2 bundle := by
    rw [isV2, isV2, hreordered.others "version" (by decide)]
  unfold validateBundle at h ⊢
  cases hheader : validateHeader now bundle with
  | error e =>
    rw [hheader] at h
    cases h
  | ok ne =>
    obtain ⟨net, entries⟩ := ne
    rw [validateHeader_reordered hreordered hheader]
    rw [hheader] at h
    simp only [bind, Except.bind] at h ⊢
    cases hentries : validateEntries { s with network := net } (isV2 bundle) entries with
    | error e =>
      rw [hentries] at h
      cases h
    | ok _ =>
      have hall : validateEntries { s with network := net } (isV2 bundle) (entriesOf bundle') =
          .ok () := by
        refine validateEntries_iff.mpr fun entry hentry => validateEntries_iff.mp hentries entry ?_
        rw [← validateHeader_ok hheader]
        exact hreordered.entries.subset hentry
      rw [hentries] at h
      rw [hv2, hall]
      unfold validateConfig at h ⊢
      rw [hreordered.others "config" (by decide)]
      exact h

/-! ## The import -/

/-- The result tells the truth. -/
def Truthful (s : Settings) (network : Network) (bundle : Json) (old : PyStr) : Prop :=
  List.Forall₂ (Told (importText s network bundle old).text)
    (importText s network bundle old).imported (entriesOf bundle)

/-- In any other order the bundle is accepted and the file gets the same assignments. -/
def OrderFree (now : ℚ) (s : Settings) (network : Network) (bundle : Json) (old : PyStr) : Prop :=
  ∀ bundle', Reordered bundle bundle' → validateBundle now s bundle' = .ok network ∧
    SameAssignments (importText s network bundle' old).text (importText s network bundle old).text

/-- The entries agree on each name, each of their values makes one line, and what is written after
them assigns none of their names another value. -/
structure Uncontradicted (s : Settings) (network : Network) (bundle : Json) : Prop where
  agree : OneValue (credentialWrites s network bundle)
  oneLine : ∀ w ∈ credentialWrites s network bundle, BreakFree w.2
  later : ∀ w ∈ credentialWrites s network bundle, ∀ value,
    Leaves (laterWrites network bundle) w.1 value → value = w.2

omit [Calendar] in
theorem credentialWrites_plain (h : Accepted s network bundle) {w : PyStr × PyStr}
    (hw : w ∈ credentialWrites s network bundle) : PlainName w.1 :=
  bundleWrites_plain h (by rw [bundleWrites_eq]; exact List.mem_append_left _ hw)

omit [Calendar] in
theorem laterWrites_plain (h : Accepted s network bundle) {w : PyStr × PyStr}
    (hw : w ∈ laterWrites network bundle) : PlainName w.1 :=
  bundleWrites_plain h (s := s) (by rw [bundleWrites_eq]; exact List.mem_append_right _ hw)

omit [Calendar] in
/-- What an import leaves, when the entries do not contradict each other. -/
theorem assignsTo_import {old name value : PyStr} (hacc : Accepted s network bundle)
    (h : Uncontradicted s network bundle) :
    AssignsTo (importText s network bundle old).text name value ↔
      (((AssignsTo old name value ∧ ∀ w ∈ credentialWrites s network bundle, w.1 ≠ name) ∨
          (name, value) ∈ credentialWrites s network bundle) ∧
        ∀ w ∈ laterWrites network bundle, w.1 ≠ name) ∨
      Leaves (laterWrites network bundle) name value := by
  rw [text_importText, bundleWrites_eq, upsertAll_append, assignsTo_upsertAll, assignsTo_upsertAll,
    leaves_iff_mem (fun w hw => credentialWrites_plain hacc hw) h.oneLine h.agree]

omit [Calendar] in
theorem truthful_iff {old : PyStr} (hacc : Accepted s network bundle) :
    Truthful s network bundle old ↔ Uncontradicted s network bundle := by
  have htold : Truthful s network bundle old ↔ ∀ w ∈ credentialWrites s network bundle,
      AssignsOnly (importText s network bundle old).text w.1 w.2 := by
    rw [Truthful, imported_importText]
    exact told_iff
  rw [htold]
  constructor
  · intro hall
    refine ⟨fun w hw w' hw' hname => ?_, fun w hw => ?_, fun w hw value hleaves => ?_⟩
    · have hw'' := (hall w' hw').1
      rw [← hname] at hw''
      exact ((hall w hw).2 _ hw'').symm
    · obtain ⟨line, hline, -, hvalue⟩ := (hall w hw).1
      intro c hc
      rw [← hvalue] at hc
      exact breakFree_of_mem hline c
        ((List.dropWhile_sublist _).subset (List.mem_of_mem_tail hc))
    · refine (hall w hw).2 value ?_
      rw [text_importText, bundleWrites_eq, upsertAll_append]
      exact assignsTo_upsertAll.mpr (.inr hleaves)
  · intro h w hw
    refine ⟨(assignsTo_import hacc h).mpr ?_, fun v hv => ?_⟩
    · by_cases hlater : ∀ w' ∈ laterWrites network bundle, w'.1 ≠ w.1
      · exact .inl ⟨.inr hw, hlater⟩
      · push Not at hlater
        obtain ⟨w', hw', hname⟩ := hlater
        obtain ⟨v, hv⟩ := leaves_of_mem (fun x hx => laterWrites_plain hacc hx) hw'
        rw [hname] at hv
        rw [h.later w hw v hv] at hv
        exact .inr hv
    · rcases (assignsTo_import hacc h).mp hv with ⟨⟨-, hnot⟩ | hmem, -⟩ | hleaves
      · exact absurd rfl (hnot w hw)
      · exact h.agree _ hmem w hw rfl
      · exact h.later w hw v hleaves

omit [Calendar] in
theorem credentialWrites_reordered (hreordered : Reordered bundle bundle') :
    (credentialWrites s network bundle').Perm (credentialWrites s network bundle) := by
  have hv2 : isV2 bundle' = isV2 bundle := by
    rw [isV2, isV2, hreordered.others "version" (by decide)]
  rw [credentialWrites, credentialWrites, hv2]
  exact hreordered.entries.flatMap_right _

omit [Calendar] in
theorem laterWrites_reordered (hreordered : Reordered bundle bundle') :
    laterWrites network bundle' = laterWrites network bundle := by
  unfold laterWrites configWrites configItems isV2
  rw [hreordered.others "version" (by decide), hreordered.others "config" (by decide)]

/-- The result of an accepted import is true, and the order of the entries does not matter, exactly
if the entries are not contradicted. -/
theorem importTruth_iff {old : PyStr} (h : validateBundle now s bundle = .ok network) :
    Truthful s network bundle old ∧ OrderFree now s network bundle old ↔
      Uncontradicted s network bundle := by
  have hacc := validateBundle_ok h
  rw [truthful_iff hacc]
  refine ⟨And.left, fun hone => ⟨hone, fun bundle' hreordered => ?_⟩⟩
  have hperm : (credentialWrites s network bundle').Perm (credentialWrites s network bundle) :=
    credentialWrites_reordered hreordered
  have hlater : laterWrites network bundle' = laterWrites network bundle :=
    laterWrites_reordered hreordered
  have haccepted := validateBundle_reordered hreordered h
  have hone' : Uncontradicted s network bundle' := by
    refine ⟨fun w hw w' hw' => ?_, fun w hw => ?_, fun w hw => ?_⟩
    · exact hone.agree w (hperm.subset hw) w' (hperm.subset hw')
    · exact hone.oneLine w (hperm.subset hw)
    · rw [hlater]
      exact hone.later w (hperm.subset hw)
  refine ⟨haccepted, fun name value => ?_⟩
  have hnames : (∀ w ∈ credentialWrites s network bundle', w.1 ≠ name) ↔
      ∀ w ∈ credentialWrites s network bundle, w.1 ≠ name :=
    forall_congr' fun w => by rw [hperm.mem_iff]
  rw [assignsTo_import (validateBundle_ok haccepted) hone', assignsTo_import hacc hone, hlater,
    hnames, hperm.mem_iff]

end

/-! ### Two tokens of one capability -/

/-- The claim capability twice, with different tokens. -/
def twoTokens : Json := flareBundle 1 [claimEntry (py "one") [], claimEntry (py "two") []] []

/-- The result lists the first entry, but the file has the second token only. -/
theorem twoTokens_untrue :
    @validateBundle extendedFormat 0 {} twoTokens = .ok .flare ∧
      ¬ Truthful {} .flare twoTokens [] := by
  have haccepted : @validateBundle extendedFormat 0 {} twoTokens = .ok .flare :=
    eq_ok_of_toOption (by decide +kernel)
  refine ⟨haccepted, fun htrue => ?_⟩
  have hagree :=
    ((truthful_iff (@validateBundle_ok extendedFormat _ _ _ _ haccepted)).mp htrue).agree
  exact absurd hagree (by decide +kernel)

/-- The claim capability with its wallet, which the config section names again. -/
def walletBundle : Json :=
  flareBundle 2 [claimEntry (py "token") [(py "wallet_name", .str (py "claims"))]]
    [(py "config", .obj [(py "FWD_WALLET_NAME", .str (py "claims"))])]

theorem importTruth_wallet :
    Truthful {} .flare walletBundle [] ∧
      @OrderFree extendedFormat 0 {} .flare walletBundle [] := by
  have haccepted : @validateBundle extendedFormat 0 {} walletBundle = .ok .flare :=
    eq_ok_of_toOption (by decide +kernel)
  have hagree : ∀ w ∈ credentialWrites {} .flare walletBundle,
      ∀ w' ∈ laterWrites .flare walletBundle, w'.1 = w.1 → w'.2 = w.2 := by decide +kernel
  refine (@importTruth_iff extendedFormat _ _ _ _ _ haccepted).mpr
    ⟨by decide +kernel, by decide +kernel, fun w hw value hleaves => ?_⟩
  have hplain : ∀ w ∈ laterWrites .flare walletBundle, PlainName w.1 := fun w hw =>
    laterWrites_plain (@validateBundle_ok extendedFormat _ _ _ _ haccepted) hw
  exact hagree w hw _ ((leaves_iff_mem hplain (by decide +kernel) (by decide +kernel)).mp hleaves) rfl

end Clif
