import Checkup.Config.Read
import Checkup.Proofs.DistinctKeys
import Checkup.Proofs.Documents
import Checkup.Proofs.Traversal

/-!
# Two readings of the settings

The settings of a document are read strictly and leniently, and the second reading counts. On
plain keys it comes to the same:

* `Config.Plain` — keys that are neither folded nor paths.
* `Config.lookup?_layerEntries` — what is found in plain entries that are laid over others.
* `Config.Refines` — a coercion that agrees with a strict reading where that gives a value.
* `Config.readings_agree` — a document with plain keys is read as it is read strictly.
* `Config.dated_modules_are_not_coerced` — a date for a table is read strictly only.
-/

namespace Checkup.Config

open Toml (Value Entries Written)

/-! ## Plain keys -/

/-- The characters of plain keys. -/
def plainChars : List Char := "abcdefghijklmnopqrstuvwxyz0123456789_-".toList

/-- Keys of small letters, digits, underscores and hyphens. -/
def Plain (key : String) : Prop := ∀ c ∈ key.toList, c ∈ plainChars

instance (key : String) : Decidable (Plain key) :=
  decidable_of_iff (key.toList.all plainChars.contains = true) (by simp [Plain])

theorem plainChars_spec {c : Char} (h : c ∈ plainChars) :
    c ≠ '.' ∧ c ≠ '\u0130' ∧ c ≠ '\u03A3' ∧ Text.lowerChar c = c := by
  have hall : (plainChars.all fun c =>
      c ≠ '.' ∧ c ≠ '\u0130' ∧ c ≠ '\u03A3' ∧ Text.lowerChar c = c) = true := by
    decide +kernel
  exact of_decide_eq_true (List.all_eq_true.mp hall c h)

theorem lowerChars_of_plain {cs : List Char} (h : ∀ c ∈ cs, c ∈ plainChars)
    (before : List Char) : Text.lowerChars before cs = cs := by
  induction cs generalizing before with
  | nil => rfl
  | cons c cs ih =>
    rw [List.forall_mem_cons] at h
    obtain ⟨-, hdotted, hsigma, hlower⟩ := plainChars_spec h.1
    rw [Text.lowerChars, ih h.2]
    simp [hdotted, hsigma, hlower]

/-- A plain key is in lower case. -/
theorem Plain.lower_eq {key : String} (h : Plain key) : Text.lower key = key := by
  rw [Text.lower, lowerChars_of_plain h, String.ofList_toList]

/-- A plain key is no path. -/
theorem Plain.pathOf_eq {key : String} (h : Plain key) : pathOf key = [key] := by
  have hdot : '.' ∉ key.toList := fun hmem => (plainChars_spec (h '.' hmem)).1 rfl
  rw [pathOf, Text.pieces_of_notMem hdot, List.map_singleton, String.ofList_toList]
  exact ite_self _

/-- Entries with plain keys, each of them once. -/
structure PlainTable (entries : Entries) : Prop where
  /-- the keys are distinct -/
  nodup : (entries.map Prod.fst).Nodup
  /-- the keys are plain -/
  plain : ∀ e ∈ entries, Plain e.1

/-! ## Layers of plain entries -/

theorem layerValue_of_not_table {old : Option Value} {v : Value}
    (h : ∀ entries, v ≠ .table entries) : layerValue old v = v := by
  cases v with
  | table entries => exact absurd rfl (h entries)
  | _ => rfl

theorem layerValue_table (base entries : Entries) :
    layerValue (some (.table base)) (.table entries) = .table (layerEntries base entries) := by
  cases entries <;> rfl

/-- A document with plain keys is laid over the default settings as a table is. -/
theorem layer_eq {document : Entries} (h : ∀ e ∈ document, Plain e.1) :
    layer document = layerEntries baseSettings document := by
  rw [layer]
  generalize baseSettings = base
  induction document generalizing base with
  | nil => rfl
  | cons e rest ih =>
    obtain ⟨key, v⟩ := e
    obtain ⟨hkey, hrest⟩ := List.forall_mem_cons.mp h
    rw [List.foldl_cons, ih hrest]
    dsimp only at hkey ⊢
    rw [hkey.pathOf_eq]
    rfl

/-- What is found in plain entries that are laid over others: what an entry makes of what was
there, or what was there. -/
theorem lookup?_layerEntries {entries : Entries} (h : PlainTable entries) (base : Entries)
    (name : String) :
    OrderedMap.lookup? name (layerEntries base entries) =
      (OrderedMap.lookup? name entries).elim (OrderedMap.lookup? name base) fun v =>
        some (layerValue (OrderedMap.lookup? name base) v) := by
  obtain ⟨hnodup, hplain⟩ := h
  induction entries generalizing base with
  | nil => rfl
  | cons e rest ih =>
    obtain ⟨key, v⟩ := e
    rw [List.map_cons, List.nodup_cons] at hnodup
    rw [List.forall_mem_cons] at hplain
    rw [layerEntries, hplain.1.lower_eq, ih _ hnodup.2 hplain.2, OrderedMap.lookup?_store,
      OrderedMap.lookup?]
    by_cases hkey : key = name
    · subst hkey
      rw [OrderedMap.lookup?_eq_none_iff.mpr hnodup.1, if_pos rfl, if_pos rfl]
      rfl
    · rw [if_neg hkey, if_neg hkey]

/-- Plain entries that are no tables are appended, if their keys are new. -/
theorem layerEntries_eq_append {base entries : Entries}
    (hnodup : ((base ++ entries).map Prod.fst).Nodup) (hplain : ∀ e ∈ entries, Plain e.1)
    (hvalues : ∀ e ∈ entries, ∀ sub, e.2 ≠ .table sub) :
    layerEntries base entries = base ++ entries := by
  induction entries generalizing base with
  | nil => exact (List.append_nil base).symm
  | cons e rest ih =>
    obtain ⟨key, v⟩ := e
    rw [List.forall_mem_cons] at hplain hvalues
    have hnew : key ∉ base.map Prod.fst := by
      rw [List.map_append, List.nodup_append] at hnodup
      exact fun hmem => hnodup.2.2 key hmem key List.mem_cons_self rfl
    rw [layerEntries, hplain.1.lower_eq, layerValue_of_not_table hvalues.1,
      OrderedMap.store_of_new hnew]
    rw [List.append_cons] at hnodup
    exact (ih hnodup hplain.2 hvalues.2).trans (List.append_cons base (key, v) rest).symm

/-! ## Coercions of values that are read strictly -/

/-- A coercion gives the value of a strict reading wherever there is one, which is no table. -/
def Refines {α : Type} (coerce read : Value → Option α) : Prop :=
  ∀ v x, read v = some x → (∀ entries, v ≠ .table entries) ∧ coerce v = some x

theorem refines_flag : Refines coerceFlag readFlag := by
  intro v x h
  cases v <;> cases h
  exact ⟨nofun, rfl⟩

theorem refines_text : Refines coerceText readText := by
  intro v x h
  cases v <;> cases h
  exact ⟨nofun, rfl⟩

theorem refines_count : Refines coerceCount readCount := by
  intro v x h
  cases v with
  | integer n => exact ⟨nofun, h⟩
  | _ => cases h

/-- What is read from all elements is coerced from all. -/
theorem mapM_of_some {α β : Type} {f g : α → Option β} {l : List α} {ys : List β}
    (hfg : ∀ x y, f x = some y → g x = some y) (h : l.mapM f = some ys) : l.mapM g = some ys := by
  rw [mapM_eq_some_iff] at h ⊢
  exact h.imp hfg

theorem refines_texts : Refines coerceTexts readTexts := by
  intro v x h
  cases v with
  | array items => exact ⟨nofun, mapM_of_some (fun v x h => (refines_text v x h).2) h⟩
  | _ => cases h

/-- A setting that is read strictly, from an entry or as missing, is found in the layers if it
has its default value below them. -/
theorem setting_layerEntries {α : Type} {coerce read : Value → Option α}
    (hrefines : Refines coerce read) {entries : Entries} (hplain : PlainTable entries)
    (base : Entries) {name : String} {missing x : α}
    (hbase : setting coerce missing (OrderedMap.lookup? name base) = some missing)
    (h : readField read missing (OrderedMap.lookup? name entries) = some x) :
    setting coerce missing (OrderedMap.lookup? name (layerEntries base entries)) = some x := by
  rw [lookup?_layerEntries hplain]
  cases hentry : OrderedMap.lookup? name entries with
  | none =>
    rw [hentry] at h
    cases h
    exact hbase
  | some v =>
    rw [hentry] at h
    obtain ⟨htable, hcoerce⟩ := hrefines v x h
    rw [Option.elim_some, layerValue_of_not_table htable]
    exact hcoerce

/-- Plain texts that are read strictly by their names are coerced, once they are laid over
nothing. -/
theorem coerceTable_layerValue {said : Entries} (hsaid : PlainTable said)
    {levels : OrderedMap String} (h : readTable readText (.table said) = some levels) :
    coerceTable (layerValue none (.table said)) = some levels := by
  obtain ⟨texts, htexts, rfl⟩ := Option.map_eq_some_iff.mp h
  have hvalues : ∀ e ∈ said, ∀ sub, e.2 ≠ .table sub := by
    intro e he
    obtain ⟨x, -, hx⟩ := exists_of_mem_forall₂ (mapM_eq_some_iff.mp htexts).flip he
    obtain ⟨text, htext, -⟩ := Option.map_eq_some_iff.mp hx
    exact (refines_text e.2 text htext).1
  have hlayers : layerEntries [] said = said :=
    layerEntries_eq_append hsaid.nodup hsaid.plain hvalues
  have hlayered : layerValue none (.table said) = .table said := by
    cases said with
    | nil => rfl
    | cons e rest => exact congrArg Value.table hlayers
  have hcoerced : (said.mapM fun e => (coerceText e.2).map fun x => (e.1, x)) = some texts := by
    refine mapM_of_some (fun e x hx => ?_) htexts
    obtain ⟨text, htext, rfl⟩ := Option.map_eq_some_iff.mp hx
    rw [(refines_text e.2 text htext).2, Option.map_some]
  rw [hlayered, coerceTable, hcoerced, Option.map_some]

/-- The levels of modules are found in the layers if there are none below them. They are the
only setting that is a table, which is merged and not replaced. -/
theorem setting_modules {entries : Entries} (hplain : PlainTable entries) {base : Entries}
    (hbase : OrderedMap.lookup? "modules" base = none)
    (hmodules : ∀ v, OrderedMap.lookup? "modules" entries = some v →
      ∃ said, v = .table said ∧ PlainTable said)
    {missing levels : OrderedMap String}
    (h : readField readModules missing (OrderedMap.lookup? "modules" entries) = some levels) :
    setting coerceTable missing (OrderedMap.lookup? "modules" (layerEntries base entries)) =
      some levels := by
  rw [lookup?_layerEntries hplain, hbase]
  cases hentry : OrderedMap.lookup? "modules" entries with
  | none =>
    rw [hentry] at h
    exact h
  | some v =>
    obtain ⟨said, rfl, hsaid⟩ := hmodules v hentry
    rw [hentry] at h
    exact coerceTable_layerValue hsaid h

/-! ## Settings tables -/

/-- The entries of a settings table where a document says nothing. -/
def baseTable (name : String) : Entries := entriesOf (OrderedMap.lookup? name baseSettings)

/-- General settings that are read strictly are found in the layers. -/
theorem coerceGeneral_of_read {said : Entries} (hsaid : PlainTable said) {general : GeneralSettings}
    (h : readGeneral (.table said) = some general) :
    coerceGeneral (some (.table (layerEntries (baseTable "statue") said))) = some general := by
  obtain ⟨overrideDefaults, hoverride, h⟩ := Option.bind_eq_some_iff.mp h
  obtain ⟨historySize, hsize, h⟩ := Option.bind_eq_some_iff.mp h
  obtain ⟨installCommand, hinstall, h⟩ := Option.bind_eq_some_iff.mp h
  cases h
  simp only [coerceGeneral, settingsOf, Option.bind_eq_bind, Option.bind_some,
    setting_layerEntries refines_flag hsaid (baseTable "statue") rfl hoverride,
    setting_layerEntries refines_count hsaid (baseTable "statue") rfl hsize,
    setting_layerEntries refines_texts hsaid (baseTable "statue") rfl hinstall]
  rfl

/-- Settings of the log that are read strictly are found in the layers, if a table has the levels
of the modules. -/
theorem coerceLogging_of_read {said : Entries} (hsaid : PlainTable said)
    (hmodules : ∀ v, OrderedMap.lookup? "modules" said = some v →
      ∃ levels, v = .table levels ∧ PlainTable levels)
    {logging : LoggingSettings} (h : readLogging (.table said) = some logging) :
    coerceLogging (some (.table (layerEntries (baseTable "logging") said))) = some logging := by
  obtain ⟨enabled, henabled, h⟩ := Option.bind_eq_some_iff.mp h
  obtain ⟨level, hlevel, h⟩ := Option.bind_eq_some_iff.mp h
  obtain ⟨format, hformat, h⟩ := Option.bind_eq_some_iff.mp h
  obtain ⟨output, houtput, h⟩ := Option.bind_eq_some_iff.mp h
  obtain ⟨file, hfile, h⟩ := Option.bind_eq_some_iff.mp h
  obtain ⟨color, hcolor, h⟩ := Option.bind_eq_some_iff.mp h
  obtain ⟨modules, hlevels, h⟩ := Option.bind_eq_some_iff.mp h
  cases h
  have hbase : OrderedMap.lookup? "modules" (baseTable "logging") = none := rfl
  simp only [coerceLogging, settingsOf, Option.bind_eq_bind, Option.bind_some,
    setting_layerEntries refines_flag hsaid (baseTable "logging") rfl henabled,
    setting_layerEntries refines_text hsaid (baseTable "logging") rfl hlevel,
    setting_layerEntries refines_text hsaid (baseTable "logging") rfl hformat,
    setting_layerEntries refines_text hsaid (baseTable "logging") rfl houtput,
    setting_layerEntries refines_text hsaid (baseTable "logging") rfl hfile,
    setting_layerEntries refines_flag hsaid (baseTable "logging") rfl hcolor,
    setting_modules hsaid hbase hmodules hlevels]
  rfl

/-! ## Documents -/

/-- A document whose settings, as far as they are there, are tables, all with plain keys. -/
structure PlainSettings (document : Entries) : Prop where
  /-- the keys of the document are plain -/
  keys : ∀ e ∈ document, Plain e.1
  /-- general settings are a table with plain keys -/
  general : ∀ v, OrderedMap.lookup? "statue" document = some v →
    ∃ said, v = .table said ∧ ∀ e ∈ said, Plain e.1
  /-- settings of the log are a table with plain keys -/
  logging : ∀ v, OrderedMap.lookup? "logging" document = some v →
    ∃ said, v = .table said ∧ ∀ e ∈ said, Plain e.1
  /-- a table with levels of modules has plain keys -/
  levels : ∀ said levels, OrderedMap.lookup? "logging" document = some (.table said) →
    OrderedMap.lookup? "modules" said = some (.table levels) → ∀ e ∈ levels, Plain e.1

/-- The levels of modules are a table, if the document has any. -/
def HasModulesTable (document : Entries) : Prop :=
  ∀ said v, OrderedMap.lookup? "logging" document = some (.table said) →
    OrderedMap.lookup? "modules" said = some v → ∃ levels, v = .table levels

/-- A table in a document that is read is one of plain entries if its keys are plain. -/
theorem plainTable_of_distinct {entries : Entries} (hdistinct : (Value.table entries).Distinct)
    (hplain : ∀ e ∈ entries, Plain e.1) : PlainTable entries :=
  ⟨(Toml.Value.distinct_table_iff.mp hdistinct).1, hplain⟩

theorem distinct_of_lookup? {entries : Entries} (h : (Value.table entries).Distinct)
    {name : String} {v : Value} (hv : OrderedMap.lookup? name entries = some v) : v.Distinct :=
  (Toml.Value.distinct_table_iff.mp h).2 _ (OrderedMap.mem_of_lookup?_eq_some hv)

/-- Settings that are read strictly from a table of the document, or that are missing, are those
of the layers. -/
theorem coerce_layer {α : Type} {coerce : Option Value → Option α} {read : Value → Option α}
    {document : Entries} (hplain : PlainTable document) {name : String} {missing x : α}
    (hbase : OrderedMap.lookup? name baseSettings = some (.table (baseTable name)))
    (hmissing : coerce (some (.table (baseTable name))) = some missing)
    (htable : ∀ v, OrderedMap.lookup? name document = some v → ∃ said, v = .table said ∧
      ∀ x, read v = some x →
        coerce (some (.table (layerEntries (baseTable name) said))) = some x)
    (h : readField read missing (OrderedMap.lookup? name document) = some x) :
    coerce (OrderedMap.lookup? name (layer document)) = some x := by
  rw [layer_eq hplain.plain, lookup?_layerEntries hplain, hbase]
  cases hentry : OrderedMap.lookup? name document with
  | none =>
    rw [hentry] at h
    cases h
    exact hmissing
  | some v =>
    rw [hentry] at h
    obtain ⟨said, rfl, hsaid⟩ := htable v hentry
    rw [Option.elim_some, layerValue_table]
    exact hsaid x h

/-- **The readings agree**: a document that is read strictly, with plain keys and with a table for
the levels of modules, is read with the settings, the contexts, the commands and the sources of the
strict reading. -/
theorem readings_agree {text : String} {document : Entries} {tables : Config}
    (hread : Toml.read text = some document) (htables : ofTables document = some tables)
    (hplain : PlainSettings document) (hmodules : HasModulesTable document) (origin : String) :
    ofText origin text = .ok tables := by
  have hdistinct := Toml.distinct_of_read hread
  have hdocument := plainTable_of_distinct hdistinct hplain.keys
  obtain ⟨general, hgeneral, h⟩ := Option.bind_eq_some_iff.mp htables
  obtain ⟨contexts, -, h⟩ := Option.bind_eq_some_iff.mp h
  obtain ⟨commands, -, h⟩ := Option.bind_eq_some_iff.mp h
  obtain ⟨sources, -, h⟩ := Option.bind_eq_some_iff.mp h
  obtain ⟨logging, hlogging, h⟩ := Option.bind_eq_some_iff.mp h
  have hgeneral' : coerceGeneral (OrderedMap.lookup? "statue" (layer document)) = some general := by
    refine coerce_layer hdocument rfl (by decide +kernel) (fun v hv => ?_) hgeneral
    obtain ⟨said, rfl, hkeys⟩ := hplain.general v hv
    have hsaid := plainTable_of_distinct (distinct_of_lookup? hdistinct hv) hkeys
    exact ⟨said, rfl, fun _ => coerceGeneral_of_read hsaid⟩
  have hlogging' : coerceLogging (OrderedMap.lookup? "logging" (layer document)) =
      some logging := by
    refine coerce_layer hdocument rfl (by decide +kernel) (fun v hv => ?_) hlogging
    obtain ⟨said, rfl, hkeys⟩ := hplain.logging v hv
    have hsaid := plainTable_of_distinct (distinct_of_lookup? hdistinct hv) hkeys
    refine ⟨said, rfl, fun _ => coerceLogging_of_read hsaid fun v hlevels => ?_⟩
    obtain ⟨levels, rfl⟩ := hmodules said v hv hlevels
    have hlevels' := distinct_of_lookup? (distinct_of_lookup? hdistinct hv) hlevels
    exact ⟨levels, rfl, plainTable_of_distinct hlevels' (hplain.levels said levels hv hlevels)⟩
  rw [ofText, hread]
  simp only [htables, settingsOfDocument, hgeneral', hlogging']
  cases h
  rfl

/-! ### A document with levels -/

/-- A document with settings of every table, and with a context. -/
def levelledText : String :=
  "[statue]\noverride = true\n[logging]\nlevel = \"info\"\n[logging.modules]\n" ++
    "http-client = \"debug\"\n[contexts.strict]\nhelp = \"Edgy\"\n"

/-- The lines of `levelledText`. -/
def levelledLines : List Written := [
  .header ["statue"],
  .pair "override" (.flag true),
  .header ["logging"],
  .pair "level" (.text "info"),
  .header ["logging", "modules"],
  .pair "http-client" (.text "debug"),
  .header ["contexts", "strict"],
  .pair "help" (.text "Edgy"),
  .blank]

/-- The entries of `levelledText`. -/
def levelledEntries : Entries := [
  ("statue", .table [("override", .boolean true)]),
  ("logging", .table [
    ("level", .string "info"),
    ("modules", .table [("http-client", .string "debug")])]),
  ("contexts", .table [("strict", .table [("help", .string "Edgy")])])]

/-- Its settings are those of both readings, with defaults for the rest. -/
theorem readings_agree_levelled :
    Toml.read levelledText = some levelledEntries ∧ PlainSettings levelledEntries ∧
    HasModulesTable levelledEntries ∧ ofText "statue.toml" levelledText = .ok {
      general := { overrideDefaults := true }
      contexts := .ofList [("strict", { help := "Edgy" })]
      logging := { level := "info", modules := .ofList [("http-client", "debug")] } } := by
  have hread : Toml.read levelledText = some levelledEntries := by
    have htext : levelledText.toList = Written.text levelledLines := by decide +kernel
    have hfits : ∀ line ∈ levelledLines, line.Fits := by decide +kernel
    rw [Toml.read_text htext hfits]
    rfl
  have hplain : PlainSettings levelledEntries := {
    keys := by decide
    general := by
      rintro v ⟨⟩
      exact ⟨_, rfl, by decide⟩
    logging := by
      rintro v ⟨⟩
      exact ⟨_, rfl, by decide⟩
    levels := by
      rintro said levels ⟨⟩ ⟨⟩
      decide }
  have hmodules : HasModulesTable levelledEntries := by
    rintro said v ⟨⟩ ⟨⟩
    exact ⟨_, rfl⟩
  exact ⟨hread, hplain, hmodules, readings_agree hread rfl hplain hmodules "statue.toml"⟩

/-! ### A date for the levels -/

/-- A document with a date for the levels of modules. -/
def datedText : String := "[logging]\nmodules = 1979-05-27\n"

/-- The entries of `datedText`. -/
def datedEntries : Entries :=
  [("logging", .table [("modules", .dateTime (.date ⟨1979, 5, 27⟩))])]

/-- Whether entries are those of `datedText`. -/
def isDated : Entries → Bool
  | [(name, .table [(field, .dateTime d)])] =>
    name = "logging" && field = "modules" && d = .date ⟨1979, 5, 27⟩
  | _ => false

theorem eq_of_isDated {document : Entries} (h : isDated document = true) :
    document = datedEntries := by
  unfold isDated at h
  split at h
  · simp only [Bool.and_eq_true, decide_eq_true_iff] at h
    obtain ⟨⟨rfl, rfl⟩, rfl⟩ := h
    rfl
  · cases h

theorem read_datedText : Toml.read datedText = some datedEntries := by
  have hdated : (Toml.read datedText).any isDated = true := by decide +kernel
  cases hread : Toml.read datedText with
  | none =>
    rw [hread] at hdated
    cases hdated
  | some document =>
    rw [hread] at hdated
    exact congrArg some (eq_of_isDated hdated)

/-- A date is a table for the strict reading only, so a document with plain keys that is read
strictly need not be read. -/
theorem dated_modules_are_not_coerced :
    ¬ ∀ (text : String) (document : Entries) (tables : Config),
      Toml.read text = some document → ofTables document = some tables →
      PlainSettings document → ∀ origin, ofText origin text = .ok tables := by
  intro hagree
  have hplain : PlainSettings datedEntries := {
    keys := by decide
    general := nofun
    logging := by
      rintro v ⟨⟩
      exact ⟨_, rfl, by decide⟩
    levels := by rintro said levels ⟨⟩ ⟨⟩ }
  have hnone : settingsOfDocument datedEntries = none := by decide +kernel
  have hok := hagree datedText datedEntries _ read_datedText rfl hplain "statue.toml"
  rw [ofText, read_datedText] at hok
  simp only [hnone] at hok
  cases hok

end Checkup.Config
