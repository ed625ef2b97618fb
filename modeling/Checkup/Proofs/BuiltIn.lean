import Checkup.Config.Read
import Checkup.Proofs.Documents

/-!
# The built-in configuration is there

The built-in document is one of plain lines, so it is read as the sections that they make.

* `Config.ofText_of_silent` — a document that says nothing of the settings has the default
  ones, however its other tables are called.
* `Config.toList_defaultDocument` — the lines of the built-in document.
* `Config.exists_defaults` — the built-in configuration, with default settings.
-/

namespace Checkup.Config

open Toml (Entries Table Written)

/-! ## Documents without settings -/

/-- A document that says nothing of the settings: its keys are paths of one part, in lower
case, and none of them names a settings table. -/
def Silent (document : Entries) : Prop :=
  ∀ e ∈ document, pathOf e.1 = [e.1] ∧ Text.lower e.1 = e.1 ∧ e.1 ≠ "statue" ∧ e.1 ≠ "logging"

/-- A key that is no path is laid over others without touching them. -/
theorem lookup?_layerPath {base : Entries} {key name : String} (hlower : Text.lower key = key)
    (hne : key ≠ name) (v : Toml.Value) :
    OrderedMap.lookup? name (layerPath base v [key]) = OrderedMap.lookup? name base := by
  simp [layerPath, layerEntries, hlower, OrderedMap.lookup?_store, hne]

/-- A silent document leaves the default settings as they are. -/
theorem lookup?_layer {document : Entries} (h : Silent document) {name : String}
    (hname : name = "statue" ∨ name = "logging") :
    OrderedMap.lookup? name (layer document) = OrderedMap.lookup? name baseSettings := by
  rw [layer]
  generalize baseSettings = base
  induction document generalizing base with
  | nil => rfl
  | cons e document ih =>
    obtain ⟨key, v⟩ := e
    obtain ⟨⟨hpath, hlower, hstatue, hlogging⟩, hrest⟩ := List.forall_mem_cons.mp h
    have hne : key ≠ name := by
      rcases hname with rfl | rfl
      · exact hstatue
      · exact hlogging
    rw [List.foldl_cons, ih hrest]
    dsimp only at hpath ⊢
    rw [hpath, lookup?_layerPath hlower hne]

/-- The settings of a silent document are the default ones. -/
theorem settingsOfDocument_of_silent {document : Entries} (h : Silent document) :
    settingsOfDocument document = some ({}, {}) := by
  have hgeneral : coerceGeneral (OrderedMap.lookup? "statue" baseSettings) = some {} := by
    decide +kernel
  have hlogging : coerceLogging (OrderedMap.lookup? "logging" baseSettings) = some {} := by
    decide +kernel
  rw [settingsOfDocument, lookup?_layer h (.inl rfl), lookup?_layer h (.inr rfl), hgeneral,
    hlogging]
  rfl

/-- A document that says nothing of the settings has the default ones. -/
theorem ofText_of_silent {text : String} {document : Entries} {tables : Config}
    (hread : Toml.read text = some document) (htables : ofTables document = some tables)
    (h : Silent document) (origin : String) :
    ofText origin text = .ok { tables with general := {}, logging := {} } := by
  rw [ofText, hread]
  simp only [htables, settingsOfDocument_of_silent h]
  rfl

/-! ## The built-in lines -/

/-- The lines of the built-in document. -/
def builtInLines : List Written := [
  .header ["contexts", "standard"],
  .pair "help" (.text "Standard checks, used when no context is requested."),
  .pair "is_default" (.flag true),
  .blank,
  .header ["contexts", "strict"],
  .pair "help" (.text "Edgy checks, for projects that want every warning."),
  .pair "parent" (.text "standard"),
  .blank,
  .header ["contexts", "test"],
  .pair "help" (.text "Checks tuned for test files."),
  .pair "parent" (.text "standard"),
  .blank,
  .header ["contexts", "fast"],
  .pair "help" (.text "Fast checks only."),
  .pair "aliases" (.texts ["speed"]),
  .blank,
  .header ["contexts", "documentation"],
  .pair "help" (.text "Documentation related checks."),
  .pair "aliases" (.texts ["docs"]),
  .blank,
  .header ["contexts", "format"],
  .pair "help" (.text "Change source files in place instead of checking them."),
  .blank,
  .header ["commands", "black"],
  .pair "help" (.text "The uncompromising Python code formatter"),
  .pair "args" (.texts ["--check"]),
  .pair "fast" (.flag true),
  .blank,
  .header ["commands", "black", "format"],
  .pair "clear_args" (.flag true),
  .blank,
  .header ["commands", "isort"],
  .pair "help" (.text "Sort and group Python imports"),
  .pair "args" (.texts ["--check-only", "--profile=black"]),
  .pair "fast" (.flag true),
  .blank,
  .header ["commands", "isort", "format"],
  .pair "args" (.texts ["--profile=black"]),
  .blank,
  .header ["commands", "flake8"],
  .pair "help" (.text "Tool for Python style guide enforcement"),
  .pair "args" (.texts ["--max-line-length=88"]),
  .pair "fast" (.flag true),
  .blank,
  .header ["commands", "flake8", "test"],
  .pair "add_args" (.texts ["--extend-ignore=S101"]),
  .blank,
  .header ["commands", "pylint"],
  .pair "help" (.text "Python static code analysis"),
  .blank,
  .header ["commands", "pylint", "test"],
  .pair "add_args" (.texts ["--disable=missing-function-docstring,redefined-outer-name"]),
  .blank,
  .header ["commands", "mypy"],
  .pair "help" (.text "Optional static typing for Python"),
  .pair "args" (.texts ["--ignore-missing-imports"]),
  .blank,
  .header ["commands", "mypy", "strict"],
  .pair "add_args" (.texts ["--strict"]),
  .blank,
  .header ["commands", "pydocstyle"],
  .pair "help" (.text "Python docstring style checker"),
  .pair "documentation" (.flag true),
  .pair "test" (.flag false),
  .blank,
  .header ["commands", "bandit"],
  .pair "help" (.text "Security oriented static analyser for Python"),
  .pair "args" (.texts ["--recursive", "--quiet"]),
  .pair "test" (.flag false)]

/-- The built-in document is written with these lines. -/
theorem toList_defaultDocument : defaultDocument.toList = Written.text builtInLines := by
  have hlines : defaultLines.map String.toList = builtInLines.map Written.chars := by
    simp only [defaultLines, builtInLines, List.map_cons, List.map_nil, Written.chars, Toml.dotted,
      Toml.Simple.write, Toml.toList_writeStrings, Toml.itemChars, Toml.writeString, Toml.writeKey,
      List.cons.injEq, and_true]
    repeat' apply And.intro
    all_goals
      -- texts become lists of characters, which are quick to compare
      repeat rw [String.toList_ofList]
      try decide +kernel
  rw [defaultDocument, String.toList_intercalate, hlines]
  rfl

/-- The entries of the built-in document. -/
def builtInEntries : Entries :=
  Table.finishEntries
    ((Toml.addSections [] (builtInLines.filterMap Written.line?)).getD [])

theorem read_defaultDocument : Toml.read defaultDocument = some builtInEntries := by
  have hfits : ∀ line ∈ builtInLines, line.Fits := by decide +kernel
  have hsections : (Toml.addSections [] (builtInLines.filterMap Written.line?)).isSome = true := by
    decide +kernel
  obtain ⟨table, htable⟩ := Option.isSome_iff_exists.mp hsections
  rw [builtInEntries, htable]
  exact (Toml.read_text toList_defaultDocument hfits).trans (congrArg _ htable)

theorem silent_builtInEntries : Silent builtInEntries := by
  have hkeys : builtInEntries.map Prod.fst = ["contexts", "commands"] := by decide +kernel
  have hall : ∀ key ∈ ["contexts", "commands"],
      pathOf key = [key] ∧ Text.lower key = key ∧ key ≠ "statue" ∧ key ≠ "logging" := by
    decide +kernel
  exact fun e he => hall e.1 (hkeys ▸ List.mem_map_of_mem he)

/-- **The built-in configuration is there**, and its settings are the default ones. -/
theorem exists_defaults : ∃ builtIn, defaults = .ok builtIn ∧
    builtIn.general = {} ∧ builtIn.logging = {} := by
  have htables : (ofTables builtInEntries).isSome = true := by decide +kernel
  obtain ⟨tables, htables⟩ := Option.isSome_iff_exists.mp htables
  exact ⟨_, ofText_of_silent read_defaultDocument htables silent_builtInEntries _, rfl, rfl⟩

end Checkup.Config
