import Checkup.Config
import Checkup.Decimal
import Checkup.Text.Digits
import Checkup.Text.Lower
import Checkup.Text.Pieces
import Checkup.Toml.Value

/-!
# The settings tables

The general and the logging settings are read leniently, apart from the rest of
a document.

* `layer` — the document is laid over the default settings: keys are folded to
  lower case, tables that then have one key are merged in order, and a
  top-level key with dots in it is a path.
* `coerceFlag`, `coerceCount`, `coerceText` — values are turned into the kind
  that a setting has.
-/

namespace Checkup.Config

open Toml (Value Entries)

/-! ## Layering -/

/-- The entries of a table; any other value gives way to an empty one. -/
def entriesOf : Option Value → Entries
  | some (.table entries) => entries
  | _ => []

mutual

/-- The value that `new` makes of what was there. A table is merged into the old
one; anything else, and a table over anything else, replaces it. -/
def layerValue (old : Option Value) : Value → Value
  | .table [] => old.getD (.table [])
  | .table (e :: rest) => .table (layerEntries (entriesOf old) (e :: rest))
  | new => new

/-- Lays entries over others, in order, with their keys folded. -/
def layerEntries (base : Entries) : List (String × Value) → Entries
  | [] => base
  | (key, v) :: rest =>
    let key := Text.lower key
    let value := layerValue (OrderedMap.lookup? key base) v
    layerEntries (OrderedMap.store key value base) rest

end

/-- Lays a value over the one at a path; what is no table on the way becomes one. -/
def layerPath (base : Entries) (v : Value) : (path : List String) → Entries
  | [] => base
  | [key] => layerEntries base [(key, v)]
  | key :: path =>
    let key := Text.lower key
    let sub := layerPath (entriesOf (OrderedMap.lookup? key base)) v path
    OrderedMap.store key (.table sub) base

/-- Whether a character may stand in a part of a path. -/
def isPathChar (c : Char) : Bool := c.isAlphanum || c = ' ' || c = '_' || c = '-'

/-- The path that a top-level key spells; a key that is no path is one part. -/
def pathOf (key : String) : List String :=
  let parts := (Text.pieces '.' key.toList).map String.ofList
  if parts.all fun part => !part.isEmpty && part.toList.all isPathChar then parts else [key]

/-- The settings where a document says nothing. -/
def baseSettings : Entries := [
  ("statue", .table [("override", .boolean false), ("history_size", .integer 100)]),
  ("logging", .table [("enabled", .boolean true)])]

/-- A document laid over the default settings. -/
def layer (document : Entries) : Entries :=
  document.foldl (fun base (key, v) => layerPath base v (pathOf key)) baseSettings

/-! ## Coercion -/

/-- The truth value that a word stands for. -/
def flagOfWord (word : String) : Option Bool :=
  let word := Text.lower word
  if ["true", "on", "yes"].contains word then some true
  else if ["false", "off", "no"].contains word then some false
  else none

/-- A truth value from a number, which is true unless it is zero, or from a word or digit. -/
def coerceFlag : Value → Option Bool
  | .boolean b => some b
  | .integer n => some (n ≠ 0)
  | .float x => some (x != 0.0)
  | .string s => if s = "1" then some true else if s = "0" then some false else flagOfWord s
  | _ => none

/-- A number that is not negative. A float is rounded, half away from zero, and
kept between zero and the largest number of 64 bits. -/
def coerceCount : Value → Option Nat
  | .boolean b => some b.toNat
  | .integer n => if 0 ≤ n then some n.toNat else none
  | .float x => some x.round.toUInt64.toNat
  | .string s =>
    match flagOfWord s with
    | some b => some b.toNat
    | none => Text.unsigned64? s.toList
  | _ => none

/-- A text from any single value. -/
def coerceText : Value → Option String
  | .string s => some s
  | .boolean b => some (if b then "true" else "false")
  | .integer n => some (toString n)
  | .float x => some (Decimal.floatText x)
  | .dateTime d => some d.text
  | _ => none

/-- A list of texts from an array of single values. -/
def coerceTexts : Value → Option (List String)
  | .array items => items.mapM coerceText
  | _ => none

/-- Texts by name from a table of single values. -/
def coerceTable : Value → Option (OrderedMap String)
  | .table entries =>
    (entries.mapM fun e => (coerceText e.2).map fun x => (e.1, x)).map OrderedMap.ofList
  | _ => none

/-! ## Reading the settings -/

/-- A setting by name: a table has it under its name, an array at its place in `names`. -/
def settingsOf (names : List String) : Option Value → Option (String → Option Value)
  | some (.table entries) => some fun name => OrderedMap.lookup? name entries
  | some (.array items) => some fun name => (names.idxOf? name).bind (items[·]?)
  | _ => none

/-- A setting that has a default. -/
def setting {α : Type} (coerce : Value → Option α) (missing : α) : Option Value → Option α
  | none => some missing
  | some v => coerce v

/-- The general settings. -/
def coerceGeneral (v : Option Value) : Option GeneralSettings := do
  let field ← settingsOf ["override", "history_size", "install_command"] v
  let d : GeneralSettings := {}
  return {
    overrideDefaults := ← setting coerceFlag d.overrideDefaults (field "override")
    historySize := ← setting coerceCount d.historySize (field "history_size")
    installCommand := ← setting coerceTexts d.installCommand (field "install_command") }

/-- The settings of the log. -/
def coerceLogging (v : Option Value) : Option LoggingSettings := do
  let field ← settingsOf ["enabled", "level", "format", "output", "file", "color", "modules"] v
  let d : LoggingSettings := {}
  return {
    enabled := ← setting coerceFlag d.enabled (field "enabled")
    level := ← setting coerceText d.level (field "level")
    format := ← setting coerceText d.format (field "format")
    output := ← setting coerceText d.output (field "output")
    file := ← setting coerceText d.file (field "file")
    color := ← setting coerceFlag d.color (field "color")
    modules := ← setting coerceTable d.modules (field "modules") }

/-- The general and logging settings of a document. -/
def settingsOfDocument (document : Entries) : Option (GeneralSettings × LoggingSettings) := do
  let layered := layer document
  let general ← coerceGeneral (OrderedMap.lookup? "statue" layered)
  let logging ← coerceLogging (OrderedMap.lookup? "logging" layered)
  return (general, logging)

end Checkup.Config
