import Checkup.Config
import Checkup.Toml.Value

/-!
# Configuration from tables

The strict reading of a document: every known key has to have a value of its
kind, and nothing is coerced. Unknown keys do not matter, but in a command every
further key is a context.

A record may also be written as an array of its fields in their order; fields
that are left out have their defaults. A date or time counts as a record
without known fields.
-/

namespace Checkup.Config

open Toml (Value Entries)

/-! ## Plain values -/

/-- A text. -/
def readText : Value → Option String
  | .string text => some text
  | _ => none

/-- A truth value. -/
def readFlag : Value → Option Bool
  | .boolean b => some b
  | _ => none

/-- A number that is not negative. -/
def readCount : Value → Option Nat
  | .integer n => if 0 ≤ n then some n.toNat else none
  | _ => none

/-- A list of texts. -/
def readTexts : Value → Option (List String)
  | .array items => items.mapM readText
  | _ => none

/-- A table whose values are all of one kind. -/
def readTable {α : Type} (read : Value → Option α) : Value → Option (OrderedMap α)
  | .table entries =>
    (entries.mapM fun e => (read e.2).map fun x => (e.1, x)).map OrderedMap.ofList
  | _ => none

/-! ## Records -/

/-- The fields of a record by name, where `names` is their order in an array. -/
def fieldsOf (names : List String) : Value → Option (String → Option Value)
  | .table entries => some fun name => OrderedMap.lookup? name entries
  | .array items => some fun name => (names.idxOf? name).bind (items[·]?)
  | .dateTime _ => some fun _ => none
  | _ => none

/-- A field of a record; it may be missing. -/
def readField {α : Type} (read : Value → Option α) (missing : α) : Option Value → Option α
  | none => some missing
  | some v => read v

/-- A field of a record that has no value if it is missing. -/
def readOptional {α : Type} (read : Value → Option α) : Option Value → Option (Option α)
  | none => some none
  | some v => (read v).map some

/-- The general settings. -/
def readGeneral (v : Value) : Option GeneralSettings := do
  let field ← fieldsOf ["override", "history_size", "install_command"] v
  let d : GeneralSettings := {}
  return {
    overrideDefaults := ← readField readFlag d.overrideDefaults (field "override")
    historySize := ← readField readCount d.historySize (field "history_size")
    installCommand := ← readField readTexts d.installCommand (field "install_command") }

/-- The one entry that a date or time has as a table of texts. -/
def dateTimeKey : String := "$__toml_private_datetime"

/-- The levels of single modules. -/
def readModules : Value → Option (OrderedMap String)
  | .dateTime d => some (.ofList [(dateTimeKey, d.text)])
  | v => readTable readText v

/-- The settings of the log. -/
def readLogging (v : Value) : Option LoggingSettings := do
  let field ← fieldsOf ["enabled", "level", "format", "output", "file", "color", "modules"] v
  let d : LoggingSettings := {}
  return {
    enabled := ← readField readFlag d.enabled (field "enabled")
    level := ← readField readText d.level (field "level")
    format := ← readField readText d.format (field "format")
    output := ← readField readText d.output (field "output")
    file := ← readField readText d.file (field "file")
    color := ← readField readFlag d.color (field "color")
    modules := ← readField readModules d.modules (field "modules") }

/-- The field of a context that makes it a default one; it has two names, of
which only one may be used. -/
def readIsDefault (field : String → Option Value) : Option Bool :=
  match field "is_default", field "default" with
  | some _, some _ => none
  | some v, none => readFlag v
  | none, some v => readFlag v
  | none, none => some false

/-- A context. -/
def readContext (v : Value) : Option ContextConfig := do
  let field ← fieldsOf ["help", "aliases", "is_default", "parent"] v
  return {
    help := ← readField readText "" (field "help")
    aliases := ← readField readTexts [] (field "aliases")
    isDefault := ← readIsDefault field
    parent := ← readOptional readText (field "parent") }

/-- A source. -/
def readSource (v : Value) : Option SourceSettings := do
  let field ← fieldsOf ["contexts", "allow_list", "deny_list"] v
  return {
    contexts := ← readField readTexts [] (field "contexts")
    allow := ← readField readTexts [] (field "allow_list")
    deny := ← readField readTexts [] (field "deny_list") }

/-! ## Commands -/

/-- Whether a value is an array that is longer than a record has fields. -/
def isTooLong (fields : Nat) : Value → Bool
  | .array items => fields < items.length
  | _ => false

/-- A patch; unlike other records it may not be too long as an array. -/
def readPatch (v : Value) : Option Patch := do
  guard !(isTooLong 3 v)
  let field ← fieldsOf ["clear_args", "args", "add_args"] v
  return {
    clearArgs := ← readField readFlag false (field "clear_args")
    args := ← readOptional readTexts (field "args")
    addArgs := ← readOptional readTexts (field "add_args") }

/-- What a command says about a context. -/
def readSetting : Value → Option ContextSetting
  | .boolean b => some (.flag b)
  | v => (readPatch v).map .patch

/-- Whether a key of a command is one of its own fields. -/
def isCommandField (key : String) : Bool :=
  ["help", "args", "add_args", "clear_args"].contains key

/-- A command. Every key that is not one of its fields is a context. -/
def readCommand : Value → Option CommandConfig
  | .table entries => do
    let contexts := entries.filter fun e => !isCommandField e.1
    return {
      help := ← readOptional readText (OrderedMap.lookup? "help" entries)
      args := ← readOptional readTexts (OrderedMap.lookup? "args" entries)
      addArgs := ← readOptional readTexts (OrderedMap.lookup? "add_args" entries)
      clearArgs := ← readField readFlag false (OrderedMap.lookup? "clear_args" entries)
      contexts := ← readTable readSetting (.table contexts) }
  | _ => none

/-! ## Documents -/

/-- The configuration that a document states. -/
def ofTables (document : Entries) : Option Config := do
  return {
    general := ← readField readGeneral {} (OrderedMap.lookup? "statue" document)
    contexts := ← readField (readTable readContext) ∅ (OrderedMap.lookup? "contexts" document)
    commands := ← readField (readTable readCommand) ∅ (OrderedMap.lookup? "commands" document)
    sources := ← readField (readTable readSource) ∅ (OrderedMap.lookup? "sources" document)
    logging := ← readField readLogging {} (OrderedMap.lookup? "logging" document) }

end Checkup.Config
