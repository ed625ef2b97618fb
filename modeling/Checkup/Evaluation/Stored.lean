import Checkup.Evaluation
import Checkup.Json.Reader
import Checkup.Json.Writer

/-!
# Stored evaluations

The form in which evaluations are kept: an object that gives each source a
record of its results.

* `Evaluation.toText` — the text that is stored.
* `Evaluation.ofText?` — the evaluation of a text. Records may be objects,
  whose unknown members do not count, or arrays of their fields in order.
-/

namespace Checkup

namespace Json.Value

/-- The value as a text. -/
def text? : Value → Option String
  | .string s => s
  | _ => none

/-- The value as a truth value. -/
def boolean? : Value → Option Bool
  | .boolean b => some b
  | _ => none

/-- The value as an array. -/
def items? : Value → Option (List Value)
  | .array items => some items
  | _ => none

/-- The value as an array of texts. -/
def texts? (v : Value) : Option (List String) := v.items?.bind (·.mapM text?)

/-- Names with their values; every name has to be a text. -/
def members? : Value → Option (List (String × Value))
  | .object members => members.mapM fun (name, v) => name.map (·, v)
  | _ => none

/-- The value of a field among members. It may be missing, and may not be repeated. -/
def field? (members : List (String × Value)) (name : String) : Option (Option Value) :=
  match members.filter (·.1 = name) with
  | [] => some none
  | [(_, v)] => some (some v)
  | _ => none

/-- The fields of a record, each of which may be missing: the members of an
object with the given names, or the items of an array from the first field on. -/
def fields? (names : List String) (v : Value) : Option (List (Option Value)) :=
  match v with
  | .array items =>
    if items.length ≤ names.length then
      some (items.map some ++ List.replicate (names.length - items.length) none)
    else none
  | v => v.members?.bind fun members => names.mapM (field? members)

end Json.Value

open Json (Value)

/-! ## Commands -/

/-- The fields of a command's record, in order. -/
def CommandEvaluation.fieldNames : List String :=
  ["command", "args", "success", "exit_code", "captured_output"]

/-- An exit status as it is stored. -/
def exitCodeToJson : Option Int32 → Value
  | none => .null
  | some code => .integer code.toInt

/-- The exit status of a stored value: a number of 32 bits, or nothing. -/
def exitCodeOfJson? : Value → Option (Option Int32)
  | .null => some none
  | .integer n =>
    if Int32.minValue.toInt ≤ n ∧ n ≤ Int32.maxValue.toInt then some (some (Int32.ofInt n))
    else none
  | _ => none

/-- The record of a command. -/
def CommandEvaluation.toJson (e : CommandEvaluation) : Value :=
  .record [("command", .text e.command), ("args", .texts e.args), ("success", .boolean e.success),
    ("exit_code", exitCodeToJson e.exitCode), ("captured_output", .texts e.output)]

/-- The command of a record. Its name and success have to be there. -/
def CommandEvaluation.ofJson? (v : Value) : Option CommandEvaluation :=
  match v.fields? fieldNames with
  | some [some command, args, some success, exitCode, output] => do
    return {
      command := ← command.text?
      args := ← (args.map Value.texts?).getD (some [])
      success := ← success.boolean?
      exitCode := ← (exitCode.map exitCodeOfJson?).getD (some none)
      output := ← (output.map Value.texts?).getD (some []) }
  | _ => none

/-! ## Sources -/

/-- The record of the results of a source. -/
def Results.toJson (results : Results) : Value :=
  .record [("commands_evaluations", .array (results.map CommandEvaluation.toJson))]

/-- The results of a record. -/
def Results.ofJson? (v : Value) : Option Results :=
  match v.fields? ["commands_evaluations"] with
  | some [some commands] => commands.items?.bind (·.mapM CommandEvaluation.ofJson?)
  | _ => none

/-! ## Evaluations -/

namespace Evaluation

/-- The object of an evaluation. -/
def toJson (e : Evaluation) : Value :=
  .record (e.entries.map fun (source, results) => (source, Results.toJson results))

/-- The evaluation of an object. The last results of a repeated source count, at its first place. -/
def ofJson? (v : Value) : Option Evaluation := do
  let members ← v.members?
  let entries ← members.mapM fun (source, v) => (Results.ofJson? v).map (source, ·)
  return OrderedMap.ofList entries

/-- The text that is stored. -/
def toText (e : Evaluation) : String := Json.write e.toJson

/-- The evaluation of a stored text. -/
def ofText? (text : String) : Option Evaluation := (Json.read text).bind ofJson?

end Evaluation

end Checkup
