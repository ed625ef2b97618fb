import Checkup.Text.Blank
import Checkup.Text.Digits
import Checkup.Text.Pieces

/-!
# Logging directives

Which records are logged. A directive names a level, a target, a span with
fields, or a target with a level; a filter is a list of directives with commas
between them.

* `LogLevel.ofText?` — a level by its name, in any case, or its number.
* `Directive.ofText?` — one directive.
* `Directive.listOfText?` — a filter; empty directives do not count.
-/

namespace Checkup

/-- How much is logged, from nothing to everything. -/
inductive LogLevel where
  /-- nothing -/
  | off
  /-- errors -/
  | error
  /-- what may be wrong, too -/
  | warn
  /-- what happens, too -/
  | info
  /-- what helps in finding errors, too -/
  | debug
  /-- everything -/
  | trace
  deriving DecidableEq, Repr

/-- The level with a name in lower case. -/
def LogLevel.named? : String → Option LogLevel
  | "off" => some .off
  | "error" => some .error
  | "warn" => some .warn
  | "info" => some .info
  | "debug" => some .debug
  | "trace" => some .trace
  | _ => none

/-- The level with a number. -/
def LogLevel.numbered? : Nat → Option LogLevel
  | 0 => some .off
  | 1 => some .error
  | 2 => some .warn
  | 3 => some .info
  | 4 => some .debug
  | 5 => some .trace
  | _ => none

/-- The level with a number or a name; only the case of ASCII letters does not count. -/
def LogLevel.ofText? (cs : List Char) : Option LogLevel :=
  ((Text.unsigned64? cs).bind numbered?).orElse fun _ =>
    named? (String.ofList (cs.map Char.toLower))

/-- Which records are logged at which level. -/
structure Directive where
  /-- the most that is logged -/
  level : LogLevel := .trace
  /-- where records come from; without one, anywhere -/
  target : Option String := none
  /-- the span in which records are made; without one, any -/
  span : Option String := none
  /-- the fields of that span -/
  fields : List String := []
  deriving DecidableEq, Repr

namespace Directive

/-- Whether a target or level may start with a character. Beyond ASCII, all that is
not blank counts as a letter. -/
def isNameStart (c : Char) : Bool :=
  c.isAlphanum || c = '-' || c = ':' || c = '_' || (0x80 ≤ c.toNat && !Text.isBlank c)

/-- A directive with the level after an equals sign. No level means everything; one comma
may follow. -/
def withLevel? (d : Directive) (cs : List Char) : Option Directive :=
  let name := cs.takeWhile (· ≠ ',')
  match cs.dropWhile (· ≠ ',') with
  | [] => finish name
  | [_] => finish name
  | _ => none
where
  finish (name : List Char) : Option Directive :=
    if name = [] then some d else (LogLevel.ofText? name).map fun level => { d with level }

/-- What may follow a span: the end, or a level. -/
def afterSpan? (d : Directive) : List Char → Option Directive
  | [] => some d
  | '=' :: level => d.withLevel? level
  | _ => none

/-- The fields of a span, up to the closing brace. None may be empty. -/
def withFields? (d : Directive) (cs : List Char) : Option Directive :=
  let fields := Text.pieces ',' (cs.takeWhile (· ≠ '\x7d'))
  if fields.contains [] then none
  else
    match cs.dropWhile (· ≠ '\x7d') with
    | _ :: ']' :: rest => afterSpan? { d with fields := fields.map String.ofList } rest
    | _ => none

/-- The span after its opening bracket. -/
def withSpan? (d : Directive) (cs : List Char) : Option Directive :=
  let isInside (c : Char) := c ≠ ']' && c ≠ '\x7b'
  let d := { d with span := some (String.ofList (cs.takeWhile isInside)) }
  match cs.dropWhile isInside with
  | ']' :: rest => d.afterSpan? rest
  | _ :: rest => d.withFields? rest
  | [] => none

/-- A name alone: a level if it is one, else a target of which everything is logged. -/
def ofName (cs : List Char) : Directive :=
  match LogLevel.ofText? cs with
  | some level => { level }
  | none => { target := some (String.ofList cs) }

/-- A directive that does not start with a span. -/
def ofTarget? (cs : List Char) : Option Directive :=
  let isInside (c : Char) := c ≠ '=' && c ≠ '[' && c ≠ ','
  let name := cs.takeWhile isInside
  let d : Directive := { target := some (String.ofList name) }
  match cs.dropWhile isInside with
  | [] => some (ofName name)
  | '=' :: level => d.withLevel? level
  | '[' :: rest => d.withSpan? rest
  | [_] => some { target := some (String.ofList cs) }
  | _ => none

/-- The directive of a text; blanks around it do not count. -/
def ofText? (text : String) : Option Directive :=
  let cs := (Text.trimEnd text).toList.dropWhile Text.isBlank
  match cs with
  | '[' :: rest => ({} : Directive).withSpan? rest
  | c :: _ => if isNameStart c then ofTarget? cs else none
  | [] => none

/-- The directives of a filter. -/
def listOfText? (text : String) : Option (List Directive) :=
  ((Text.pieces ',' text.toList).filter (· ≠ [])).mapM fun piece => ofText? (String.ofList piece)

end Directive

end Checkup
