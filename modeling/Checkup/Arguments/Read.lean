import Checkup.Arguments.Level
import Checkup.Text.Digits

/-!
# Reading command lines

The levels of the command line and what they come to.

* `Reader` — reads all that follows a name on the command line.
* `Reader.leaf`, `Reader.group` — a command, and a name with subcommands.
* `Invocation.ofArguments` — the invocation of a command line.

An inner level is read to its end before the options around it are settled.
-/

namespace Checkup

namespace Arguments

/-! ## Values -/

/-- A path; it may not be empty. -/
def pathValue (value : String) : Except UsageError String :=
  if value = "" then .error .invalidValue else .ok value

/-- A number of 64 bits. -/
def numberValue (value : String) : Except UsageError Nat :=
  match Text.unsigned64? value.toList with
  | some n => .ok n
  | none => .error .notANumber

/-- A number of 64 bits, from one on. -/
def positiveValue (value : String) : Except UsageError Nat := do
  let n ← numberValue value
  if n = 0 then .error .notANumber else return n

/-- One of some choices. -/
def choiceValue {α : Type} (choices : List (String × α)) (value : String) :
    Except UsageError α :=
  match choices.lookup value with
  | some choice => .ok choice
  | none => .error .invalidValue

/-! ## Options -/

/-- What has been read at a level: the options that every command knows, and its own arguments. -/
structure Given (α : Type) where
  /-- the options that every command knows -/
  globals : Globals := {}
  /-- the arguments of the command -/
  own : α

/-- An option with a value that may be given once. -/
def single {σ β : Type} (get : σ → Option β) (read : String → Except UsageError β)
    (set : β → σ → σ) : Action σ :=
  .value (fun s => (get s).isSome) fun value s => (read value).map (set · s)

/-- An option with a value that may be given any number of times. -/
def repeated {σ : Type} (add : String → σ → σ) : Action σ :=
  .value (fun _ => false) fun value s => .ok (add value s)

/-- The options that every level knows. -/
def globalFlags (α : Type) : List (Flag (Given α)) :=
  let globals (change : Globals → Globals) (s : Given α) := { s with globals := change s.globals }
  [{ long := "help", short := 'h', action := .help },
   { long := "workspace", action := single (·.globals.workspace) pathValue
      fun v => globals fun g => { g with workspace := v } },
   { long := "config", action := single (·.globals.config) pathValue
      fun v => globals fun g => { g with config := v } },
   { long := "verbose", action := .switch (·.globals.verbose)
      (globals fun g => { g with verbose := true }) },
   { long := "quiet", action := .switch (·.globals.quiet)
      (globals fun g => { g with quiet := true }) },
   { long := "log-level", action := single (·.globals.logLevel) .ok
      fun v => globals fun g => { g with logLevel := v } },
   { long := "log-format", action := single (·.globals.logFormat) .ok
      fun v => globals fun g => { g with logFormat := v } },
   { long := "log-output", action := single (·.globals.logOutput) .ok
      fun v => globals fun g => { g with logOutput := v } },
   { long := "log-file", action := single (·.globals.logFile) pathValue
      fun v => globals fun g => { g with logFile := v } }]

/-- The options of a selection that is part of the arguments of a command. -/
def selectionFlags {α : Type} (change : (Selection → Selection) → α → α) :
    List (Flag (Given α)) :=
  let own (f : Selection → Selection) (s : Given α) := { s with own := change f s.own }
  [{ long := "context", short := 'c', action := repeated
      fun v => own fun s => { s with contexts := s.contexts ++ [v] } },
   { long := "allow", short := 'a', action := repeated
      fun v => own fun s => { s with allow := s.allow ++ [v] } },
   { long := "deny", short := 'd', action := repeated
      fun v => own fun s => { s with deny := s.deny ++ [v] } }]

/-! ## Levels -/

/-- Reads all that follows a name on the command line. -/
structure Reader where
  /-- reads the arguments -/
  read : List String → Except UsageError Invocation
  /-- asks for help on a subcommand, given by its names -/
  help : List String → UsageError

/-- Nobody can be verbose and quiet at one level. -/
def checkGlobals (g : Globals) : Except UsageError Unit :=
  if g.verbose && g.quiet then .error .conflict else .ok ()

/-- The reader of a command. `finish` makes a request of its arguments, or finds a
conflict or a gap in them. -/
def Reader.leaf {α : Type} (start : α) (flags : List (Flag (Given α)))
    (positional : Option (Positional (Given α))) (finish : α → Except UsageError Request) :
    Reader where
  read arguments := do
    let level : Level (Given α) := { flags := globalFlags α ++ flags, positional }
    let scanned ← level.scan { own := start } .none false arguments
    let given ← scanned.pending.settle scanned.state
    checkGlobals given.globals
    return ⟨given.globals, ← finish given.own⟩
  help names := if names.isEmpty then .help else .unknownSubcommand

/-- The name of the subcommand that shows help. -/
def helpName : String := "help"

/-- The reader of a name with subcommands. -/
def Reader.group (subcommands : List (String × Reader)) : Reader where
  read arguments := do
    let names := subcommands.map Prod.fst
    let level : Level (Given Unit) :=
      { flags := globalFlags Unit, subcommands := names ++ [helpName] }
    let scanned ← level.scan { own := () } .none false arguments
    match scanned.next with
    | some (name, rest) =>
      match subcommands.lookup name with
      | some reader => do
        let inner ← reader.read rest
        let given ← scanned.pending.settle scanned.state
        checkGlobals given.globals
        return { inner with globals := inner.globals.under given.globals }
      | none => .error (helpOn rest)
    | none => do
      let given ← scanned.pending.settle scanned.state
      .error (if given.globals = {} then .nothingGiven else .missingSubcommand)
  help := helpOn
where
  /-- Help on a subcommand, given by its names. -/
  helpOn : List String → UsageError
    | [] => .help
    | name :: rest =>
      match subcommands.lookup name with
      | some reader => reader.help rest
      | none => if name = helpName && rest.isEmpty then .help else .unknownSubcommand

/-! ## Commands -/

/-- Takes any number of sources. -/
def manySources {α : Type} (add : String → α → α) : Positional (Given α) where
  isFull _ := false
  take v s := { s with own := add v s.own }

/-- A run, with what has been given so far. -/
structure RunGiven where
  /-- the arguments -/
  arguments : RunArguments := {}
  /-- the number of jobs, once it is given -/
  jobs : Option Nat := none
  /-- the verbosity, once it is given -/
  verbosity : Option Verbosity := none

/-- Reads a run. -/
def runReader : Reader :=
  .leaf ({} : RunGiven)
    (selectionFlags (fun f (r : RunGiven) =>
        { r with arguments.selection := f r.arguments.selection }) ++
      [{ long := "jobs", short := 'j', action := single (·.own.jobs) numberValue
          fun n s => { s with own.jobs := some n } },
       { long := "install", short := 'i', action := .switch (·.own.arguments.install)
          fun s => { s with own.arguments.install := true } },
       { long := "verbosity", action := single (·.own.verbosity)
          (choiceValue [("normal", .normal), ("verbose", .verbose), ("silent", .silent)])
          fun v s => { s with own.verbosity := some v } },
       { long := "silent", action := .switch (·.own.arguments.silent)
          fun s => { s with own.arguments.silent := true } }])
    (some (manySources fun v r =>
      { r with arguments.sources := r.arguments.sources ++ [v] }))
    fun r =>
      if r.arguments.silent && r.verbosity.isSome then .error .conflict
      else .ok <| .run { r.arguments with
        jobs := r.jobs.getD 1, verbosity := r.verbosity.getD .normal }

/-- Reads the showing of a plan. -/
def planReader : Reader :=
  .leaf (({}, none) : PlanArguments × Option PlanFormat)
    (selectionFlags (fun f (p, format) => ({ p with selection := f p.selection }, format)) ++
      [{ long := "format", action := single (·.own.2)
          (choiceValue [("text", .text), ("json", .json)])
          fun v s => { s with own := (s.own.1, some v) } }])
    (some (manySources fun v (p, format) => ({ p with sources := p.sources ++ [v] }, format)))
    fun (p, format) => .ok (.plan { p with format := format.getD .text })

/-- Takes one name. -/
def oneName {α : Type} (get : α → Option String) (set : String → α → α) :
    Positional (Given α) where
  isFull s := (get s.own).isSome
  take v s := { s with own := set v s.own }

/-- Reads the showing of a context. -/
def contextShowReader : Reader :=
  .leaf (none : Option String) [] (some (oneName id fun v _ => some v)) fun
    | some name => .ok (.contextShow name)
    | none => .error .missingArgument

/-- Reads the showing of commands. -/
def commandListReader : Reader :=
  .leaf ({} : Selection) (selectionFlags id) none fun s => .ok (.commandList s)

/-- Reads the showing of a command. -/
def commandShowReader : Reader :=
  .leaf ((none, []) : Option String × List String)
    [{ long := "context", short := 'c', action := repeated
        fun v s => { s with own := (s.own.1, s.own.2 ++ [v]) } }]
    (some (oneName Prod.fst fun v (_, contexts) => (some v, contexts)))
    fun
    | (some name, contexts) => .ok (.commandShow name contexts)
    | (none, _) => .error .missingArgument

/-- Reads the showing of past runs. -/
def historyListReader : Reader :=
  .leaf (none : Option Nat)
    [{ long := "head", action := single (·.own) numberValue fun n s => { s with own := some n } }]
    none fun head => .ok (.historyList head)

/-- Reads the showing of a past run. -/
def historyShowReader : Reader :=
  .leaf (none : Option Nat)
    [{ short := 'n', action := single (·.own) positiveValue fun n s => { s with own := some n } }]
    none fun number => .ok (.historyShow (number.getD 1))

/-- Reads the writing of a configuration. -/
def configInitReader : Reader :=
  .leaf false
    [{ long := "force", action := .switch (·.own) fun s => { s with own := true } }]
    none fun force => .ok (.configInit force)

/-- Reads a whole command line. -/
def reader : Reader :=
  .group [
    ("run", runReader),
    ("plan", planReader),
    ("context", .group [("list", .leaf () [] none fun _ => .ok .contextList),
      ("show", contextShowReader)]),
    ("command", .group [("list", commandListReader), ("show", commandShowReader)]),
    ("history", .group [("list", historyListReader), ("show", historyShowReader)]),
    ("config", .group [("init", configInitReader)])]

end Arguments

/-- The invocation of a command line, given without the name of the program. -/
def Invocation.ofArguments (arguments : List String) : Except UsageError Invocation :=
  Arguments.reader.read arguments

end Checkup
