import Checkup.Arguments

/-!
# One level of a command line

A command line has levels, one for each name of a command. At each level options
are read in any order, until a subcommand or the end.

* `Flag` — an option and what it does to what has been read so far.
* `Level` — the options, subcommands and positional arguments of a level.
* `Level.scan` — reads a level.

The value of an option that stands apart from it is looked at only when the next
argument has been recognised: of two faults the later one may win.
-/

namespace Checkup.Arguments

universe u

variable {σ : Type u}

/-- What an option does. -/
inductive Action (σ : Type u) where
  /-- asks for help -/
  | help
  /-- stands for itself -/
  | switch (isGiven : σ → Bool) (give : σ → σ)
  /-- has a value -/
  | value (isGiven : σ → Bool) (give : String → σ → Except UsageError σ)

/-- An option. -/
structure Flag (σ : Type u) where
  /-- the name after two dashes -/
  long : Option String := none
  /-- the letter after one dash -/
  short : Option Char := none
  /-- what it does -/
  action : Action σ

/-- An option that waits. -/
inductive Pending (σ : Type u) where
  /-- no option waits -/
  | none
  /-- an option waits for its value -/
  | awaiting (isGiven : σ → Bool) (give : String → σ → Except UsageError σ)
  /-- a value waits to be looked at -/
  | held (isGiven : σ → Bool) (give : String → σ → Except UsageError σ) (value : String)

/-- A place for arguments that are no options. -/
structure Positional (σ : Type u) where
  /-- whether no more of them are taken -/
  isFull : σ → Bool
  /-- takes one -/
  take : String → σ → σ

/-- What may be given at a level. -/
structure Level (σ : Type u) where
  /-- the options -/
  flags : List (Flag σ)
  /-- the subcommands -/
  subcommands : List String := []
  /-- the place for arguments that are no options -/
  positional : Option (Positional σ) := .none

/-- Gives an option a value, unless it has one already. -/
def giveValue (isGiven : σ → Bool) (give : String → σ → Except UsageError σ) (value : String)
    (state : σ) : Except UsageError σ :=
  if isGiven state then .error .conflict else give value state

/-- Looks at the value that waits. -/
def Pending.settle (state : σ) : Pending σ → Except UsageError σ
  | .none => .ok state
  | .awaiting .. => .error .invalidValue
  | .held isGiven give value => giveValue isGiven give value state

namespace Level

/-- The option with a long name. -/
def long? (level : Level σ) (name : List Char) : Option (Flag σ) :=
  level.flags.find? fun f => f.long.map String.toList = some name

/-- The option with a letter. -/
def short? (level : Level σ) (letter : Char) : Option (Flag σ) :=
  level.flags.find? fun f => f.short = some letter

/-- Reads an option by its long name; a value may follow an equals sign. -/
def readLong (level : Level σ) (state : σ) (pending : Pending σ) (text : List Char) :
    Except UsageError (σ × Pending σ) := do
  let name := text.takeWhile (· ≠ '=')
  let attached := match text.dropWhile (· ≠ '=') with
    | [] => Option.none
    | _ :: value => some (String.ofList value)
  match (level.long? name).map Flag.action, attached with
  | .none, _ => .error .unknownArgument
  | some (.value isGiven give), some value =>
    return (← giveValue isGiven give value (← pending.settle state), .none)
  | some (.value isGiven give), .none => return (← pending.settle state, .awaiting isGiven give)
  | some _, some _ => .error .unneededValue
  | some .help, .none =>
    let _ ← pending.settle state
    .error .help
  | some (.switch isGiven give), .none =>
    let state ← pending.settle state
    if isGiven state then .error .conflict else return (give state, .none)

/-- Reads options by their letters; what follows one with a value is its value,
less an equals sign. -/
def readShort (level : Level σ) (state : σ) (pending : Pending σ) :
    List Char → Except UsageError (σ × Pending σ)
  | [] => .ok (state, pending)
  | letter :: rest =>
    match (level.short? letter).map Flag.action with
    | .none => .error .unknownArgument
    | some .help => do
      let _ ← pending.settle state
      .error .help
    | some (.switch isGiven give) => do
      let state ← pending.settle state
      if isGiven state then .error .conflict
      else level.readShort (give state) .none rest
    | some (.value isGiven give) => do
      let state ← pending.settle state
      match rest with
      | [] => return (state, .awaiting isGiven give)
      | '=' :: value => return (← giveValue isGiven give (String.ofList value) state, .none)
      | value => return (← giveValue isGiven give (String.ofList value) state, .none)

/-- Why an argument that is no option has no place. -/
def misplaced (level : Level σ) (onlyPositional : Bool) (argument : String) : UsageError :=
  if level.subcommands.isEmpty then .unknownArgument
  else if onlyPositional && level.subcommands.contains argument then .unknownArgument
  else .unknownSubcommand

/-- Reads an argument that is no option. -/
def readPositional (level : Level σ) (state : σ) (pending : Pending σ) (onlyPositional : Bool)
    (argument : String) : Except UsageError σ :=
  match level.positional with
  | some place =>
    if place.isFull state then .error (level.misplaced onlyPositional argument)
    else (pending.settle state).map (place.take argument)
  | .none => .error (level.misplaced onlyPositional argument)

/-- What a level comes to: what has been read, the option that waits, and the
subcommand with its arguments, if there is one. -/
structure Scanned (σ : Type u) where
  /-- what has been read -/
  state : σ
  /-- the option that waits -/
  pending : Pending σ
  /-- the subcommand, and what follows it -/
  next : Option (String × List String) := .none

/-- Reads a level. After two dashes all arguments are positional. -/
def scan (level : Level σ) (state : σ) (pending : Pending σ) (onlyPositional : Bool) :
    List String → Except UsageError (Scanned σ)
  | [] => .ok ⟨state, pending, .none⟩
  | argument :: rest =>
    if onlyPositional then do
      let state ← level.readPositional state pending true argument
      level.scan state .none true rest
    else
      match pending, argument.toList with
      | pending, ['-', '-'] => level.scan state pending true rest
      | pending, '-' :: '-' :: text => do
        let (state, pending) ← level.readLong state pending text
        level.scan state pending false rest
      | pending, '-' :: c :: text => do
        let (state, pending) ← level.readShort state pending (c :: text)
        level.scan state pending false rest
      | .awaiting isGiven give, _ => level.scan state (.held isGiven give argument) false rest
      | pending, _ =>
        if level.subcommands.contains argument then .ok ⟨state, pending, some (argument, rest)⟩
        else do
          let state ← level.readPositional state pending false argument
          level.scan state .none false rest

end Level

end Checkup.Arguments
