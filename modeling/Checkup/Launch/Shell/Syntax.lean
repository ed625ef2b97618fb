/-!
# The syntax of shell scripts

A script is a list of simple commands. Each has words and redirections; what
stands before a command tells when it runs.

* `Shell.Word` — text and parameters, quoted or not.
* `Shell.Command`, `Shell.Script` — what is run, and when.
* `Shell.Script.ofText` — the script of a text.
-/

namespace Checkup.Shell

/-- A part of a word. -/
inductive Part where
  /-- characters as they are -/
  | text (chars : List Char) (quoted : Bool)
  /-- the value of a parameter -/
  | parameter (name : String) (quoted : Bool)
  deriving DecidableEq, Repr

/-- A word before parameters have values. -/
abbrev Word := List Part

/-- Where a stream goes. -/
inductive Target where
  /-- where another stream goes now -/
  | stream (number : Nat)
  /-- nowhere -/
  | nothing
  deriving DecidableEq, Repr

/-- When a command runs, by the status of the one that ran before it. -/
inductive Condition where
  /-- always -/
  | always
  /-- if the status is zero -/
  | afterSuccess
  /-- if the status is not zero -/
  | afterFailure
  deriving DecidableEq, Repr

/-- A simple command. -/
structure Command where
  /-- when it runs -/
  condition : Condition := .always
  /-- the line it stands on, from one on -/
  line : Nat := 1
  /-- its words -/
  words : List Word := []
  /-- streams and where they go, in order -/
  redirections : List (Nat × Target) := []
  deriving DecidableEq, Repr

/-- The commands of a script, in order. -/
abbrev Script := List Command

/-! ## Tokens -/

/-- A token of a script. -/
inductive Token where
  /-- a word -/
  | word (w : Word)
  /-- a redirection of a stream; where it goes is the next word or part of it -/
  | redirection (stream : Nat) (target : Target)
  /-- the end of a command -/
  | finish
  /-- the end of a command and of its line -/
  | newLine
  /-- what follows runs after success -/
  | andThen
  /-- what follows runs after failure -/
  | orElse
  deriving DecidableEq, Repr

/-- How characters are read. -/
inductive Mode where
  /-- outside quotes -/
  | plain
  /-- between single quotes -/
  | single
  /-- between double quotes -/
  | double
  /-- in a comment -/
  | comment
  deriving DecidableEq, Repr

/-- The parameters of one character. -/
def isSpecialParameter (c : Char) : Bool := c.isDigit || "*@#$?!-".toList.contains c

/-- Whether a name of a variable may go on with a character. -/
def isNameChar (c : Char) : Bool := c.isAlphanum || c = '_'

/-- The word that is read, ended. -/
def endWord : Option Word → List Token
  | none => []
  | some w => [.word w]

/-- Adds a part to the word that is read. -/
def extend (w : Option Word) (p : Part) : Option Word := some (w.getD [] ++ [p])

/-- The stream of a redirection: the number right before it, or the output. -/
def streamBefore : Option Word → List Token × Nat
  | some [.text [c] false] => if c.isDigit then ([], c.toNat - '0'.toNat) else
      ([.word [.text [c] false]], 1)
  | w => (endWord w, 1)

theorem length_dropWhile_le {α : Type} (p : α → Bool) (l : List α) :
    (l.dropWhile p).length ≤ l.length := by
  induction l with
  | nil => simp
  | cons a l ih =>
    rw [List.dropWhile_cons]
    split <;> simp only [List.length_cons] <;> omega

/-- The name of a parameter after its dollar sign, and what follows it. -/
def parameter? (cs : List Char) : Option (String × { rest : List Char // rest.length ≤ cs.length }) :=
  match cs with
  | [] => none
  | '\x7b' :: rest =>
    let name := rest.takeWhile (· ≠ '\x7d')
    let after := (rest.dropWhile (· ≠ '\x7d')).drop 1
    some (String.ofList name, ⟨after, by
      have := length_dropWhile_le (· ≠ '\x7d') rest
      simp only [after, List.length_drop, List.length_cons]
      omega⟩)
  | c :: rest =>
    if isSpecialParameter c then some (c.toString, ⟨rest, by simp⟩)
    else if isNameChar c then
      some (String.ofList (c :: rest.takeWhile isNameChar), ⟨rest.dropWhile isNameChar, by
        have := length_dropWhile_le isNameChar rest
        simp only [List.length_cons]
        omega⟩)
    else none

/-- Whether a character ends the name of a file. -/
def endsFileName (c : Char) : Bool := " \t\n;&|".toList.contains c

/-- What follows the name of a file that a redirection goes to. -/
def skipFileName (cs : List Char) : { rest : List Char // rest.length ≤ cs.length } :=
  let start := cs.dropWhile fun c => c = '>' || c = ' '
  ⟨start.dropWhile fun c => !endsFileName c, by
    have h := length_dropWhile_le (fun c => decide (c = '>') || decide (c = ' ')) cs
    have h' := length_dropWhile_le (fun c => !endsFileName c) start
    exact Nat.le_trans h' h⟩

/-- The tokens of a text, from a mode and a word that has begun. There are none when
a quote does not end. -/
def tokens (mode : Mode) (w : Option Word) (cs : List Char) : Option (List Token) :=
  match mode, cs with
  | .plain, [] => some (endWord w)
  | .comment, [] => some []
  | _, [] => none
  | .comment, c :: rest =>
    if c = '\n' then (tokens .plain none rest).map (.newLine :: ·) else tokens .comment none rest
  | .single, c :: rest =>
    if c = '\'' then tokens .plain w rest
    else tokens .single (extend w (.text [c] true)) rest
  | .double, '"' :: rest => tokens .plain w rest
  | .double, '\\' :: c :: rest =>
    if c = '\n' then tokens .double w rest
    else if "$\"\\".toList.contains c || c = '\x60' then
      tokens .double (extend w (.text [c] true)) rest
    else tokens .double (extend w (.text ['\\', c] true)) rest
  | .double, '$' :: rest =>
    match parameter? rest with
    | some (name, ⟨after, h⟩) =>
      have : after.length < rest.length + 1 := Nat.lt_succ_of_le h
      tokens .double (extend w (.parameter name true)) after
    | none => tokens .double (extend w (.text ['$'] true)) rest
  | .double, c :: rest => tokens .double (extend w (.text [c] true)) rest
  | .plain, '\'' :: rest => tokens .single (extend w (.text [] true)) rest
  | .plain, '"' :: rest => tokens .double (extend w (.text [] true)) rest
  | .plain, '\\' :: c :: rest =>
    if c = '\n' then tokens .plain w rest else tokens .plain (extend w (.text [c] true)) rest
  | .plain, '$' :: rest =>
    match parameter? rest with
    | some (name, ⟨after, h⟩) =>
      have : after.length < rest.length + 1 := Nat.lt_succ_of_le h
      tokens .plain (extend w (.parameter name false)) after
    | none => tokens .plain (extend w (.text ['$'] false)) rest
  | .plain, '&' :: '&' :: rest =>
    (tokens .plain none rest).map fun more => endWord w ++ .andThen :: more
  | .plain, '|' :: '|' :: rest =>
    (tokens .plain none rest).map fun more => endWord w ++ .orElse :: more
  | .plain, '>' :: '&' :: c :: rest =>
    let (before, stream) := streamBefore w
    (tokens .plain none rest).map fun more =>
      before ++ .redirection stream (.stream (c.toNat - '0'.toNat)) :: more
  | .plain, '>' :: rest =>
    let (before, stream) := streamBefore w
    let ⟨after, h⟩ := skipFileName rest
    have : after.length < rest.length + 1 := Nat.lt_succ_of_le h
    (tokens .plain none after).map fun more => before ++ .redirection stream .nothing :: more
  | .plain, c :: rest =>
    if c = ' ' || c = '\t' then (tokens .plain none rest).map (endWord w ++ ·)
    else if c = '\n' then (tokens .plain none rest).map fun more => endWord w ++ .newLine :: more
    else if c = ';' || c = '&' || c = '|' then
      (tokens .plain none rest).map fun more => endWord w ++ .finish :: more
    else if c = '#' && w.isNone then tokens .comment none rest
    else tokens .plain (extend w (.text [c] false)) rest
termination_by cs.length
decreasing_by all_goals simp only [List.length_cons]; omega

/-! ## Commands -/

/-- The commands of tokens; `current` is the command that has begun. -/
def commandsOf (current : Command) : List Token → Script
  | [] => finished current
  | .word w :: rest => commandsOf { current with words := current.words ++ [w] } rest
  | .redirection stream target :: rest =>
    commandsOf { current with redirections := current.redirections ++ [(stream, target)] } rest
  | .finish :: rest => finished current ++ commandsOf { line := current.line } rest
  | .newLine :: rest =>
    if current.words.isEmpty && current.condition ≠ .always then
      commandsOf { current with line := current.line + 1 } rest
    else finished current ++ commandsOf { line := current.line + 1 } rest
  | .andThen :: rest =>
    finished current ++ commandsOf { condition := .afterSuccess, line := current.line } rest
  | .orElse :: rest =>
    finished current ++ commandsOf { condition := .afterFailure, line := current.line } rest
where
  /-- A command, unless it is empty. -/
  finished (c : Command) : Script := if c.words.isEmpty then [] else [c]

/-- The script of a text, if its quotes end. -/
def Script.ofText (text : List Char) : Option Script :=
  (tokens .plain none text).map (commandsOf {})

end Checkup.Shell
