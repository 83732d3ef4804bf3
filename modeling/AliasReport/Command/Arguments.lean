import AliasReport.Number.Digits
import AliasReport.Report.Config

/-! # The command line

* **`Command`** — what the program can be asked to do.
* **`Request`** — a command, or a question about the program itself.
* **`Request.ofArguments?`** — the request that arguments stand for.

Arguments are read from left to right. An option takes its value from behind an equals sign or
from the next argument; a value of its own argument does not start with a hyphen, unless it is a
lone one. Options and flags must not be repeated, except for `--allocation`.
-/

namespace AliasReport

open AliasReport.Number

/-- The options of a command that reads a snapshot. -/
structure Options where
  input : String
  config : Option String
  overrides : Overrides
  /-- Whether the output is JSON instead of text. -/
  json : Bool
deriving DecidableEq, Repr

/-- What the program can be asked to do. -/
inductive Command
  | report (options : Options)
  | aliases (options : Options)
  | version
deriving DecidableEq, Repr

/-- A command, or a question about the program itself. -/
inductive Request
  | run (command : Command)
  | help
  | programVersion
deriving DecidableEq, Repr

/-- The commands by their names. -/
inductive CommandName
  | report
  | aliases
  | version
deriving DecidableEq, Repr

/-- The command with a name. -/
def CommandName.ofText? (name : String) : Option CommandName :=
  if name = "report" then some .report
  else if name = "aliases" then some .aliases
  else if name = "version" then some .version
  else none

/-! ## Options -/

/-- Options that have a value. -/
inductive Valued
  | input
  | config
  | allocation
deriving DecidableEq, Repr

/-- Options that have none. -/
inductive Flag
  | verbose
  | json
  | noBindings
  | hex
  | mergeDuplicates
deriving DecidableEq, Repr

/-- The option with a long name. -/
def CommandName.valued? : CommandName → String → Option Valued
  | .version, _ => none
  | _, name =>
    if name = "input" then some .input
    else if name = "config" then some .config
    else if name = "allocation" then some .allocation
    else none

/-- The flag with a long name. Only reports list bindings. -/
def CommandName.flag? (command : CommandName) (name : String) : Option Flag :=
  if name = "verbose" then some .verbose
  else if command = .version then none
  else if name = "json" then some .json
  else if name = "hex" then some .hex
  else if name = "merge-duplicates" then some .mergeDuplicates
  else if name = "no-bindings" ∧ command = .report then some .noBindings
  else none

/-- The options read so far. -/
structure Partial where
  input : Option String
  config : Option String
  allocations : List UInt64
  flags : List Flag
deriving DecidableEq, Repr

namespace Partial

/-- No options. -/
def empty : Partial := ⟨none, none, [], []⟩

/-- Sets an option that has a value; `none` if it is repeated or the value is not of its kind. -/
def set? (p : Partial) (option : Valued) (value : String) : Option Partial :=
  match option with
  | .input => if p.input.isSome then none else some { p with input := some value }
  | .config => if p.config.isSome then none else some { p with config := some value }
  | .allocation =>
    (unsigned64? value.toList).map fun handle =>
      { p with allocations := p.allocations ++ [handle] }

/-- Sets a flag; `none` if it is repeated. -/
def raise? (p : Partial) (flag : Flag) : Option Partial :=
  if flag ∈ p.flags then none else some { p with flags := flag :: p.flags }

/-- The command that the options make up. -/
def finish? (p : Partial) (name : CommandName) : Option Command :=
  let options (input : String) (hideBindings : Bool) : Options :=
    ⟨input, p.config,
      ⟨p.allocations, hideBindings, decide (Flag.hex ∈ p.flags),
        decide (Flag.mergeDuplicates ∈ p.flags)⟩,
      decide (Flag.json ∈ p.flags)⟩
  match name with
  | .version => some .version
  | .report => p.input.map fun input => .report (options input (decide (Flag.noBindings ∈ p.flags)))
  | .aliases => p.input.map fun input => .aliases (options input true)

end Partial

/-! ## Arguments -/

/-- An argument by its form. -/
inductive Argument
  /-- Two hyphens and a name, with what follows an equals sign. -/
  | long (name : String) (value : Option String)
  /-- A hyphen and a letter, with what follows it. -/
  | short (letter : Char) (rest : List Char)
  /-- Two hyphens: no options follow. -/
  | separator
  | plain (text : String)
deriving DecidableEq, Repr

/-- The form of an argument. -/
def Argument.ofText (text : String) : Argument :=
  match text.toList with
  | ['-', '-'] => .separator
  | '-' :: '-' :: cs =>
    let name := String.ofList (cs.takeWhile (· ≠ '='))
    match cs.dropWhile (· ≠ '=') with
    | '=' :: value => .long name (some (String.ofList value))
    | _ => .long name none
  | '-' :: letter :: rest => .short letter rest
  | _ => .plain text

/-- The value that an argument of its own is, and the arguments behind it. -/
def takeValue? : List String → Option (String × List String)
  | [] => none
  | text :: rest =>
    match Argument.ofText text with
    | .plain text => some (text, rest)
    | _ => none

/-- The value in the argument of a short option: what follows the letter, without an equals sign in
front. -/
def attachedValue? : List Char → Option String
  | [] => none
  | '=' :: value => some (String.ofList value)
  | value => some (String.ofList value)

/-- The request that the arguments behind the name of a command stand for; `fuel` exceeds their
number. -/
def readOptions? (name : CommandName) : (fuel : Nat) → Partial → List String → Option Request
  | 0, _, _ => none
  | _ + 1, p, [] => (p.finish? name).map .run
  | fuel + 1, p, text :: rest =>
    let valued (option : Valued) (value : Option String) : Option Request := do
      match value with
      | some value => readOptions? name fuel (← p.set? option value) rest
      | none =>
        let (value, rest) ← takeValue? rest
        readOptions? name fuel (← p.set? option value) rest
    match Argument.ofText text with
    | .separator => if rest.isEmpty then (p.finish? name).map .run else none
    | .plain _ => none
    | .short letter attached =>
      if letter = 'h' then some .help
      else if letter = 'i' ∧ name ≠ .version then valued .input (attachedValue? attached)
      else none
    | .long long value =>
      if long = "help" ∧ value.isNone then some .help
      else
        match name.valued? long, name.flag? long with
        | some option, _ => valued option value
        | none, some flag =>
          if value.isSome then none else do readOptions? name fuel (← p.raise? flag) rest
        | none, none => none

/-- A question for help with a command: at most one name may follow. -/
def readHelp? : List String → Option Request
  | [] => some .help
  | [name] => if name = "help" ∨ (CommandName.ofText? name).isSome then some .help else none
  | _ => none

/-- The request that arguments stand for; `verbose` if that flag came before. -/
def readRequest? : (verbose : Bool) → List String → Option Request
  | _, [] => none
  | verbose, text :: rest =>
    match Argument.ofText text with
    | .separator => none
    | .short letter _ =>
      if letter = 'h' then some .help else if letter = 'V' then some .programVersion else none
    | .long name value =>
      if value.isSome then none
      else if name = "help" then some .help
      else if name = "version" then some .programVersion
      else if name = "verbose" ∧ ¬ verbose then readRequest? true rest
      else none
    | .plain name =>
      if name = "help" then readHelp? rest
      else
        match CommandName.ofText? name with
        | some command => readOptions? command (rest.length + 1) .empty rest
        | none => none

/-- The request that arguments stand for; `none` if they stand for none. -/
def Request.ofArguments? (arguments : List String) : Option Request :=
  readRequest? false arguments

end AliasReport
