import DocIdent.Command
import DocIdent.CommandLine.Help
import DocIdent.Failure.Report

/-!
# The command line

The arguments of a call ask for a command or for help, or they are misused
(`Invocation.ofArguments`). Arguments are taken from left to right, and the first that cannot stand
decides; a request for help comes at once. After two hyphens that stand alone every argument is an
input, whatever it begins with. The result of a call is its exit code and what it writes
(`Invocation.perform`).
-/

namespace DocIdent

/-- What a call asks for. -/
inductive Invocation where
  /-- A command. -/
  | run (c : Command)
  /-- Help. -/
  | help (topic : Help.Topic)
  /-- Nothing: a command is missing. -/
  | nothing
  /-- Something that there is not. -/
  | misuse
  deriving DecidableEq

namespace Invocation

/-- What an argument is. -/
inductive Argument where
  /-- Two hyphens. -/
  | separator
  /-- A request for help. -/
  | help
  /-- The option for JSON. -/
  | json
  /-- Another option. -/
  | unknown
  /-- An input. -/
  | input

/-- What an argument is: an option begins with a hyphen and is longer than that. Of options of one
letter several may stand together, and the first of them counts. -/
def classify (s : String) : Argument :=
  match s.toList with
  | ['-', '-'] => .separator
  | '-' :: '-' :: _ =>
    if s = "--help" then .help else if s = "--json" then .json else .unknown
  | '-' :: 'h' :: _ => .help
  | '-' :: _ :: _ => .unknown
  | _ => .input

/-- What has been read of the arguments of a command. -/
structure Arguments where
  /-- The input. -/
  input : Option String := none
  /-- The option for JSON was given. -/
  json : Bool := false

/-- How a command takes its arguments. -/
structure Shape where
  /-- What help is about. -/
  topic : Help.Topic
  /-- It takes an input. -/
  takesInput : Bool
  /-- It takes the option for JSON. -/
  takesJson : Bool

/-- The arguments with an input, if there is none yet. An input is not empty. -/
def Arguments.withInput? (shape : Shape) (read : Arguments) (s : String) : Option Arguments :=
  if shape.takesInput ∧ s ≠ "" ∧ read.input.isNone then some { read with input := some s }
  else none

/-- Reads the arguments of a command and hands them on, unless they ask for help or are misused. -/
def ofArgumentsOf (shape : Shape) (finish : Arguments → Invocation) (inputsOnly : Bool)
    (read : Arguments) : List String → Invocation
  | [] => finish read
  | s :: rest =>
    match if inputsOnly then .input else classify s with
    | .separator => ofArgumentsOf shape finish true read rest
    | .help => help shape.topic
    | .json =>
      if shape.takesJson && !read.json then
        ofArgumentsOf shape finish inputsOnly { read with json := true } rest
      else misuse
    | .unknown => misuse
    | .input =>
      match read.withInput? shape s with
      | some read => ofArgumentsOf shape finish inputsOnly read rest
      | none => misuse

/-- A command on the input that was read. -/
def onInput (command : String → Command) (read : Arguments) : Invocation :=
  match read.input with
  | some input => run (command input)
  | none => misuse

/-- The help that is asked for by the names of commands. No command has commands of its own. -/
def helpOn : List String → Invocation
  | [] => help .program
  | [name] =>
    match Help.commands.lookup name with
    | some topic => help topic
    | none => misuse
  | _ => misuse

/-- A call of a command by its name. -/
def ofCommand (topic : Help.Topic) (rest : List String) : Invocation :=
  match topic with
  | .program => misuse
  | .encode =>
    let finish (read : Arguments) := onInput (.encode · read.json) read
    ofArgumentsOf ⟨.encode, true, true⟩ finish false {} rest
  | .parents => ofArgumentsOf ⟨.parents, true, false⟩ (onInput .parents) false {} rest
  | .init => ofArgumentsOf ⟨.init, true, false⟩ (onInput .init) false {} rest
  | .check => ofArgumentsOf ⟨.check, false, false⟩ (fun _ => run .check) false {} rest
  | .help => helpOn rest

/-- What the arguments of a call ask for. -/
def ofArguments : List String → Invocation
  | [] => nothing
  | s :: rest =>
    match Help.commands.lookup s with
    | some topic => ofCommand topic rest
    | none =>
      match classify s with
      | .separator => if rest.isEmpty then nothing else misuse
      | .help => help .program
      | _ => misuse

/-- What a call writes, and its exit code. -/
structure Result where
  /-- The exit code. -/
  exitCode : Nat
  /-- What it writes as its output. -/
  output : String
  /-- What it writes about errors. -/
  errors : String

/-- The exit code of a misused call. -/
def misuseCode : Nat := 2

/-- The exit code of a command that failed. -/
def failureCode : Nat := 3

/-- What is said about a misused call. -/
def misuseText : String :=
  "Usage: " ++ Help.usage .program ++ "\n\nFor more information, try '--help'.\n"

/-- The result of a call in a tree, and the tree it leaves. -/
def perform (t : FileTree) : Invocation → Result × FileTree
  | run command =>
    match command.run t with
    | (.ok outcome, t) => (⟨outcome.exitCode, outcome.output, ""⟩, t)
    | (.error f, t) => (⟨failureCode, "", f.terminalReport⟩, t)
  | help topic => (⟨0, Help.text topic, ""⟩, t)
  | nothing => (⟨misuseCode, "", Help.text .program⟩, t)
  | misuse => (⟨misuseCode, "", misuseText⟩, t)

end Invocation

end DocIdent
