/-!
# Help

What the program says about itself and about each of its commands (`Help.text`): what it is for, how
it is called, and a list of rows under each further heading, their descriptions in one column.
-/

namespace DocIdent.Help

/-- What help can be had about. -/
inductive Topic where
  /-- The program. -/
  | program
  /-- The command that writes keys. -/
  | encode
  /-- The command that writes enclosing elements. -/
  | parents
  /-- The command that makes the lock. -/
  | init
  /-- The command that checks the lock. -/
  | check
  /-- The command that gives help. -/
  | help
  deriving DecidableEq

/-- The commands with their topics, in the order of the program's help. -/
def commands : List (String × Topic) :=
  [("encode", .encode), ("parents", .parents), ("init", .init), ("check", .check), ("help", .help)]

/-- What a topic is about. -/
def about : Topic → String
  | .program => "Stable identifiers for documentable program elements"
  | .encode => "Print the canonical form of each identifier"
  | .parents => "Print each identifier's breadcrumb chain up to the root"
  | .init => "Index identifiers and write .dri.lock"
  | .check => "Verify every locked identifier still encodes to its recorded key"
  | .help => "Print this message or the help of the given subcommand(s)"

/-- How the program is called. -/
def usage : Topic → String
  | .program => "dri <COMMAND>"
  | .encode => "dri encode [OPTIONS] <INPUT>"
  | .parents => "dri parents <INPUT>"
  | .init => "dri init <INPUT>"
  | .check => "dri check"
  | .help => "dri help [COMMAND]..."

/-- Rows under a heading, each a term with its description. -/
structure Rows where
  /-- The heading. -/
  heading : String
  /-- The rows. -/
  rows : List (String × String)

/-- The input that most commands take. -/
def inputRows : Rows :=
  ⟨"Arguments", [("<INPUT>", "Identifier file (.toml or .json) or directory of them")]⟩

/-- The option that gives help. -/
def helpRow : String × String := ("-h, --help", "Print help")

/-- The lists of a topic. -/
def lists : Topic → List Rows
  | .program =>
    [⟨"Commands", commands.map fun c => (c.1, about c.2)⟩, ⟨"Options", [helpRow]⟩]
  | .encode =>
    [inputRows, ⟨"Options", [("    --json", "Emit a JSON array of \x7bkey, dri\x7d"), helpRow]⟩]
  | .parents | .init => [inputRows, ⟨"Options", [helpRow]⟩]
  | .check => [⟨"Options", [helpRow]⟩]
  | .help => [⟨"Arguments", [("[COMMAND]...", "Print help for the subcommand(s)")]⟩]

/-- A term filled up with blanks to a width. -/
def pad (width : Nat) (term : String) : String :=
  term ++ String.ofList (List.replicate (width - term.length) ' ')

/-- A list under its heading. -/
def rowsText (r : Rows) : String :=
  let width := (r.rows.map (·.1.length)).foldl max 0
  "\n" ++ r.heading ++ ":\n" ++
    String.join (r.rows.map fun row => "  " ++ pad width row.1 ++ "  " ++ row.2 ++ "\n")

/-- The help about a topic. -/
def text (t : Topic) : String :=
  about t ++ "\n\nUsage: " ++ usage t ++ "\n" ++ String.join ((lists t).map rowsText)

end DocIdent.Help
