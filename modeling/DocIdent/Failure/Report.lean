import DocIdent.Failure

/-!
# Reports

The report of a failure is a short document: a heading, what happened, and where there is a remedy,
the remedy (`Failure.report`). On a terminal its headings are bold (`Failure.terminalReport`).
-/

namespace DocIdent

/-- A document of a heading and a paragraph. -/
def Failure.document (heading paragraph : String) : String :=
  "# Error: " ++ heading ++ "\n\n" ++ paragraph ++ "\n"

/-- The part of a document that has the remedy. -/
def Failure.remedy (lines : String) : String :=
  "\n## Fix\n\n" ++ lines

/-- The report of a failure. -/
def Failure.report : Failure → String
  | .collision c =>
    document "Encoding Collision"
      ("Two distinct identifiers encode to `" ++ c.key ++ "`:\n\n- `" ++ c.first.description ++
        "`\n- `" ++ c.second.description ++ "`") ++
      remedy ("Canonical slots are separated by `/`. Check that no package, class, or\n" ++
        "callable name contains `/`.\n")
  | .fileNotFound path => document "File Not Found" ("`" ++ path ++ "` does not exist.")
  | .io account => document "I/O" account
  | .json account => document "Invalid JSON" account
  | .lockCorrupt corruption =>
    document "Lockfile Corrupt" corruption.message ++
      remedy "Regenerate the lockfile:\n\n    dri init <inputs>\n"
  | .lockNotFound _ =>
    document "Lockfile Not Found" "`.dri.lock` does not exist." ++
      remedy ("Run `dri init` on your identifier files to generate the lockfile:\n\n" ++
        "    dri init <inputs>\n")
  | .malformed malformation => document "Malformed DRI" malformation.message
  | .tomlRead account => document "Invalid TOML" account
  | .tomlWrite account => document "TOML Serialization" account
  | .unsupportedInput path =>
    document "Unsupported Input" ("`" ++ path ++ "` is not a `.toml` or `.json` identifier file.")

/-- A line of a report on a terminal: a heading is bold. -/
def Failure.terminalLine (line : List Char) : List Char :=
  match line with
  | '#' :: _ => "\x1b[1m".toList ++ line ++ "\x1b[0m\n".toList
  | _ => line ++ ['\n']

/-- The report of a failure as a terminal shows it. -/
def Failure.terminalReport (f : Failure) : String :=
  String.ofList ((Text.lines f.report.toList).flatMap terminalLine)

end DocIdent
