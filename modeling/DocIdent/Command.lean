import DocIdent.Identifier.Ancestry
import DocIdent.Inputs
import DocIdent.Json.Writer
import DocIdent.Lock.File
import DocIdent.Lock.Freshness

/-!
# Commands

The four commands (`Command`): writing out the keys of identifiers, writing out their enclosing
elements, making the lock, and checking it. A command is an action on the tree it runs in
(`Action`): step by step it reads the tree or changes it, and the first step that fails ends it.
What was changed up to there stays; there is a tree in any case (`Command.run`).
-/

namespace DocIdent

/-- A command. -/
inductive Command where
  /-- Write the key of each identifier of an input, as plain lines or as JSON. -/
  | encode (input : String) (json : Bool)
  /-- Write each identifier of an input with its enclosing elements. -/
  | parents (input : String)
  /-- Make the lock of the identifiers of an input. -/
  | init (input : String)
  /-- Check the lock. -/
  | check
  deriving DecidableEq

/-- What a command that did not fail leaves. -/
structure Outcome where
  /-- What it wrote. -/
  output : String
  /-- Its exit code. -/
  exitCode : Nat

/-- What is done step by step to a tree. It may fail, and leaves a tree also then. -/
abbrev Action := ExceptT Failure (StateM FileTree)

namespace Action

variable {α : Type}

/-- What is read off the tree. -/
def reading (f : FileTree → Except Failure α) : Action α := do
  ofExcept (f (← get))

/-- The tree is changed, if it can be. -/
def changing (f : FileTree → Except Failure FileTree) : Action Unit := do
  set (← ofExcept (f (← get)))

/-- The answer of an action in a tree, and the tree it leaves. -/
def runIn (x : Action α) (t : FileTree) : Except Failure α × FileTree :=
  (x.run.run t).run

end Action

namespace Command

/-- Lines, each with its end. -/
def lines (ls : List String) : String :=
  String.join (ls.map (· ++ "\n"))

/-- The settings of a tree and the identifiers of an input. -/
def loadInputs (t : FileTree) (input : String) : Except Failure (Settings × List Identifier) := do
  let settings ← Settings.load t
  return (settings, ← Inputs.load t settings input)

/-- A list of identifiers with their keys as a document. -/
def keyedDocument (ds : List Identifier) : Document :=
  .list (ds.map fun d => .record [("key", .text d.key), ("dri", d.toDocument)])

/-- The output of writing keys. -/
def encodeOutput (ds : List Identifier) (json : Bool) : String :=
  if json then Json.pretty (keyedDocument ds) ++ "\n" else lines (ds.map Identifier.key)

/-- The lines of an identifier with its enclosing elements. -/
def parentLines (d : Identifier) : List String :=
  d.key :: d.ancestors.map fun a => "  <- " ++ a.key

/-- A count in decimal. -/
def count (n : Nat) : String :=
  String.ofList (Text.decimal n)

/-- The line on an entry that is not fresh. -/
def staleLine? (e : LockEntry) : Option String :=
  match e.freshness with
  | .fresh => none
  | .stale current => some ("STALE   " ++ e.key ++ " -> " ++ current)

/-- Up to where stale entries are counted. -/
def staleLimit : Nat := 4294967295

/-- The outcome of checking a lock: collisions weigh more than stale entries. -/
def checkOutcome (lock : Lock) : Outcome :=
  let stale := lock.entries.filterMap staleLine?
  let staleCount := min stale.length staleLimit
  let collisions := lock.collisions
  let report := stale ++ collisions.map fun c => "COLLIDE " ++ c.message
  if !collisions.isEmpty then
    let sum := count collisions.length ++ " collisions, " ++ count staleCount ++ " stale"
    ⟨lines (report ++ [sum]), 2⟩
  else if 0 < staleCount then ⟨lines (report ++ [count staleCount ++ " stale"]), 1⟩
  else ⟨lines (report ++ ["All " ++ count lock.entries.length ++ " identifiers fresh"]), 0⟩

/-- The lock of an input, and where it is kept. -/
def prepareLock (t : FileTree) (input : String) : Except Failure (String × Lock) := do
  let (settings, ds) ← loadInputs t input
  let index ← (Index.ofList ds).mapError .collision
  return (settings.lockPath, Lock.ofIndex index)

/-- Making the lock of an input: it is prepared, and then written. -/
def makeLock (input : String) : Action Outcome := do
  let (path, lock) ← Action.reading (prepareLock · input)
  Action.changing (lock.save · path)
  return ⟨"Wrote " ++ count lock.entries.length ++ " identifiers to " ++ path ++ "\n", 0⟩

/-- What a command does. -/
def action : Command → Action Outcome
  | .encode input json => do
    let (_, ds) ← Action.reading (loadInputs · input)
    return ⟨encodeOutput ds json, 0⟩
  | .parents input => do
    let (_, ds) ← Action.reading (loadInputs · input)
    return ⟨lines (ds.flatMap parentLines), 0⟩
  | .init input => makeLock input
  | .check => do
    let settings ← Action.reading Settings.load
    let lock ← Action.reading (Lock.load · settings.lockPath)
    return checkOutcome lock

/-- The outcome of a command in a tree, and the tree it leaves. -/
def run (t : FileTree) (c : Command) : Except Failure Outcome × FileTree :=
  c.action.runIn t

end Command

end DocIdent
