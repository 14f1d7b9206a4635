import ScriptRecord.Settings
/-!
# Requests

What the program can be asked to do.
-/

namespace ScriptRecord.CommandLine

/-- Where a record is, and what is known about its container. -/
structure Source where
  path : String
  /-- Where the record starts in its file. -/
  offset : Nat
  platform : Option Platform
  order : Option ByteOrder
  deriving DecidableEq

/-- Where an edited file goes. -/
structure Target where
  /-- The path to write to, if it is not the file that was read. -/
  output : Option String
  /-- Whether the file that is written over is kept under another name. -/
  backup : Bool
  deriving DecidableEq

/-- How slots are listed. -/
inductive SlotFormat where
  | table
  | json
  deriving DecidableEq, Repr

inductive Request where
  /-- Show the fields of a record. -/
  | info (source : Source)
  /-- List the bytecode of a script. -/
  | decompile (source : Source) (names output : Option String)
  /-- List the slots of a script. -/
  | listSlots (source : Source) (format : SlotFormat)
  /-- Give a slot another text. -/
  | setText (source : Source) (index : Nat) (text : String) (target : Target)
  /-- Write the payload into a file. -/
  | exportPayload (source : Source) (output : String)
  /-- Take the payload from a file. -/
  | importPayload (source : Source) (payload : String) (target : Target)
  /-- Show the bytes of the payload. -/
  | dump (source : Source)
  /-- Show the settings. -/
  | showSettings
  /-- Change the settings. -/
  | changeSettings (changes : Settings)
  deriving DecidableEq

/-- The path that a file written over is kept under. -/
def backupPath (path : String) : String :=
  path ++ ".bak"

/-- The paths of an edit of a record. -/
def editPaths (source : Source) (target : Target) : List String :=
  let path := target.output.getD source.path
  [source.path, path, backupPath path]

/-- All paths that a request may read or write. -/
def Request.paths : Request → List String
  | .info source | .listSlots source _ | .dump source => [source.path]
  | .decompile source names output => source.path :: (names.toList ++ output.toList)
  | .setText source _ _ target => editPaths source target
  | .exportPayload source output => [source.path, output]
  | .importPayload source payload target => payload :: editPaths source target
  | .showSettings => []
  | .changeSettings changes => changes.names.toList

end ScriptRecord.CommandLine
