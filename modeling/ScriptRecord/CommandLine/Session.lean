import ScriptRecord.Disk
import ScriptRecord.Settings
/-!
# Sessions

A run of the program works on a disk, prints, and may fail on the way. What it has printed and
changed by then stays.
-/

namespace ScriptRecord.CommandLine

/-- What a run has changed so far. -/
structure Session where
  disk : Disk
  printed : String

/-- The message of a failure and those of its causes, outermost first. -/
abbrev Failure := List String

/-- A failure for a reader. Where there are several causes, they are numbered. -/
def Failure.render : Failure → String
  | [] => ""
  | [message] => "Error: " ++ message ++ "\n"
  | [message, cause] => "Error: " ++ message ++ "\n\nCaused by:\n    " ++ cause ++ "\n"
  | message :: causes =>
    "Error: " ++ message ++ "\n\nCaused by:\n" ++
      String.join (causes.mapIdx fun i cause => "    " ++ toString i ++ ": " ++ cause ++ "\n")

/-- A step of a run. -/
abbrev Action := EStateM Failure Session

def print (text : String) : Action Unit :=
  modify fun session => { session with printed := session.printed ++ text }

def printLine (text : String) : Action Unit :=
  print (text ++ "\n")

/-- Read from the disk. A fault is reported in a context. -/
def look {α : Type} (context : String) (f : Disk → Except DiskFault α) : Action α := fun session =>
  match f session.disk with
  | .ok a => .ok a session
  | .error fault => .error [context, fault.message] session

/-- Change the disk. A fault is reported in a context, and then nothing changes. -/
def change (context : String) (f : Disk → Except DiskFault Disk) : Action Unit := fun session =>
  match f session.disk with
  | .ok disk => .ok () { session with disk }
  | .error fault => .error [context, fault.message] session

/-- Go on with a result. What is wrong about it is reported in a context. -/
def accept {ε α : Type} (context : String) (chain : ε → List String) : Except ε α → Action α
  | .ok a => pure a
  | .error e => throw (context :: chain e)

/-- Where settings are kept, in the folder that the user keeps settings in. -/
def settingsFolder (home : Location) : Location :=
  home ++ ["qb-script"]

/-- The file that settings are kept in. -/
def settingsFile (home : Location) : Location :=
  settingsFolder home ++ ["config.toml"]

/-- Read the settings. Without a file nothing is set. -/
def loadSettings (home : Location) : Action Settings := do
  let location := settingsFile home
  let text? ← look ("Failed to read config from " ++ location.toPath) fun disk =>
    if disk.isTaken location then some <$> disk.readTextAt location else .ok none
  match text? with
  | none => return .empty
  | some text =>
    match Settings.parse? text with
    | some settings => return settings
    | none => throw ["Failed to parse config file"]

/-- Keep settings. -/
def saveSettings (home : Location) (settings : Settings) : Action Unit := do
  let folder := settingsFolder home
  let location := settingsFile home
  change ("Failed to create config directory at " ++ folder.toPath) fun disk =>
    disk.makeFolder folder
  change ("Failed to write config to " ++ location.toPath) fun disk =>
    disk.writeAt location (Utf8.encode settings.render.toList).toArray

end ScriptRecord.CommandLine
