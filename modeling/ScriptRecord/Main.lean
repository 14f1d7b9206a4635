import ScriptRecord.CommandLine.Run
/-!
# The program

Runs a request on the disk of the machine. The files that the request may touch are read first, and
those that differ afterwards are written.
-/

open ScriptRecord
open ScriptRecord.CommandLine (Request Session)

namespace ScriptRecord.Program

/-- What is said about words that are no request. -/
def usage : String :=
  "Usage: qbs [-v] COMMAND [OPTIONS] [ARGS]\n\n" ++
    "Commands: info, decompile, strings, set-string, export, import, dump, configure, help\n"

/-- The code of the fault of reading a folder like a file. -/
def folderCode : UInt32 := 21

/-- Take what is at a location into a disk. -/
def load (disk : Disk) (location : Location) : IO Disk := do
  if disk.isTaken location then return disk
  match ← (IO.FS.readBinFile location.toPath).toBaseIO with
  | .ok content => return disk.put location content.data
  | .error (.inappropriateType _ code _) =>
    if code = folderCode then return { disk with folders := location :: disk.folders }
    else return disk
  | .error _ => return disk

/-- Take what is on the way of a path into a disk. -/
def loadPath (disk : Disk) (path : String) : IO Disk := do
  let mut disk := disk
  let mut location := disk.start path
  for part in Disk.parts path do
    location := Disk.step location part
    disk ← load disk location
  return disk

/-- The folder that the user keeps settings in. -/
def settingsHome : IO Location := do
  let names (path : String) : Location := (Disk.parts path).foldl Disk.step []
  match ← IO.getEnv "XDG_CONFIG_HOME" with
  | some path => if path.startsWith "/" then return names path
  | none => pure ()
  return names ((← IO.getEnv "HOME").getD "/") ++ [".config"]

/-- Write what is on one disk and not on another. -/
def store (before after : Disk) : IO Unit := do
  for folder in after.folders do
    unless before.isFolder folder do
      IO.FS.createDirAll folder.toPath
  for (location, bytes) in after.files do
    unless before.file? location = some bytes do
      IO.FS.writeBinFile location.toPath ⟨bytes⟩

/-- Do what is asked for. The answer is the code of the program's end. -/
def serve (request : Request) : IO UInt32 := do
  let home ← settingsHome
  let mut disk : Disk := ⟨[], [], Disk.parts (toString (← IO.currentDir)) |>.foldl Disk.step []⟩
  for path in disk.here.toPath :: (CommandLine.settingsFile home).toPath :: request.paths do
    disk ← loadPath disk path
  match CommandLine.loadSettings home ⟨disk, ""⟩ with
  | .ok settings _ =>
    for path in settings.names do
      disk ← loadPath disk path
  | .error _ _ => pure ()
  let (session, failure) := match request.perform home ⟨disk, ""⟩ with
    | .ok () session => (session, [])
    | .error failure session => (session, failure)
  store disk session.disk
  IO.print session.printed
  (← IO.getStdout).flush
  IO.eprint (CommandLine.Failure.render failure)
  return if failure.isEmpty then 0 else 1

end ScriptRecord.Program

def main (words : List String) : IO UInt32 := do
  match Request.read words with
  | .ok request => Program.serve request
  | .error .help =>
    IO.print Program.usage
    return 0
  | .error .refused =>
    IO.eprint Program.usage
    return 2
