import ScriptRecord.CommandLine.Command
import ScriptRecord.CommandLine.Session
import ScriptRecord.HexDump
import ScriptRecord.RecordFile
import ScriptRecord.Script.Summary
import ScriptRecord.Slot.Table
/-!
# Runs

What each request does. Files are written last, after everything that can be refused has been
looked at.

* `Request.run`: one request, with the settings that hold.
* `run`: the words of a request, from reading the settings to the disk that is left.
-/

namespace ScriptRecord.CommandLine

/-- Read the record that a request is about. -/
def openRecord (settings : Settings) (source : Source) : Action RecordFile := do
  let bytes ← look ("Failed to read " ++ source.path) fun disk => disk.read source.path
  let offset := "0x" ++ Hex.upper 1 source.offset
  if bytes.size < source.offset then
    throw ["Offset " ++ offset ++ " is past the end of " ++ source.path ++ " (" ++
      toString bytes.size ++ " bytes)"]
  else
    accept ("Failed to read script record at " ++ offset ++ " in " ++ source.path) Error.chain
      (RecordFile.locate (settings.container source.platform source.order) bytes source.offset)

/-- Read a list of names, if there is one. -/
def loadNames : Option String → Action NameTable
  | none => return .empty
  | some path => do
    let text ← look ("Failed to read name list " ++ path) fun disk => disk.readText path
    return NameTable.parse text

/-- Keep the file that is about to be written over, if that is wanted. -/
def keepBackup (path : String) (wanted : Bool) : Action Unit := do
  let session ← get
  if wanted ∧ session.disk.has path then do
    let kept := backupPath path
    change ("Failed to create backup " ++ kept) fun disk => disk.copy path kept
    printLine ("Backup: " ++ kept)
  else return ()

/-- Write a file. -/
def writeFile (path : String) (bytes : Bytes) : Action Unit :=
  change ("Failed to write " ++ path) fun disk => disk.write path bytes

/-- Write an edited file. The answer is the path that it has been written to. -/
def save (source : Source) (file : RecordFile) (target : Target) : Action String := do
  let bytes ← accept "Failed to encode script record" Error.chain file.toBytes
  let path := target.output.getD source.path
  keepBackup path target.backup
  writeFile path bytes
  return path

/-- Give a slot another text. -/
def setText (settings : Settings) (source : Source) (index : Nat) (text : String)
    (target : Target) : Action Unit := do
  let file ← openRecord settings source
  let slots := file.script.slots
  match slots[index]? with
  | none =>
    throw ["String index " ++ toString index ++ " out of range (" ++ toString slots.length ++
      " strings)"]
  | some slot => do
    if slot.length < text.length then
      printLine ("Warning: text truncated to " ++ toString slot.length ++
        " characters to fit the slot")
    else pure ()
    let edited ← accept ("Failed to update string " ++ toString index) Slot.Failure.chain
      (file.setText index text)
    let path ← save source edited target
    printLine ("String " ++ toString index ++ " set to " ++
      Text.quoted { slot with text }.fittedText)
    printLine ("Saved: " ++ path)

/-- Take the payload from a file. -/
def importPayload (settings : Settings) (source : Source) (payload : String) (target : Target) :
    Action Unit := do
  let file ← openRecord settings source
  let bytes ← look ("Failed to read " ++ payload) fun disk => disk.read payload
  let path ← save source (file.setPayload bytes) target
  printLine ("Imported " ++ toString bytes.size ++ " bytes from " ++ payload)
  printLine ("Saved: " ++ path)

/-- Write the payload into a file. -/
def exportPayload (settings : Settings) (source : Source) (output : String) : Action Unit := do
  let file ← openRecord settings source
  writeFile output file.script.payload
  printLine ("Exported " ++ toString file.script.payload.size ++ " bytes to " ++ output)

/-- List the bytecode of a script, on the screen or in a file. -/
def decompile (settings : Settings) (source : Source) (names output : Option String) :
    Action Unit := do
  let file ← openRecord settings source
  let global ← loadNames settings.names
  let overrides ← loadNames names
  let text ← accept "Failed to decompile script" Error.chain
    (file.script.decompile ⟨overrides, global⟩)
  match output with
  | none => printLine text
  | some path => do
    writeFile path (Utf8.encode (text ++ "\n").toList).toArray
    printLine ("Wrote " ++ path)

/-- The settings for a reader. -/
def showSettings (home : Location) (settings : Settings) : Action Unit := do
  printLine ("Platform: " ++ (settings.platform.map Platform.name).getD "pc (default)")
  printLine ("Byte order: " ++ (settings.order.map ByteOrder.title).getD "platform default")
  printLine ("String charset: " ++ settings.charset.getD "default")
  printLine (match settings.names with
    | some path => "Name list: " ++ path
    | none => "No name list configured")
  printLine ("Config file: " ++ (settingsFile home).toPath)

/-- How settings are changed. -/
def settingsUsage : String :=
  "Usage: qbs configure --platform PLATFORM [--endian big|little]\n" ++
    "   or: qbs configure --names NAMES_FILE\n" ++
    "   or: qbs configure --show\n\n" ++
    "Platforms: wii, pc, xbox, xbox_xbx, ps2, pc_wpc\n"

/-- Set the platform, if one is given. -/
def setPlatform (settings : Settings) : Option Platform → Action Settings
  | none => return settings
  | some platform => do
    printLine ("Platform: " ++ platform.name)
    return { settings with platform }

/-- Set the byte order, if one is given. -/
def setOrder (settings : Settings) : Option ByteOrder → Action Settings
  | none => return settings
  | some order => do
    printLine ("Byte order: " ++ order.title)
    return { settings with order }

/-- Set the characters, if they are given. Empty text goes back to the standard ones. -/
def setCharset (settings : Settings) : Option String → Action Settings
  | none => return settings
  | some chars =>
    if chars.isEmpty then do
      printLine "String charset: default"
      return { settings with charset := none }
    else do
      printLine ("String charset: " ++ toString chars.length ++ " characters")
      return { settings with charset := chars }

/-- Set the name list, if one is given. It must be there, and its path is kept from the root. -/
def setNames (settings : Settings) : Option String → Action Settings
  | none => return settings
  | some path => do
    let path ← look ("Name list " ++ path ++ " not found") fun disk => disk.canonical path
    printLine ("Name list: " ++ path)
    return { settings with names := path }

/-- Change settings and keep them. -/
def changeSettings (home : Location) (settings changes : Settings) : Action Unit :=
  if changes.isEmpty then print settingsUsage
  else do
    let settings ← setPlatform settings changes.platform
    let settings ← setOrder settings changes.order
    let settings ← setCharset settings changes.charset
    let settings ← setNames settings changes.names
    saveSettings home settings
    printLine ("Config saved to: " ++ (settingsFile home).toPath)

/-- Do what is asked for. -/
def Request.run (home : Location) (settings : Settings) : Request → Action Unit
  | .info source => do
    let file ← openRecord settings source
    print file.script.summary
    printLine ("File:           " ++ source.path ++ " @ 0x" ++ Hex.upper 1 source.offset)
  | .decompile source names output => CommandLine.decompile settings source names output
  | .listSlots source format => do
    let file ← openRecord settings source
    match format with
    | .table => print (Slot.table file.script.slots)
    | .json => printLine (Slot.jsonOfList file.script.slots)
  | .setText source index text target => CommandLine.setText settings source index text target
  | .exportPayload source output => CommandLine.exportPayload settings source output
  | .importPayload source payload target =>
    CommandLine.importPayload settings source payload target
  | .dump source => do
    let file ← openRecord settings source
    print (HexDump.render file.script.payload)
  | .showSettings => CommandLine.showSettings home settings
  | .changeSettings changes => CommandLine.changeSettings home settings changes

/-- Do what is asked for with the settings that are kept. -/
def Request.perform (home : Location) (request : Request) : Action Unit := do
  let settings ← loadSettings home
  request.run home settings

/-- What is left of a run. -/
structure Report where
  printed : String
  /-- Why the run failed, if it did. -/
  failure : Option Failure
  disk : Disk

/-- Run the program on a disk. -/
def run (home : Location) (disk : Disk) (words : List String) : Except Stop Report := do
  let request ← Request.read words
  match request.perform home ⟨disk, ""⟩ with
  | .ok () session => return ⟨session.printed, none, session.disk⟩
  | .error failure session => return ⟨session.printed, some failure, session.disk⟩

end ScriptRecord.CommandLine
