import ScriptRecord.Bytes
import ScriptRecord.Text.Utf8
/-!
# Disks

A tree of folders and files, and the folder that relative paths start from. A path is walked part
by part; every part but the last must be a folder on the way.

* `Disk.find`: the place that a path leads to, whether or not anything is there.
* `Disk.read`, `Disk.write`: the content of a file, before and after.
* `Disk.copy`: one file over another.
-/

namespace ScriptRecord

/-- The names on the way from the root to a file or folder. -/
abbrev Location := List String

/-- The path that leads to a location from anywhere. -/
def Location.toPath (location : Location) : String :=
  "/" ++ String.intercalate "/" location

/-- Why a file or folder cannot be used. -/
inductive DiskFault where
  | notFound
  | notFolder
  | isFolder
  /-- A file is where a folder is to be made. -/
  | inTheWay
  /-- What is to be copied is no file. -/
  | notFile
  /-- A text is not UTF-8. -/
  | notText
  /-- A name, or a whole path, has more bytes than there is room for. -/
  | nameTooLong
  /-- A path holds the character that ends paths. -/
  | zeroInPath
  deriving DecidableEq, Repr

def DiskFault.message : DiskFault → String
  | .notFound => "No such file or directory (os error 2)"
  | .notFolder => "Not a directory (os error 20)"
  | .isFolder => "Is a directory (os error 21)"
  | .inTheWay => "File exists (os error 17)"
  | .notFile => "the source path is neither a regular file nor a symlink to a regular file"
  | .notText => "stream did not contain valid UTF-8"
  | .nameTooLong => "File name too long (os error 36)"
  | .zeroInPath => "file name contained an unexpected NUL byte"

structure Disk where
  /-- The folders, apart from the root. -/
  folders : List Location
  /-- The files. Of two entries for a location the first counts. -/
  files : List (Location × Bytes)
  /-- Where relative paths start. -/
  here : Location
  deriving DecidableEq

namespace Disk

/-- The content of the file at a location, if there is one. -/
def file? (disk : Disk) (location : Location) : Option Bytes :=
  disk.files.lookup location

def isFolder (disk : Disk) (location : Location) : Bool :=
  location.isEmpty || disk.folders.contains location

/-- Whether there is a file or a folder at a location. -/
def isTaken (disk : Disk) (location : Location) : Bool :=
  (disk.file? location).isSome || disk.isFolder location

/-- The location that a part of a path leads to. -/
def step (location : Location) (part : String) : Location :=
  if part = "" ∨ part = "." then location
  else if part = ".." then location.dropLast
  else location ++ [part]

/-- The most bytes that the name of a file or folder may have. -/
def nameLimit : Nat := 255

/-- The most bytes that a path may have. -/
def pathLimit : Nat := 4095

/-- Go on from a location by the parts of a path. Where a part follows, there must be a folder. -/
def walk (disk : Disk) (location : Location) : List String → Except DiskFault Location
  | [] => .ok location
  | part :: rest =>
    if (disk.file? location).isSome then .error .notFolder
    else if !disk.isFolder location then .error .notFound
    else if nameLimit < part.utf8ByteSize then .error .nameTooLong
    else disk.walk (step location part) rest

/-- The parts of a path between its slashes. -/
def parts (path : String) : List String :=
  (path.toList.splitOn '/').map String.ofList

/-- Where a path starts: one that begins with a slash at the root. -/
def start (disk : Disk) (path : String) : Location :=
  if (parts path).head? = some "" then [] else disk.here

/-- What is wrong with the text of a path, whatever its length. -/
def checkText (path : String) : Except DiskFault Unit :=
  if path.toList.contains '\x00' then .error .zeroInPath
  else if path.isEmpty then .error .notFound
  else .ok ()

/-- What is wrong with a path, whatever is on the disk. -/
def checkPath (path : String) : Except DiskFault Unit := do
  checkText path
  if pathLimit < path.utf8ByteSize then throw .nameTooLong

/-- The location that a path of any length leads to. With a slash at its end it leads to folders
only. -/
def locate (disk : Disk) (path : String) : Except DiskFault Location := do
  checkText path
  disk.walk (disk.start path) (parts path)

/-- The location that a path leads to. -/
def find (disk : Disk) (path : String) : Except DiskFault Location := do
  checkPath path
  disk.locate path

/-- The parts of a path without empty ones at the end. -/
def closedParts (path : String) : List String :=
  ((parts path).reverse.dropWhile String.isEmpty).reverse

/-- The location that a file is written to by a path. With a slash at its end it can only be meant
for a folder, whatever its last name is. -/
def findTarget (disk : Disk) (path : String) : Except DiskFault Location := do
  checkPath path
  let names := closedParts path
  if (parts path).getLast? = some "" then
    let _ ← disk.walk (disk.start path) (names.dropLast ++ [""])
    throw .isFolder
  let location ← disk.walk (disk.start path) names
  if disk.isFolder location then throw .isFolder
  return location

/-- Whether a path leads to something. -/
def has (disk : Disk) (path : String) : Bool :=
  match disk.find path with
  | .ok location => disk.isTaken location
  | .error _ => false

/-- The content of the file at a location. -/
def readAt (disk : Disk) (location : Location) : Except DiskFault Bytes :=
  match disk.file? location with
  | some bytes => .ok bytes
  | none => if disk.isFolder location then .error .isFolder else .error .notFound

/-- The content of the file that a path leads to. -/
def read (disk : Disk) (path : String) : Except DiskFault Bytes := do
  disk.readAt (← disk.find path)

/-- The text of the file at a location. -/
def readTextAt (disk : Disk) (location : Location) : Except DiskFault String := do
  match Utf8.decode? (← disk.readAt location) with
  | some text => return text
  | none => throw .notText

/-- The text of the file that a path leads to. -/
def readText (disk : Disk) (path : String) : Except DiskFault String := do
  disk.readTextAt (← disk.find path)

/-- Put a file at a location, over the one that may be there. -/
def put (disk : Disk) (location : Location) (bytes : Bytes) : Disk :=
  { disk with files := (location, bytes) :: disk.files.filter fun entry => entry.1 != location }

@[simp] theorem file?_put (disk : Disk) (location : Location) (bytes : Bytes) :
    (disk.put location bytes).file? location = some bytes := by
  simp [put, file?]

theorem file?_put_of_ne (disk : Disk) {location other : Location} (bytes : Bytes)
    (h : other ≠ location) : (disk.put location bytes).file? other = disk.file? other := by
  have hne : (other == location) = false := by simpa using h
  simp only [put, file?, List.lookup_cons, hne]
  induction disk.files with
  | nil => rfl
  | cons entry rest ih =>
    obtain ⟨place, content⟩ := entry
    by_cases hplace : place = location
    · subst hplace
      simpa [List.lookup_cons, hne] using ih
    · cases hother : other == place <;> simp [hplace, List.lookup_cons, hother, ih]

@[simp] theorem isFolder_put (disk : Disk) (location other : Location) (bytes : Bytes) :
    (disk.put location bytes).isFolder other = disk.isFolder other := rfl

/-- Write the file at a location. -/
def writeAt (disk : Disk) (location : Location) (bytes : Bytes) : Except DiskFault Disk :=
  if disk.isFolder location then .error .isFolder else .ok (disk.put location bytes)

/-- Write the file that a path leads to. -/
def write (disk : Disk) (path : String) (bytes : Bytes) : Except DiskFault Disk := do
  return disk.put (← disk.findTarget path) bytes

/-- Copy the file that one path leads to over the one that another leads to. -/
def copy (disk : Disk) (source target : String) : Except DiskFault Disk := do
  let location ← disk.find source
  if disk.isFolder location then throw .notFile
  disk.write target (← disk.readAt location)

/-- The path of a file or folder from the root, without detours. Parts are taken one by one, so
that only what is left of the path has to be short. -/
def canonical (disk : Disk) (path : String) : Except DiskFault String := do
  let location ← disk.locate path
  if disk.isTaken location then return location.toPath else throw .notFound

/-- Make a folder and those above it. -/
def makeFolder (disk : Disk) (location : Location) : Except DiskFault Disk :=
  let chain := (List.range (location.length + 1)).map location.take
  if (disk.file? location).isSome then .error .inTheWay
  else if chain.any fun above => (disk.file? above).isSome then .error .notFolder
  else .ok { disk with
    folders := disk.folders ++ chain.filter fun above => !disk.isFolder above }

end Disk

end ScriptRecord
