import LayerBlend.CommandLine.Run
import LayerBlend.Pixels.PortableMap
import Std.Time.DateTime.Timestamp

/-!
# The program

The files that the arguments name are read into a workspace, the command is run there, and the files
that it changed are written back. Pictures are portable maps. The log goes to the standard error.
-/

namespace LayerBlend.CommandLine

/-- How the program is used. -/
def usage : String := String.intercalate "\n" [
  "usage: layerblend [-h] [-v] [--version] COMMAND ...",
  "",
  "  apply BASE BLEND OUTPUT (-e FORMULA | -p PRESET) [--presets FILE]",
  "      [--base-offset X,Y] [--blend-offset X,Y] [--canvas W,H]",
  "  check FORMULA",
  "  expand FORMULA",
  "  presets FILE (list | add NAME FORMULA | delete ID | export | import FILE)",
  ""]

/-- What the bytes of a file are. -/
def contentOfBytes (data : ByteArray) : FileContent :=
  match PortableMap.read? data.data with
  | some picture => .picture picture
  | none => .ofBytes data.data

/-- The bytes of a file. -/
def bytesOfContent : FileContent → ByteArray
  | .text text => text.toUTF8
  | .raw data => ⟨data⟩
  | .picture picture => ⟨PortableMap.write picture⟩

/-- The name of a path for the system. -/
def systemName (path : Path) : String :=
  if path.isEmpty then "." else Path.toText path

/-- There is a directory at a path. -/
def isSystemDirectory (path : Path) : IO Bool := do
  try (← IO.FS.realPath (systemName path)).isDir
  catch _ => return false

/-- Adds what is at a path to the files. -/
def addPath (files : Files) (path : Path) : IO Files := do
  if ← isSystemDirectory path then
    return files.addDirectory path
  try
    return files.set path (contentOfBytes (← IO.FS.readBinFile (systemName path)))
  catch _ => return files

/-- The files at the given paths. -/
def readFiles (paths : List Path) : IO Files :=
  paths.foldlM addPath Files.empty

/-- Writes the files that are not as they were. -/
def writeFiles (before after : Files) : IO Unit :=
  after.entries.forM fun (path, content) =>
    if before.get? path = some content then pure ()
    else IO.FS.writeBinFile (systemName path) (bytesOfContent content)

/-- The paths that a command may look at. -/
def pathsOf (command : Command) : List Path :=
  command.files.flatMap fun file =>
    Path.along file ++ Path.along (Path.join file PresetStore.fileName)

/-- The largest random part of an identifier. -/
def maxSuffix : Nat := 0xffffffff

/-- The workspace of a command. -/
def openWorkspace (command : Command) : IO Workspace := do
  let files ← readFiles (pathsOf command)
  let directory ← IO.FS.realPath "."
  let time ← Std.Time.Timestamp.now
  let seed ← IO.rand 0 maxSuffix
  return {
    files
    directory := directory.toString
    clock := fun _ => time.toMillisecondsSinceUnixEpoch.val
    readings := 0
    suffix := fun n =>
      String.ofList (Text.Radix.writePadded 16 8 (randNat (mkStdGen (seed + n)) 0 maxSuffix).1)
    draws := 0
    pending := []
    log := []
    waits := [] }

/-- How the log calls a level. -/
def levelName : LogLevel → String
  | .debug => "DEBUG"
  | .info => "INFO"
  | .warning => "WARNING"
  | .error => "ERROR"

/-- Writes back what a command left behind. -/
def closeWorkspace (invocation : Invocation) (before after : Workspace) : IO Unit := do
  writeFiles before.files after.files
  (LogEntry.atLeast invocation.threshold after.log).forM fun entry =>
    IO.eprintln (levelName entry.level ++ ": " ++ entry.message)

end LayerBlend.CommandLine

open LayerBlend LayerBlend.CommandLine in
/-- Does what the arguments ask for and ends with the status of the run. -/
def main (arguments : List String) : IO UInt32 := do
  match Invocation.ofArguments arguments with
  | .error halt =>
    match halt with
    | .misuse => IO.eprint usage
    | .help => IO.print usage
    | .version => IO.println CommandLine.version
    return UInt32.ofNat halt.status
  | .ok invocation =>
    let before ← openWorkspace invocation.command
    match invocation.run.run before with
    | .ok outcome after =>
      closeWorkspace invocation before after
      IO.print outcome.output
      return UInt32.ofNat outcome.status
    | .error fault after =>
      closeWorkspace invocation before after
      IO.eprintln fault.message
      return 1
