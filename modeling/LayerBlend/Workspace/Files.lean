import LayerBlend.Pixels.Encoding
import LayerBlend.Text.Lines
import LayerBlend.Workspace.Path

/-!
# Files

`Files` is a tree of files and directories below one directory. A text is followed part by part
(`Files.follow`), and each part but the last must lead to a directory that is there, also when two
points lead back out of it. The root and the directories above are taken to be there, and a slash at
the end of a name is for a directory only. A file holds text, a picture, or bytes that are neither;
reading a text turns its line ends into newlines.
-/

namespace LayerBlend

/-- What a file holds. -/
inductive FileContent where
  /-- A text. -/
  | text (s : String)
  /-- Bytes that are no text. -/
  | raw (data : Bytes)
  /-- An image. -/
  | picture (p : Picture)
  deriving DecidableEq

namespace FileContent

/-- What bytes are: a text if they can be read as one. -/
def ofBytes (data : Bytes) : FileContent :=
  match String.fromUTF8? ⟨data⟩ with
  | some s => .text s
  | none => .raw data

/-- The content of a file with a picture in a format. A packed picture stands for its bytes. -/
def ofPicture (format : PictureFormat) (p : Picture) : FileContent :=
  match format.encode? p with
  | some bytes => ofBytes bytes.toArray
  | none => .picture p

/-- The text that a content is, its line ends turned into newlines. -/
def text? : FileContent → Option String
  | .text s => some (String.ofList (Text.unifyLineEnds s.toList))
  | .raw data =>
    (String.fromUTF8? ⟨data⟩).map fun s => String.ofList (Text.unifyLineEnds s.toList)
  | .picture _ => none

end FileContent

/-- What a path leads to. -/
inductive Place where
  /-- A directory. -/
  | directory (path : Path)
  /-- A file. -/
  | file (path : Path) (content : FileContent)
  /-- A name in a directory that is not in use. -/
  | unused (path : Path)

/-- Files and directories. -/
structure Files where
  /-- The directories; those above a directory need no entry. -/
  directories : List Path
  /-- The files by path. -/
  entries : List (Path × FileContent)

namespace Files

/-- No file and no directory. -/
def empty : Files := ⟨[], []⟩

/-! ## Paths -/

/-- What the file at a path holds. -/
def get? (files : Files) (path : Path) : Option FileContent :=
  (files.entries.find? (·.1 == path)).map Prod.snd

/-- There is a directory at a path. -/
def hasDirectory (files : Files) (path : Path) : Bool :=
  path.all (fun part => part == ".." || part == "/") || files.directories.any path.isPrefixOf

/-- What is at a path. -/
def placeAt (files : Files) (path : Path) : Place :=
  match files.get? path with
  | some content => .file path content
  | none => if files.hasDirectory path then .directory path else .unused path

/-- What a part leads to from a directory. -/
def enter (files : Files) (path : Path) (part : String) : Except FileFault Place :=
  if Path.isStay part then .ok (.directory path)
  else if part = ".." then .ok (.directory path.parent)
  else if Path.maxPart < part.utf8ByteSize then .error .longName
  else .ok (files.placeAt (path ++ [part]))

/-- What parts lead to from a place, one after the other. -/
def follow (files : Files) : Place → List String → Except FileFault Place
  | place, [] => .ok place
  | .directory path, part :: parts => do files.follow (← files.enter path part) parts
  | .file .., _ :: _ => .error .notDirectory
  | .unused _, _ :: _ => .error .missing

/-- What a text leads to. -/
def find (files : Files) (text : String) : Except FileFault Place := do
  Path.check text
  files.follow (.directory (Path.start text)) (Path.parts text)

/-- What a text leads to when a file is to be written. A slash at its end stands for a directory,
whether there is one or not. -/
def findTarget (files : Files) (text : String) : Except FileFault Place := do
  if text.endsWith "/" then
    Path.check text
    let named := ((Path.parts text).reverse.dropWhile String.isEmpty).reverse
    let _ ← files.follow (.directory (Path.start text)) (named.dropLast ++ [""])
    throw .directory
  else files.find text

/-- A text names a directory. -/
def isDirectory (files : Files) (text : String) : Bool :=
  match files.find text with
  | .ok (.directory _) => true
  | _ => false

/-- A text names a file. -/
def isFile (files : Files) (text : String) : Bool :=
  match files.find text with
  | .ok (.file ..) => true
  | _ => false

/-! ## Changes -/

/-- The files with a directory at a path. -/
def addDirectory (files : Files) (path : Path) : Files :=
  if files.hasDirectory path then files
  else { files with directories := path :: files.directories }

/-- The files with one of them set to a content, in directories that stay. -/
def set (files : Files) (path : Path) (content : FileContent) : Files :=
  let files := files.addDirectory path.dropLast
  if files.entries.any (·.1 == path) then
    { files with
      entries := files.entries.map fun entry => if entry.1 == path then (path, content) else entry }
  else { files with entries := files.entries ++ [(path, content)] }

/-- The files with directories along the parts of a path. -/
def makeAlong (files : Files) : Path → List String → Except FileFault Files
  | _, [] => .ok files
  | path, part :: parts => do
    match ← files.enter path part with
    | .directory next => files.makeAlong next parts
    | .unused next => (files.addDirectory next).makeAlong next parts
    | .file .. => throw (if parts.all Path.isStay then .present else .notDirectory)

/-- The files with the directory that a text names, and all directories that lead to it. -/
def makeDirectory (files : Files) (text : String) : Except FileFault Files :=
  if text.isEmpty then .ok files
  else do
    Path.check text
    files.makeAlong (Path.start text) (Path.parts text)

/-- The files without the one that a text names. Its directory stays. -/
def remove (files : Files) (text : String) : Except FileFault Files := do
  match ← files.find text with
  | .file path _ => return { files with entries := files.entries.filter (·.1 != path) }
  | .directory _ => throw .directory
  | .unused _ => throw .missing

/-! ## Contents -/

/-- What the file that a text names holds. -/
def read (files : Files) (text : String) : Except FileFault FileContent := do
  match ← files.find text with
  | .file _ content => return content
  | .directory _ => throw .directory
  | .unused _ => throw .missing

/-- The text in a file. -/
def readText (files : Files) (text : String) : Except FileFault String := do
  match (← files.read text).text? with
  | some s => return s
  | none => throw .undecodable

/-- The picture in a file. -/
def readPicture (files : Files) (text : String) : Except FileFault Picture := do
  match ← files.read text with
  | .picture p => return p
  | _ => throw .notPicture

/-- The files after a content is written under a name. -/
def write (files : Files) (text : String) (content : FileContent) : Except FileFault Files := do
  match ← files.findTarget text with
  | .file path _ | .unused path => return files.set path content
  | .directory _ => throw .directory

/-- The files after a content is written under a name that is not in use. -/
def create (files : Files) (text : String) (content : FileContent) : Except FileFault Files := do
  match ← files.findTarget text with
  | .unused path => return files.set path content
  | _ => throw .present

end Files

end LayerBlend
