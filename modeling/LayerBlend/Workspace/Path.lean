import LayerBlend.Text.Search

/-!
# Paths

A `Path` leads from a directory down to a file by names, where two points name the directory above.
A text names a path with slashes between the parts; a part that is empty or a single point stays
where it is. `Path.ofText` takes a text by its parts alone, and `Path.along` lists the paths on the
way. A text that no system takes for a path is refused by `Path.check`.
-/

namespace LayerBlend

/-- Why a file cannot be read or written. -/
inductive FileFault where
  /-- There is no such file, or no directory for it. -/
  | missing
  /-- The path names a directory. -/
  | directory
  /-- A part of the path is a file. -/
  | notDirectory
  /-- The file is already there. -/
  | present
  /-- The path or a part of it is longer than it may be. -/
  | longName
  /-- The path has a null character. -/
  | nullCharacter
  /-- The bytes are no text. -/
  | undecodable
  /-- The file holds no image. -/
  | notPicture
  deriving DecidableEq, Repr

/-- What is wrong with a file. -/
def FileFault.message : FileFault → String
  | .missing => "no such file or directory"
  | .directory => "is a directory"
  | .notDirectory => "not a directory"
  | .present => "file exists"
  | .longName => "file name too long"
  | .nullCharacter => "null character in the name"
  | .undecodable => "not a UTF-8 text"
  | .notPicture => "not an image"

/-- The names of the directories that lead to a file, and its own. A single slash in front stands
for the root of all directories. -/
abbrev Path := List String

namespace Path

/-- The most bytes of a part of a path. -/
def maxPart : Nat := 255

/-- The most bytes of a path. -/
def maxLength : Nat := 4095

/-- The directory above. -/
def parent (path : Path) : Path :=
  match path.getLast? with
  | none | some ".." => path ++ [".."]
  | some "/" => path
  | some _ => path.dropLast

/-- The part stays where it is. -/
def isStay (part : String) : Bool :=
  part == "" || part == "."

/-- One more part of a path. -/
def step (path : Path) (part : String) : Path :=
  if isStay part then path
  else if part = ".." then path.parent
  else path ++ [part]

/-- Where a text starts from. -/
def start (text : String) : Path :=
  if text.startsWith "/" then ["/"] else []

/-- The parts of a text. -/
def parts (text : String) : List String :=
  text.splitOn "/"

/-- The path that a text names. -/
def ofText (text : String) : Path :=
  (parts text).foldl step (start text)

/-- The paths on the way that a text names, from where it starts. -/
def along (text : String) : List Path :=
  (List.range ((parts text).length + 1)).map fun n =>
    ((parts text).take n).foldl step (start text)

/-- The text that names a path. -/
def toText : Path → String
  | "/" :: path => "/" ++ String.intercalate "/" path
  | path => String.intercalate "/" path

/-- The text of a path that starts from a directory, unless it starts from the root. -/
def join (directory name : String) : String :=
  if name.startsWith "/" then name
  else if directory.isEmpty || directory.endsWith "/" then directory ++ name
  else directory ++ "/" ++ name

/-- The text of the directory in front of the last slash of a text. -/
def directoryOf (text : String) : String :=
  String.ofList ((text.toList.reverse.dropWhile (· != '/')).reverse)

/-- Refuses a text that names no path. -/
def check (text : String) : Except FileFault Unit :=
  if text.toList.contains '\x00' then .error .nullCharacter
  else if text.isEmpty then .error .missing
  else if maxLength < text.utf8ByteSize then .error .longName
  else .ok ()

/-- The ending of a name: its last point and what follows, unless only points are in front. -/
def endingOf (name : List Char) : List Char :=
  let reversed := name.reverse
  match reversed.dropWhile (· != '.') with
  | [] => []
  | point :: stem =>
    if stem.all (· == '.') then [] else point :: (reversed.takeWhile (· != '.')).reverse

/-- The ending of the file that a text names, with small letters. -/
def ending (text : String) : String :=
  let name := (text.toList.reverse.takeWhile (· != '/')).reverse
  String.ofList (Text.lower (endingOf name))

end Path

end LayerBlend
