import LayerBlend.Preset.Document

/-!
# Stores of presets

A `PresetStore` keeps presets in a file. Every operation reads the file, changes the list and
writes it back:

* a file that is missing or blank is filled with the default presets;
* a file that holds no document of presets is copied to a backup beside it, and then filled with
  the default presets;
* a write that fails is tried again as the policy of the store says. It opens the file first, and
  leaves it empty when it fails after that, as it does with a text that cannot be encoded.
-/

namespace LayerBlend

/-- A file of presets. -/
structure PresetStore where
  /-- The name of the file. -/
  path : String
  /-- When to try a write again. -/
  policy : RetryPolicy Fault

namespace PresetStore

/-- The name of the file in a directory that is given in place of a file. -/
def fileName : String := "formulas.json"

/-- The wait after a failed write, unless it is chosen otherwise: a second, doubled each time up to
eight seconds. -/
def defaultBackoff : Backoff := .exponential 1 8

/-- When to try a write again, unless it is chosen otherwise: always. -/
def defaultPolicy : RetryPolicy Fault :=
  .ofBackoff none RetryPolicy.pos_of_noLimit defaultBackoff .endlessWait Fault.isWriteFailure

/-- The store of a path, which may also name a directory. -/
def atPath (path : String) (policy : RetryPolicy Fault) : Work PresetStore := do
  let files := (← get).files
  return ⟨if files.isDirectory path then Path.join path fileName else path, policy⟩

/-! ## Writing -/

/-- The number of attempts that a write may take under a policy. -/
def patience (policy : RetryPolicy Fault) (pending : Nat) : Nat :=
  max (policy.limit.getD 0) (Backoff.attemptLimit + pending) + 1

/-- Opens a file, which empties it, and leaves a text in it: how that ends, and the files after it.
A file that cannot be opened stays as it is. -/
def put (path text : String) (ending : Except Fault Unit) (files : Files) :
    Except Fault Unit × Files :=
  match files.write path (.text text) with
  | .ok written => (ending, written)
  | .error cause => (.error (.unwritten path cause), files)

/-- An attempt to write a text to a file, which may meet a fault: how it ends, and the files after
it. The file is opened before the text is encoded. -/
def attemptWrite (path : String) (text : JsonText) (met : Option WriteFault) (files : Files) :
    Except Fault Unit × Files :=
  match met, text with
  | some ⟨fault, opens⟩, _ =>
    if opens then put path "" (.error fault) files else (.error fault, files)
  | none, .whole s => put path s (.ok ()) files
  | none, .halved _ => put path "" (.error .unencodable) files

/-- The files before an attempt to write, which meets the fault that is pending for it. -/
def filesBefore (w : Workspace) (path : String) (text : JsonText) : Nat → Files
  | 0 => w.files
  | attempt + 1 =>
    (attemptWrite path text w.pending[attempt]? (filesBefore w path text attempt)).2

/-- The outcome of each attempt to write. -/
def writeOutcome (w : Workspace) (path : String) (text : JsonText) (attempt : Nat) :
    Except Fault Unit :=
  (attemptWrite path text w.pending[attempt]? (filesBefore w path text attempt)).1

/-- The workspace after a number of attempts to write. -/
def afterAttempts (w : Workspace) (path : String) (text : JsonText) (attempts : Nat) : Workspace :=
  { w with files := filesBefore w path text attempts, pending := w.pending.drop attempts }

/-- The workspace after a run of attempts to write. -/
def afterRun (w : Workspace) (path : String) (text : JsonText) (run : RetryRun Fault Unit) :
    Workspace :=
  { afterAttempts w path text run.calls with
    log := w.log ++ run.warnings Fault.message
    waits := w.waits ++ run.waits }

/-- Writes presets to the file. -/
def write (store : PresetStore) (items : List PresetItem) : Work Unit := do
  let w ← get
  let text := PresetDocument.write items
  let patience := patience store.policy w.pending.length
  match store.policy.run (writeOutcome w store.path text) patience with
  | none =>
    set (afterAttempts w store.path text patience)
    throw .outOfPatience
  | some run =>
    set (afterRun w store.path text run)
    match run.result with
    | .ok () => return
    | .error fault => throw fault

/-! ## Reading -/

/-- Fills the file with the default presets. -/
def reset (store : PresetStore) : Work (List PresetItem) := do
  let items ← PresetItem.makeDefaults
  store.write items
  return items

/-- The name of the backup that is made at a time. -/
def backupName (time : Int) : String :=
  "formulas_backup_" ++ toString time ++ ".json"

/-- Copies a content that is no document to a backup beside the file. A backup that is already
there is left alone. -/
def backup (store : PresetStore) (content : String) : Work Unit := do
  let name := backupName (← Work.now)
  let w ← get
  let path := Path.toText ((Path.ofText store.path).dropLast ++ [name])
  match w.files.create path (.text content) with
  | .ok files =>
    set { w with files }
    Work.tell .info ("Backed up preset file to " ++ Path.join w.directory path)
  | .error cause =>
    Work.tell .warning ("Failed to back up preset file: " ++ cause.message)

/-- Replaces a content that is no document of presets. -/
def recover (store : PresetStore) (content : String) (cause : DocumentFault) :
    Work (List PresetItem) := do
  Work.tell .warning ("Corrupted preset file " ++ store.path ++ ": " ++ cause.message)
  store.backup content
  store.reset

/-- The text of the file, empty when there is no file. -/
def content (store : PresetStore) : Work String := do
  match (← get).files.readText store.path with
  | .ok text => return text
  | .error .missing => return ""
  | .error cause => throw (.file store.path cause)

/-- The presets of the file, which is mended when it holds none. -/
def load (store : PresetStore) : Work (List PresetItem) := do
  let content ← store.content
  if Text.blank content.toList then store.reset
  else
    try PresetDocument.read content
    catch
      | .document cause => store.recover content cause
      | fault => throw fault

/-! ## Operations -/

/-- Adds a preset. -/
def save (store : PresetStore) (name expr : Json) : Work (List PresetItem) := do
  let items ← store.load
  let items := items ++ [← PresetItem.make name expr]
  store.write items
  return items

/-- Removes the presets with an identifier. -/
def delete (store : PresetStore) (id : Json) : Work (List PresetItem) := do
  let items := (← store.load).filter fun item => !item.id.same id
  store.write items
  return items

/-- The text of the document of all presets. -/
def exportText (store : PresetStore) : Work JsonText :=
  PresetDocument.write <$> store.load

/-- Adds the presets of a document, each with a new identifier and the present time. A preset with
the name and the formula of a stored one takes its place. -/
def importText (store : PresetStore) (text : String) : Work (List PresetItem) := do
  let parsed ← PresetDocument.read text
  let imported ← parsed.mapM fun item => PresetItem.make item.name item.expr
  let items ← Work.ofExcept (PresetDocument.merge (← store.load) imported)
  store.write items
  return items

/-- The first preset of a name. -/
def find (store : PresetStore) (name : Json) : Work PresetItem := do
  match (← store.load).find? fun item => item.name.same name with
  | some item => return item
  | none => throw (.presetNotFound name store.path)

end PresetStore

end LayerBlend
