import LayerBlend.Proofs.Outcome
import LayerBlend.Proofs.Workspace.Paths
import LayerBlend.Workspace.Files

/-!
# Files that are written are read back

* `Files.get?_set` — setting a file changes no other one.
* `Files.Alike` — the same paths are directories. A file that is put where a text leads leaves them
  so (`Files.Leads.alike_set`), and then all texts lead where they led (`Files.Alike.leads`).
* `Files.read_write` — what is written under a name is read under it, and the name can be written
  again (`Files.writable_write`).
* `Files.create_eq_ok` — a content is created under a name that is not in use.
-/

namespace LayerBlend

/-- The path of a file, or of a name that is not in use. -/
def Place.target? : Place → Option Path
  | .directory _ => none
  | .file path _ | .unused path => some path

namespace Files

variable {files other : Files} {path target : Path} {content : FileContent}

/-! ## Setting a file -/

@[simp] theorem entries_addDirectory (files : Files) (path : Path) :
    (files.addDirectory path).entries = files.entries := by
  unfold addDirectory
  split <;> rfl

/-- Replacing the content of a file that is there changes no other one. -/
theorem get?_replace (hthere : files.entries.any (·.1 == target) = true) :
    ({ files with entries := files.entries.map fun entry =>
        if entry.1 == target then (target, content) else entry } : Files).get? path =
      if path = target then some content else files.get? path := by
  have hname : ((fun entry : Path × FileContent => entry.1 == path) ∘ fun entry =>
      if entry.1 == target then (target, content) else entry) = (·.1 == path) := by
    funext entry
    simp only [Function.comp]
    split
    · next heq => rw [beq_iff_eq.mp heq]
    · rfl
  rw [get?, List.find?_map, hname, get?]
  cases hfound : files.entries.find? (·.1 == path) with
  | none =>
    have hne : path ≠ target := by
      rintro rfl
      rw [← List.isSome_find?, hfound] at hthere
      cases hthere
    rw [if_neg hne]
    rfl
  | some entry =>
    have hentry : entry.1 = path := by simpa using List.find?_some hfound
    simp only [Option.map_some, hentry, beq_iff_eq]
    split <;> rfl

/-- Adding a file that is not there changes no other one. -/
theorem get?_add (hthere : ¬ files.entries.any (·.1 == target) = true) :
    ({ files with entries := files.entries ++ [(target, content)] } : Files).get? path =
      if path = target then some content else files.get? path := by
  rw [get?, List.find?_append, get?]
  by_cases hpath : path = target
  · subst hpath
    rw [← List.isSome_find?, Option.not_isSome_iff_eq_none] at hthere
    simp [hthere]
  · have hbeq : (target == path) = false := beq_eq_false_iff_ne.mpr (Ne.symm hpath)
    simp [hpath, hbeq]

theorem get?_addDirectory (files : Files) (directory path : Path) :
    (files.addDirectory directory).get? path = files.get? path := by
  rw [get?, entries_addDirectory, get?]

/-- Setting a file changes no other one. -/
theorem get?_set (files : Files) (target path : Path) (content : FileContent) :
    (files.set target content).get? path = if path = target then some content
      else files.get? path := by
  unfold set
  simp only
  split
  · next hthere => rw [get?_replace hthere, get?_addDirectory]
  · next hthere => rw [get?_add hthere, get?_addDirectory]

theorem placeAt_set_self (files : Files) (target : Path) (content : FileContent) :
    (files.set target content).placeAt target = .file target content := by
  rw [placeAt, get?_set, if_pos rfl]

/-! ## Directories -/

/-- The path of what is at a path for a file. -/
theorem eq_of_target?_placeAt (h : (files.placeAt path).target? = some target) :
    path = target := by
  unfold placeAt at h
  split at h
  · exact Option.some.inj h
  · split at h
    · cases h
    · exact Option.some.inj h

/-- What is at a path is a directory when it is no place for a file, and then it is its own path. -/
theorem placeAt_eq_directory {next : Path} :
    files.placeAt path = .directory next ↔
      path = next ∧ (files.placeAt path).target? = none := by
  unfold placeAt
  cases files.get? path with
  | some content => simp [Place.target?]
  | none => cases files.hasDirectory path <;> simp [Place.target?]

/-- The same paths are directories. -/
def Alike (files other : Files) : Prop :=
  ∀ path, (files.placeAt path).target? = (other.placeAt path).target?

theorem Alike.refl (files : Files) : files.Alike files :=
  fun _ => rfl

theorem Alike.symm (h : files.Alike other) : other.Alike files :=
  fun path => (h path).symm

theorem Alike.trans {last : Files} (h : files.Alike other) (hother : other.Alike last) :
    files.Alike last :=
  fun path => (h path).trans (hother path)

/-- A file that is put in a directory makes no other one. -/
theorem directories_set (h : files.hasDirectory target.dropLast = true) :
    (files.set target content).directories = files.directories := by
  unfold set addDirectory
  rw [if_pos h]
  simp only
  split <;> rfl

/-- A file that is put where one can be leaves the same paths directories. -/
theorem alike_set (hdirectory : files.hasDirectory target.dropLast = true)
    (htarget : (files.placeAt target).target? = some target) :
    files.Alike (files.set target content) := by
  intro path
  by_cases hpath : path = target
  · rw [hpath, htarget, placeAt_set_self]
    rfl
  · unfold placeAt
    rw [get?_set, if_neg hpath, hasDirectory, hasDirectory, directories_set hdirectory]

/-! ## Entering a part -/

/-- A name leads to what is there. -/
theorem enter_of_isName {part : String} (h : Path.IsName part) (files : Files) (path : Path) :
    files.enter path part = .ok (files.placeAt (path ++ [part])) := by
  rw [enter, h.moves, if_neg Bool.false_ne_true, if_neg h.descends,
    if_neg (Nat.not_lt.mpr h.length)]

/-- A part that can be entered stays or leads up, among all files, or it is a name. -/
theorem enter_cases {part : String} {place : Place} (h : files.enter path part = .ok place) :
    ((Path.isStay part = true ∨ part = "..") ∧ place = .directory (Path.step path part) ∧
      ∀ other : Files, other.enter path part = .ok place) ∨
    (Path.IsName part ∧ place = files.placeAt (path ++ [part])) := by
  unfold enter at h
  split at h
  · next hstay =>
    cases h
    rw [Path.step, if_pos hstay]
    exact Or.inl ⟨Or.inl hstay, rfl, fun other => by rw [enter, if_pos hstay]⟩
  · next hstay =>
    split at h
    · next hparent =>
      cases h
      rw [Path.step, if_neg hstay, if_pos hparent]
      exact Or.inl ⟨Or.inr hparent, rfl, fun other => by
        rw [enter, if_neg hstay, if_pos hparent]⟩
    · next hparent =>
      split at h
      · cases h
      · next hlength =>
        exact Or.inr ⟨⟨Bool.eq_false_iff.mpr hstay, hparent, Nat.not_lt.mp hlength⟩,
          (Except.ok.inj h).symm⟩

/-- A place for a file is entered by its name. -/
theorem enter_of_target {part : String} {place : Place} (h : files.enter path part = .ok place)
    (htarget : place.target? = some target) :
    Path.IsName part ∧ target = path ++ [part] ∧ files.placeAt target = place := by
  rcases enter_cases h with ⟨_, rfl, _⟩ | ⟨hname, rfl⟩
  · cases htarget
  · obtain rfl := eq_of_target?_placeAt htarget
    exact ⟨hname, rfl, rfl⟩

/-- A directory is entered in the same way when the same paths are directories. -/
theorem Alike.enter {part : String} {next : Path} (h : files.Alike other)
    (henter : files.enter path part = .ok (.directory next)) :
    other.enter path part = .ok (.directory next) := by
  rcases enter_cases henter with ⟨_, _, hsame⟩ | ⟨hname, hplace⟩
  · exact hsame other
  · obtain ⟨hnext, hnone⟩ := placeAt_eq_directory.mp hplace.symm
    rw [enter_of_isName hname]
    exact congrArg _ (placeAt_eq_directory.mpr ⟨hnext, (h _).symm.trans hnone⟩)

/-! ## Directories that a text leads to -/

/-- A directory that a text can lead to: the root, one above, or one that is there below such a
directory. -/
inductive Reached (files : Files) : Path → Prop where
  /-- The directory is the root. -/
  | root : Reached files ["/"]
  /-- The directory is the one that texts start from, or above it. -/
  | above {path : Path} (h : ∀ part ∈ path, part = "..") : Reached files path
  /-- The directory is below another one. -/
  | inside {path : Path} {part : String} (h : Reached files path) (hname : Path.IsName part)
      (hslash : '/' ∉ part.toList)
      (hthere : files.placeAt (path ++ [part]) = .directory (path ++ [part])) :
      Reached files (path ++ [part])

theorem reached_start (files : Files) (text : String) : files.Reached (Path.start text) := by
  unfold Path.start
  split
  · exact .root
  · exact .above (by simp)

theorem Reached.hasDirectory (h : files.Reached path) : files.hasDirectory path = true := by
  cases h with
  | root => rfl
  | above h =>
    have hall : path.all (fun part => part == ".." || part == "/") = true :=
      List.all_eq_true.mpr fun part hpart => by simp [h part hpart]
    rw [Files.hasDirectory, hall, Bool.true_or]
  | @inside path part _ _ _ hthere =>
    unfold placeAt at hthere
    split at hthere
    · cases hthere
    · split at hthere
      · assumption
      · cases hthere

/-- The directory above one that leads up leads up one step more. -/
theorem parent_of_above (h : ∀ part ∈ path, part = "..") : path.parent = path ++ [".."] := by
  unfold Path.parent
  cases hlast : path.getLast? with
  | none => rfl
  | some part =>
    obtain rfl := h part (List.mem_of_getLast? hlast)
    rfl

/-- The directory above one that is reached is reached too. -/
theorem Reached.parent (h : files.Reached path) : files.Reached path.parent := by
  cases h with
  | root => exact .root
  | above h =>
    rw [parent_of_above h]
    exact .above (by simpa [or_imp, forall_and] using h)
  | @inside path part h hname hslash hthere =>
    unfold Path.parent
    rw [List.getLast?_concat, List.dropLast_concat]
    split
    · next heq => cases heq
    · next heq => exact absurd (Option.some.inj heq) hname.descends
    · next heq =>
      cases heq
      exact absurd (by decide) hslash
    · exact h

/-- A directory that is entered from one that is reached is reached too. -/
theorem Reached.enter {part : String} {next : Path} (h : files.Reached path)
    (hslash : '/' ∉ part.toList) (henter : files.enter path part = .ok (.directory next)) :
    files.Reached next ∧ next = Path.step path part := by
  rcases enter_cases henter with ⟨hpart, hplace, _⟩ | ⟨hname, hplace⟩
  · cases hplace
    refine ⟨?_, rfl⟩
    unfold Path.step
    split
    · exact h
    · next hstay =>
      rw [if_pos (hpart.resolve_left hstay)]
      exact h.parent
  · obtain ⟨rfl, _⟩ := placeAt_eq_directory.mp hplace.symm
    exact ⟨.inside h hname hslash hplace.symm, (hname.step_eq path).symm⟩

/-! ## Following a text -/

/-- The way to a place for a file goes through directories, and its last part leads there. -/
theorem follow_cons {part : String} {parts : List String} {place : Place}
    (h : files.follow (.directory path) (part :: parts) = .ok place) :
    (∃ next, files.enter path part = .ok (.directory next) ∧
      files.follow (.directory next) parts = .ok place) ∨
    (parts = [] ∧ files.enter path part = .ok place) := by
  obtain ⟨next, henter, hnext⟩ := bind_eq_ok.mp h
  cases next with
  | directory next => exact Or.inl ⟨next, henter, hnext⟩
  | file next found =>
    cases parts with
    | nil => exact Or.inr ⟨rfl, henter.trans hnext⟩
    | cons part parts => cases hnext
  | unused next =>
    cases parts with
    | nil => exact Or.inr ⟨rfl, henter.trans hnext⟩
    | cons part parts => cases hnext

/-- Where a text leads for a file, that is what is there: a file of its name in a directory that is
reached. -/
theorem of_follow {parts : List String} {place : Place} (htarget : place.target? = some target)
    (hslash : ∀ part ∈ parts, '/' ∉ part.toList) :
    ∀ {path : Path}, files.Reached path → files.follow (.directory path) parts = .ok place →
      files.placeAt target = place ∧ files.Reached target.dropLast ∧
        target = parts.foldl Path.step path := by
  induction parts with
  | nil =>
    intro path _ h
    cases h
    cases htarget
  | cons part parts ih =>
    intro path hreached h
    rw [List.forall_mem_cons] at hslash
    rcases follow_cons h with ⟨next, henter, hnext⟩ | ⟨rfl, henter⟩
    · obtain ⟨hreached, rfl⟩ := hreached.enter hslash.1 henter
      exact ih hslash.2 hreached hnext
    · obtain ⟨hname, rfl, hplace⟩ := enter_of_target henter htarget
      rw [List.dropLast_concat, List.foldl_cons, List.foldl_nil, hname.step_eq]
      exact ⟨hplace, hreached, rfl⟩

/-- The way to a place for a file is the same when the same paths are directories. -/
theorem Alike.follow {parts : List String} {place : Place} (h : files.Alike other)
    (htarget : place.target? = some target) : ∀ {path : Path},
      files.follow (.directory path) parts = .ok place →
      other.follow (.directory path) parts = .ok (other.placeAt target) := by
  induction parts with
  | nil =>
    intro path hfollow
    cases hfollow
    cases htarget
  | cons part parts ih =>
    intro path hfollow
    rcases follow_cons hfollow with ⟨next, henter, hnext⟩ | ⟨rfl, henter⟩
    · rw [Files.follow, h.enter henter]
      exact ih hnext
    · obtain ⟨hname, rfl, _⟩ := enter_of_target henter htarget
      rw [Files.follow, enter_of_isName hname]
      exact bind_pure (Except.ok (other.placeAt (path ++ [part])))

/-! ## Where a text leads for a file -/

/-- A text leads to a path, where there is a file or can be one. -/
def Leads (files : Files) (text : String) (target : Path) : Prop :=
  ∃ place, files.find text = .ok place ∧ place.target? = some target

variable {text : String}

namespace Leads

/-- What a text leads to is at the path, which is in a directory that is reached. -/
theorem found (h : files.Leads text target) :
    files.find text = .ok (files.placeAt target) ∧
      (files.placeAt target).target? = some target ∧ files.Reached target.dropLast ∧
        target = Path.ofText text := by
  obtain ⟨place, hfind, htarget⟩ := h
  obtain ⟨_, _, hfollow⟩ := bind_eq_ok.mp hfind
  obtain ⟨hplace, hreached, heq⟩ := of_follow htarget
    (fun part hpart hslash => (Path.of_mem_parts hpart hslash).1 rfl) (reached_start files text)
    hfollow
  rw [hplace]
  exact ⟨hfind, htarget, hreached, heq⟩

theorem find_eq (h : files.Leads text target) : files.find text = .ok (files.placeAt target) :=
  h.found.1

theorem target?_eq (h : files.Leads text target) :
    (files.placeAt target).target? = some target :=
  h.found.2.1

theorem reached (h : files.Leads text target) : files.Reached target.dropLast :=
  h.found.2.2.1

/-- The path is the one that the text names. -/
theorem eq_ofText (h : files.Leads text target) : target = Path.ofText text :=
  h.found.2.2.2

/-- A text leads to one path. -/
theorem unique (h : files.Leads text path) (hother : files.Leads text target) : path = target := by
  obtain ⟨place, hfind, hpath⟩ := h
  obtain ⟨_, hagain, htarget⟩ := hother
  rw [hfind, Except.ok.injEq] at hagain
  rw [← hagain, hpath] at htarget
  exact Option.some.inj htarget

/-- A file that is put where a text leads leaves the same paths directories. -/
theorem alike_set (h : files.Leads text target) (content : FileContent) :
    files.Alike (files.set target content) :=
  Files.alike_set h.reached.hasDirectory h.target?_eq

/-- The file that a text leads to is read under it. -/
theorem read_of_some (h : files.Leads text target) (hfile : files.get? target = some content) :
    files.read text = .ok content := by
  rw [read, h.find_eq, placeAt, hfile]
  rfl

/-- There is nothing to read where a text leads to no file. -/
theorem read_of_none (h : files.Leads text target) (hfile : files.get? target = none) :
    files.read text = .error .missing := by
  have htarget := h.target?_eq
  rw [read, h.find_eq]
  unfold placeAt at htarget ⊢
  rw [hfile] at htarget ⊢
  cases hdirectory : files.hasDirectory target with
  | true =>
    rw [hdirectory] at htarget
    cases htarget
  | false => rfl

end Leads

/-- Texts lead to the same paths when the same paths are directories. -/
theorem Alike.leads (h : files.Alike other) (hleads : files.Leads text target) :
    other.Leads text target := by
  obtain ⟨place, hfind, htarget⟩ := id hleads
  obtain ⟨_, hcheck, hfollow⟩ := bind_eq_ok.mp hfind
  exact ⟨other.placeAt target, bind_eq_ok.mpr ⟨_, hcheck, h.follow htarget hfollow⟩,
    (h target).symm.trans hleads.target?_eq⟩

/-- A text that names a file leads to it. -/
theorem exists_leads_of_read (h : files.read text = .ok content) :
    ∃ target, files.Leads text target ∧ files.get? target = some content := by
  obtain ⟨place, hfind, hread⟩ := bind_eq_ok.mp h
  cases place with
  | file target found =>
    cases hread
    have hleads : files.Leads text target := ⟨_, hfind, rfl⟩
    have hplace := hleads.find_eq
    rw [hfind, Except.ok.injEq] at hplace
    refine ⟨target, hleads, ?_⟩
    unfold placeAt at hplace
    cases hfile : files.get? target with
    | some there =>
      rw [hfile] at hplace
      cases hplace
      rfl
    | none =>
      rw [hfile] at hplace
      dsimp only at hplace
      split at hplace <;> cases hplace
  | directory path => cases hread
  | unused path => cases hread

/-! ## Writing a file -/

/-- A file can be put where a text leads to. -/
def Writable (files : Files) (text : String) : Prop :=
  ∀ content, ∃ written, files.write text content = .ok written

/-- A name that no slash ends is written where it leads to. -/
theorem write_of_find {place : Place} (hslash : text.endsWith "/" = false)
    (hfind : files.find text = .ok place) (htarget : place.target? = some target) :
    files.write text content = .ok (files.set target content) := by
  rw [write, findTarget, hslash, if_neg Bool.false_ne_true, hfind]
  cases place with
  | directory path => cases htarget
  | file path found =>
    cases htarget
    rfl
  | unused path =>
    cases htarget
    rfl

/-- A name with a slash at its end is never written. -/
theorem findTarget_of_slash (hslash : text.endsWith "/" = true) (place : Place) :
    files.findTarget text ≠ .ok place := by
  intro h
  rw [findTarget, if_pos hslash] at h
  obtain ⟨_, _, h⟩ := bind_eq_ok.mp h
  obtain ⟨_, _, h⟩ := bind_eq_ok.mp h
  cases h

/-- Where a file is to be written, a text leads as ever. -/
theorem find_of_findTarget {place : Place} (h : files.findTarget text = .ok place) :
    text.endsWith "/" = false ∧ files.find text = .ok place := by
  have hslash : text.endsWith "/" = false :=
    Bool.eq_false_iff.mpr fun hslash => findTarget_of_slash hslash place h
  rw [findTarget, hslash, if_neg Bool.false_ne_true] at h
  exact ⟨hslash, h⟩

/-- A name that is written leads to a path for a file, and the content is put there. -/
theorem write_eq_ok {written : Files} (h : files.write text content = .ok written) :
    text.endsWith "/" = false ∧
      ∃ target, files.Leads text target ∧ written = files.set target content := by
  obtain ⟨place, hplace, hset⟩ := bind_eq_ok.mp h
  obtain ⟨hslash, hfind⟩ := find_of_findTarget hplace
  refine ⟨hslash, ?_⟩
  cases place with
  | directory path => cases hset
  | file path found => exact ⟨path, ⟨_, hfind, rfl⟩, (Except.ok.inj hset).symm⟩
  | unused path => exact ⟨path, ⟨_, hfind, rfl⟩, (Except.ok.inj hset).symm⟩

/-- What is written under a name is read under it. -/
theorem read_write {written : Files} (h : files.write text content = .ok written) :
    written.read text = .ok content := by
  obtain ⟨_, target, hleads, rfl⟩ := write_eq_ok h
  exact ((hleads.alike_set content).leads hleads).read_of_some (by rw [get?_set, if_pos rfl])

/-- A name that can be written can be written as long as the same paths are directories. -/
theorem Alike.writable (h : files.Alike other) (hwritable : files.Writable text) :
    other.Writable text := by
  intro content
  obtain ⟨written, hwrite⟩ := hwritable content
  obtain ⟨hslash, target, hleads, _⟩ := write_eq_ok hwrite
  obtain ⟨place, hfind, htarget⟩ := h.leads hleads
  exact ⟨_, write_of_find hslash hfind htarget⟩

/-- A name that was written can be written again. -/
theorem writable_write {written : Files} (h : files.write text content = .ok written) :
    written.Writable text := by
  obtain ⟨hslash, target, hleads, rfl⟩ := write_eq_ok h
  obtain ⟨place, hfind, htarget⟩ := (hleads.alike_set content).leads hleads
  exact fun other => ⟨_, write_of_find hslash hfind htarget⟩

/-- What a name that can be written names is a file or nothing yet. -/
theorem Writable.read_cases (h : files.Writable text) :
    files.read text = .error .missing ∨ ∃ content, files.read text = .ok content := by
  obtain ⟨_, hwrite⟩ := h (.text "")
  obtain ⟨_, target, hleads, _⟩ := write_eq_ok hwrite
  cases hfile : files.get? target with
  | none => exact Or.inl (hleads.read_of_none hfile)
  | some content => exact Or.inr ⟨content, hleads.read_of_some hfile⟩

/-! ## Creating a file -/

/-- A name that is created leads to a path without a file, and the content is put there. -/
theorem create_eq_ok {created : Files} (h : files.create text content = .ok created) :
    ∃ target, files.Leads text target ∧ files.get? target = none ∧
      created = files.set target content := by
  obtain ⟨place, hplace, hset⟩ := bind_eq_ok.mp h
  have hfind := (find_of_findTarget hplace).2
  cases place with
  | directory path => cases hset
  | file path found => cases hset
  | unused path =>
    have hleads : files.Leads text path := ⟨_, hfind, rfl⟩
    refine ⟨path, hleads, ?_, (Except.ok.inj hset).symm⟩
    have hunused := hleads.find_eq
    rw [hfind, Except.ok.injEq] at hunused
    unfold placeAt at hunused
    split at hunused
    · cases hunused
    · assumption

end Files

end LayerBlend
