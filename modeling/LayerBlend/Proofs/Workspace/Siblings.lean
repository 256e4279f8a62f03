import LayerBlend.Proofs.Workspace.Files
import Mathlib.Data.List.Induction

/-!
# Files beside a file

* `Files.Reached.spelled` — the names of a directory that texts lead to lead there again.
* `Files.Reached.find_toText` — so the text that spells a path in such a directory leads to it.
* `Files.Leads.create_sibling` — beside a file that a text leads to, another one can be created
  under the text that spells its path, unless its name is in use or too long.
-/

namespace LayerBlend

namespace Path

variable {names : List String}

/-- A text that joins names starts from where all texts start that have no slash in front. -/
theorem start_intercalate (hnames : names ≠ [])
    (h : ∀ name ∈ names, name ≠ "" ∧ '/' ∉ name.toList) :
    start (String.intercalate "/" names) = [] := by
  obtain ⟨first, names, rfl⟩ := List.exists_cons_of_ne_nil hnames
  obtain ⟨hempty, hslash⟩ := h first List.mem_cons_self
  obtain ⟨c, rest, hfirst⟩ := List.exists_cons_of_ne_nil (by simpa using hempty : first.toList ≠ [])
  have hc : c ≠ '/' := by
    rintro rfl
    exact hslash (hfirst ▸ List.mem_cons_self)
  have hfront : (String.intercalate "/" (first :: names)).toList.head? = some c := by
    cases names with
    | nil => simp [hfirst]
    | cons second names => simp [hfirst]
  rw [start, if_neg]
  rw [String.startsWith_string_iff]
  rintro ⟨tail, htail⟩
  rw [← htail] at hfront
  exact hc (Option.some.inj hfront).symm

/-- Names are spelled by joining them. -/
theorem toText_of_names (h : ∀ name ∈ names, '/' ∉ name.toList) :
    toText names = String.intercalate "/" names := by
  unfold toText
  split
  · exact absurd (by decide) (h "/" List.mem_cons_self)
  · rfl

/-- Names below the root are spelled by joining them, with nothing in front. -/
theorem toText_of_root (hnames : names ≠ []) :
    toText ("/" :: names) = String.intercalate "/" ("" :: names) := by
  rw [String.intercalate_cons_of_ne_nil hnames, String.empty_append]
  rfl

/-- Such a text starts from the root. -/
theorem start_of_root (hnames : names ≠ []) :
    start (String.intercalate "/" ("" :: names)) = ["/"] := by
  rw [start, if_pos]
  rw [String.startsWith_string_iff, String.intercalate_cons_of_ne_nil hnames, String.empty_append,
    String.toList_append]
  exact List.prefix_append _ _

/-- A character of the text that spells a path is a slash or in one of the names. -/
theorem of_mem_toText {path : Path} {c : Char} (h : c ∈ path.toText.toList) :
    c = '/' ∨ ∃ name ∈ path, c ∈ name.toList := by
  have hjoined : ∀ names : List String, c ∈ (String.intercalate "/" names).toList →
      c = '/' ∨ ∃ name ∈ names, c ∈ name.toList := by
    intro names h
    induction names with
    | nil => simp at h
    | cons first names ih =>
      cases names with
      | nil => exact Or.inr ⟨first, List.mem_cons_self, by simpa using h⟩
      | cons second names =>
        rw [String.intercalate_cons_cons, String.toList_append, List.mem_append,
          String.toList_append, List.mem_append] at h
        rcases h with (hfirst | hslash) | hrest
        · exact Or.inr ⟨first, List.mem_cons_self, hfirst⟩
        · exact Or.inl (List.mem_singleton.mp hslash)
        · exact (ih hrest).imp id fun ⟨name, hname, hc⟩ =>
            ⟨name, List.mem_cons_of_mem _ hname, hc⟩
  unfold toText at h
  split at h
  · next names =>
    rw [String.toList_append, List.mem_append] at h
    rcases h with hslash | hrest
    · exact Or.inl (List.mem_singleton.mp hslash)
    · exact (hjoined names hrest).imp id fun ⟨name, hname, hc⟩ =>
        ⟨name, List.mem_cons_of_mem _ hname, hc⟩
  · exact hjoined _ h

/-- The text that spells a path ends with the last name. -/
theorem exists_toText_concat {name : String} (hslash : '/' ∉ name.toList) (path : Path) :
    ∃ front, toText (path ++ [name]) = front ++ name := by
  have hjoined : ∀ names : List String,
      ∃ front, String.intercalate "/" (names ++ [name]) = front ++ name := by
    intro names
    by_cases hnames : names = []
    · exact ⟨"", by rw [hnames]; simp⟩
    · exact ⟨String.intercalate "/" names ++ "/", by
        rw [String.intercalate_append_of_ne_nil hnames (List.cons_ne_nil _ _),
          String.intercalate_singleton]⟩
  cases path with
  | nil =>
    obtain ⟨front, hfront⟩ := hjoined []
    refine ⟨front, ?_⟩
    rw [← hfront]
    exact toText_of_names (by simpa using hslash)
  | cons first names =>
    by_cases hroot : first = "/"
    · subst hroot
      obtain ⟨front, hfront⟩ := hjoined names
      exact ⟨"/" ++ front, by rw [String.append_assoc, ← hfront]; rfl⟩
    · obtain ⟨front, hfront⟩ := hjoined (first :: names)
      refine ⟨front, ?_⟩
      rw [← hfront, List.cons_append]
      unfold toText
      split
      · next heq => exact absurd (List.cons.inj heq).1 hroot
      · rfl

/-- A text that ends with a name does not end with a slash. -/
theorem endsWith_append {name : String} (hempty : name ≠ "") (hslash : '/' ∉ name.toList)
    (front : String) : (front ++ name).endsWith "/" = false := by
  refine String.Slice.endsWith_string_eq_false_iff.mpr ?_
  rw [String.copy_toSlice, String.toList_append]
  rintro ⟨rest, hrest⟩
  have hlast := congrArg List.getLast? hrest
  obtain ⟨init, c, hname⟩ :=
    (List.eq_nil_or_concat name.toList).resolve_left (by simpa using hempty)
  rw [hname, List.concat_eq_append] at hlast hslash
  simp at hlast hslash
  exact hslash.2 hlast

/-- A text that can be a path has no null character. -/
theorem null_notMem_of_check {text : String} (h : check text = .ok ()) :
    '\x00' ∉ text.toList := by
  intro hnull
  rw [check, if_pos (List.contains_iff_mem.mpr hnull)] at h
  cases h

/-- Only its length keeps a text from being a path that has neither null characters nor nothing at
all. -/
theorem check_eq {text : String} (hnull : '\x00' ∉ text.toList) (hempty : text ≠ "") :
    check text = if maxLength < text.utf8ByteSize then .error .longName else .ok () := by
  have hcontains : text.toList.contains '\x00' = false := by simpa using hnull
  have hisEmpty : text.isEmpty = false := by simpa using hempty
  rw [check, hcontains, if_neg Bool.false_ne_true, hisEmpty, if_neg Bool.false_ne_true]

end Path

namespace Files

variable {files : Files} {path start target : Path} {names : List String} {name text : String}
  {content : FileContent}

/-- Names lead from where a text starts to a directory, and what comes behind is followed from
there. -/
structure Spelled (files : Files) (path start : Path) (names : List String) : Prop where
  /-- A text starts from the root or from a directory that has no name. -/
  origin : start = ["/"] ∨ start = []
  /-- These are the names. -/
  eq : path = start ++ names
  /-- They are not empty and have no slashes. -/
  named : ∀ name ∈ names, name ≠ "" ∧ '/' ∉ name.toList
  /-- They lead to the directory. -/
  follow : ∀ tail, files.follow (.directory start) (names ++ tail) =
    files.follow (.directory path) tail

theorem follow_above (h : ∀ part ∈ names, part = "..") (tail : List String) :
    files.follow (.directory []) (names ++ tail) = files.follow (.directory names) tail := by
  induction names using List.reverseRecOn generalizing tail with
  | nil => rfl
  | append_singleton names part ih =>
    rw [List.forall_mem_append, List.forall_mem_singleton] at h
    obtain ⟨hnames, rfl⟩ := h
    rw [List.append_assoc, ih hnames, ← parent_of_above hnames]
    rfl

/-- The names of a directory that texts lead to lead there again. -/
theorem Reached.spelled (h : files.Reached path) :
    ∃ start names, files.Spelled path start names := by
  induction h with
  | root => exact ⟨["/"], [], Or.inl rfl, rfl, by simp, fun tail => rfl⟩
  | @above path h =>
    exact ⟨[], path, Or.inr rfl, rfl, fun name hname => by rw [h name hname]; decide,
      follow_above h⟩
  | @inside path part _ hname hslash hthere ih =>
    obtain ⟨start, names, hspelled⟩ := ih
    have hpart : part ≠ "" := by
      rintro rfl
      exact absurd hname.moves (by decide)
    refine ⟨start, names ++ [part], hspelled.origin, ?_, ?_, fun tail => ?_⟩
    · rw [hspelled.eq, List.append_assoc]
    · exact List.forall_mem_append.mpr ⟨hspelled.named, by simpa using ⟨hpart, hslash⟩⟩
    · rw [List.append_assoc, List.singleton_append, hspelled.follow, Files.follow,
        enter_of_isName hname, hthere]
      rfl

/-- The text that spells a path in a directory that texts lead to leads to what its last name
enters. -/
theorem Reached.find_toText (h : files.Reached path) (hempty : name ≠ "")
    (hslash : '/' ∉ name.toList) :
    files.find (Path.toText (path ++ [name])) = (do
      Path.check (Path.toText (path ++ [name]))
      files.enter path name) := by
  obtain ⟨start, names, hspelled⟩ := h.spelled
  have hnames : ∀ part ∈ names ++ [name], part ≠ "" ∧ '/' ∉ part.toList :=
    List.forall_mem_append.mpr ⟨hspelled.named, by simpa using ⟨hempty, hslash⟩⟩
  have hne : names ++ [name] ≠ [] := by simp
  have hlast : files.follow (.directory start) (names ++ [name]) = files.enter path name := by
    rw [hspelled.follow, Files.follow]
    cases files.enter path name <;> rfl
  have hpath : path ++ [name] = start ++ (names ++ [name]) := by
    rw [hspelled.eq, List.append_assoc]
  have hfollow : files.follow (.directory (Path.start (Path.toText (path ++ [name]))))
      (Path.parts (Path.toText (path ++ [name]))) = files.enter path name := by
    rw [← hlast, hpath]
    rcases hspelled.origin with rfl | rfl
    · rw [List.singleton_append, Path.toText_of_root hne, Path.start_of_root hne,
        Path.parts_intercalate (List.cons_ne_nil _ _)
          (List.forall_mem_cons.mpr ⟨by decide, fun part hpart => (hnames part hpart).2⟩)]
      rfl
    · rw [List.nil_append, Path.toText_of_names fun part hpart => (hnames part hpart).2,
        Path.start_intercalate hne hnames,
        Path.parts_intercalate hne fun part hpart => (hnames part hpart).2]
  rw [Files.find, hfollow]

/-- Beside a path that a text leads to there is no null character in the way. -/
theorem Leads.null_notMem_sibling (h : files.Leads text target) (hnull : '\x00' ∉ name.toList) :
    '\x00' ∉ (Path.toText (target.dropLast ++ [name])).toList := by
  intro hmem
  have hcheck : Path.check text = .ok () := by
    obtain ⟨_, hfind, _⟩ := h
    exact (bind_eq_ok.mp hfind).choose_spec.1
  rcases Path.of_mem_toText hmem with hslash | ⟨part, hpart, hc⟩
  · exact absurd hslash (by decide)
  rcases List.mem_append.mp hpart with hpart | hpart
  · have hofText : part ∈ Path.ofText text := h.eq_ofText ▸ List.dropLast_subset target hpart
    rcases Path.of_mem_ofText hofText with hpart | rfl | rfl
    · exact Path.null_notMem_of_check hcheck (Path.of_mem_parts hpart hc).2
    · exact absurd hc (by decide)
    · exact absurd hc (by decide)
  · rw [List.mem_singleton.mp hpart] at hc
    exact hnull hc

/-- Beside a file that a text leads to, another one can be created under the text that spells its
path, unless its name is in use or too long. -/
theorem Leads.create_sibling (h : files.Leads text target) (hempty : name ≠ "")
    (hslash : '/' ∉ name.toList) (hnull : '\x00' ∉ name.toList) (content : FileContent) :
    files.create (Path.toText (target.dropLast ++ [name])) content =
      if Path.maxLength < (Path.toText (target.dropLast ++ [name])).utf8ByteSize then
        .error .longName
      else
        match files.enter target.dropLast name with
        | .ok (.unused path) => .ok (files.set path content)
        | .ok _ => .error .present
        | .error cause => .error cause := by
  obtain ⟨front, hfront⟩ := Path.exists_toText_concat hslash target.dropLast
  have hnotEmpty : Path.toText (target.dropLast ++ [name]) ≠ "" := by
    rw [hfront]
    exact fun heq => hempty (String.append_eq_empty_iff.mp heq).2
  have hend : (Path.toText (target.dropLast ++ [name])).endsWith "/" = false :=
    hfront ▸ Path.endsWith_append hempty hslash front
  rw [create, findTarget, hend, if_neg Bool.false_ne_true,
    h.reached.find_toText hempty hslash,
    Path.check_eq (h.null_notMem_sibling hnull) hnotEmpty]
  split
  · rfl
  · rw [ok_bind]
    cases files.enter target.dropLast name with
    | ok place => cases place <;> rfl
    | error cause => rfl

end Files

end LayerBlend
