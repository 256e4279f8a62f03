import LayerBlend.Workspace.Path
import Mathlib.Data.String.Basic

/-!
# Texts and the paths that they name

* `Path.parts_eq` — the parts of a text are its characters, split at the slashes.
* `Path.parts_intercalate` — names that have no slashes are the parts of the text that joins them.
* `Path.IsName` — a part names something in a directory.
* `Path.of_mem_ofText` — what the path that a text names is made of.
-/

namespace LayerBlend.Path

open String

/-! ## Splitting at slashes -/

/-- Splitting goes on behind a position: the text before `l` is done, and `m` is the part that has
begun. -/
theorem splitOnAux_slash (r l m : List Char) (done : List String) :
    splitOnAux (ofList (l ++ m ++ r)) "/" ⟨utf8Len l⟩ ⟨utf8Len (l ++ m)⟩ 0 done =
      done.reverse ++ (List.splitOnPPrepend (· == '/') r m.reverse).map ofList := by
  have hget : Pos.Raw.get "/" 0 = '/' := by decide +kernel
  have hnext : Pos.Raw.next "/" 0 = ⟨1⟩ := by decide +kernel
  have hend : Pos.Raw.atEnd "/" ⟨1⟩ = true := by decide +kernel
  have hpart : ∀ l m r, Pos.Raw.extract (ofList (l ++ m ++ r)) ⟨utf8Len l⟩ ⟨utf8Len (l ++ m)⟩ =
      ofList m := fun l m r => by rw [utf8Len_append, extract_of_valid]
  induction r generalizing l m done with
  | nil =>
    have hdone := (atEnd_of_valid (l ++ m) []).mpr rfl
    rw [splitOnAux, if_pos hdone, hpart]
    simp
  | cons c r ih =>
    have hleft : ¬ Pos.Raw.atEnd (ofList (l ++ m ++ c :: r)) ⟨utf8Len (l ++ m)⟩ = true := by
      rw [atEnd_of_valid]
      exact List.cons_ne_nil c r
    have hc : Pos.Raw.get (ofList (l ++ m ++ c :: r)) ⟨utf8Len (l ++ m)⟩ = c := get_of_valid _ _
    have hstep : Pos.Raw.next (ofList (l ++ m ++ c :: r)) ⟨utf8Len (l ++ m)⟩ =
        ⟨utf8Len (l ++ m ++ [c])⟩ := by
      rw [next_of_valid (l ++ m) c r, utf8Len_append (l ++ m)]
      simp
    rw [splitOnAux, if_neg hleft, hc, hget, hnext, hstep]
    by_cases hslash : c = '/'
    · subst hslash
      have hback : Pos.Raw.unoffsetBy ⟨utf8Len (l ++ m ++ ['/'])⟩ ⟨1⟩ = ⟨utf8Len (l ++ m)⟩ := by
        rw [utf8Len_append]
        exact congrArg Pos.Raw.mk (Nat.add_sub_cancel (utf8Len (l ++ m)) 1)
      have hrest := ih (l ++ m ++ ['/']) [] (ofList m :: done)
      rw [List.append_nil] at hrest
      rw [if_pos (beq_self_eq_true _), if_pos hend, hback, hpart, List.append_cons (l ++ m), hrest,
        List.splitOnPPrepend_cons_pos rfl]
      simp
    · have hback : Pos.Raw.unoffsetBy ⟨utf8Len (l ++ m)⟩ 0 = ⟨utf8Len (l ++ m)⟩ := rfl
      have hrest := ih l (m ++ [c]) done
      rw [← List.append_assoc] at hrest
      rw [if_neg (by simpa using hslash), hback, hstep, List.append_cons (l ++ m), hrest,
        List.splitOnPPrepend_cons_neg (by simpa using hslash), List.reverse_concat]

/-- The parts of a text are its characters, split at the slashes. -/
theorem parts_eq (text : String) : parts text = (text.toList.splitOn '/').map ofList := by
  have hsplit := splitOnAux_slash text.toList [] [] []
  rw [parts, splitOn, if_neg (by decide)]
  simpa [List.splitOn] using hsplit

/-- A piece of a list that is split has the members of the list but for those that it is split
at. -/
theorem of_mem_splitOn {separator c : Char} {piece : List Char} (hc : c ∈ piece) :
    ∀ {list : List Char}, piece ∈ list.splitOn separator → c ≠ separator ∧ c ∈ list
  | [], h => by
    rw [List.splitOn_nil, List.mem_singleton] at h
    rw [h] at hc
    cases hc
  | first :: list, h => by
    rw [List.splitOn_cons_eq_if_modifyHead] at h
    split at h
    · rcases List.mem_cons.mp h with rfl | h
      · cases hc
      · exact (of_mem_splitOn hc h).imp id (List.mem_cons_of_mem _)
    · next hfirst =>
      obtain ⟨head, rest, hrest⟩ :=
        List.exists_cons_of_ne_nil (List.splitOn_ne_nil separator list)
      rw [hrest, List.modifyHead_cons] at h
      rcases List.mem_cons.mp h with rfl | h
      · rcases List.mem_cons.mp hc with rfl | hc
        · exact ⟨by simpa using hfirst, List.mem_cons_self⟩
        · exact (of_mem_splitOn hc (hrest ▸ List.mem_cons_self)).imp id (List.mem_cons_of_mem _)
      · exact (of_mem_splitOn hc (hrest ▸ List.mem_cons_of_mem _ h)).imp id
          (List.mem_cons_of_mem _)

/-- A part of a text has no slash, and its characters are those of the text. -/
theorem of_mem_parts {text part : String} {c : Char} (hpart : part ∈ parts text)
    (hc : c ∈ part.toList) : c ≠ '/' ∧ c ∈ text.toList := by
  rw [parts_eq] at hpart
  obtain ⟨piece, hpiece, rfl⟩ := List.mem_map.mp hpart
  rw [toList_ofList] at hc
  exact of_mem_splitOn hc hpiece

/-- Names that have no slashes are the parts of the text that joins them. -/
theorem parts_intercalate {names : List String} (hnames : names ≠ [])
    (hslash : ∀ name ∈ names, '/' ∉ name.toList) :
    parts (String.intercalate "/" names) = names := by
  have hpieces : ∀ piece ∈ names.map String.toList, '/' ∉ piece := by simpa using hslash
  have hsplit := List.splitOn_intercalate '/' hpieces (by simpa using hnames)
  rw [parts_eq, toList_intercalate]
  rw [show "/".toList = ['/'] from rfl, hsplit]
  simp

/-! ## Paths -/

/-- A part is a name: it does not stay, does not lead up, and is not too long. -/
structure IsName (part : String) : Prop where
  /-- It does not stay. -/
  moves : isStay part = false
  /-- It does not lead up. -/
  descends : part ≠ ".."
  /-- It is not too long. -/
  length : part.utf8ByteSize ≤ maxPart

theorem IsName.step_eq {part : String} (h : IsName part) (path : Path) :
    step path part = path ++ [part] := by
  rw [step, h.moves, if_neg Bool.false_ne_true, if_neg h.descends]

theorem mem_parent {path : Path} {name : String} (h : name ∈ parent path) :
    name ∈ path ∨ name = ".." := by
  have hup : name ∈ path ++ [".."] → name ∈ path ∨ name = ".." := fun h =>
    (List.mem_append.mp h).imp id List.mem_singleton.mp
  unfold parent at h
  split at h
  · exact hup h
  · exact hup h
  · exact Or.inl h
  · exact Or.inl (List.dropLast_subset path h)

theorem mem_step {path : Path} {name part : String} (h : name ∈ step path part) :
    name ∈ path ∨ name = part ∨ name = ".." := by
  unfold step at h
  split at h
  · exact Or.inl h
  · split at h
    · exact (mem_parent h).imp id Or.inr
    · exact (List.mem_append.mp h).imp id fun h => Or.inl (List.mem_singleton.mp h)

/-- A path that a text names is made of its parts, of points that lead up, and of the root. -/
theorem of_mem_ofText {text name : String} (h : name ∈ ofText text) :
    name ∈ parts text ∨ name = ".." ∨ name = "/" := by
  have hfold : ∀ (names : List String) (path : Path), name ∈ names.foldl step path →
      name ∈ path ∨ name ∈ names ∨ name = ".." := by
    intro names
    induction names with
    | nil => exact fun path h => Or.inl h
    | cons part names ih =>
      intro path h
      rcases ih (step path part) h with hstep | hnames | hparent
      · rcases mem_step hstep with hpath | rfl | hparent
        · exact Or.inl hpath
        · exact Or.inr (Or.inl List.mem_cons_self)
        · exact Or.inr (Or.inr hparent)
      · exact Or.inr (Or.inl (List.mem_cons_of_mem _ hnames))
      · exact Or.inr (Or.inr hparent)
  rcases hfold _ _ h with hstart | hpart | hparent
  · unfold start at hstart
    split at hstart
    · exact Or.inr (Or.inr (List.mem_singleton.mp hstart))
    · cases hstart
  · exact Or.inl hpart
  · exact Or.inr (Or.inl hparent)

end LayerBlend.Path
