import Interpose.FileSystem
import Interpose.Proofs.Outcome
import Mathlib.Data.Set.Insert

/-!
# Files after they are written

What is written through a path is read through every path that leads to the same place, and all other
places stay as they were.  Where a path leads depends on the directories only, so no write moves it.

## Main definitions

* `FileSystem.directory` — the directory that a path leads to
* `FileSystem.isIn` — whether the file that a path leads to is in a directory
* `FileSystem.Locates` — a path can be used for the file at a place
* `FileSystem.SameBut` — two file systems that differ at some places only

## Main results

* `Path.steps_join` — the steps of the path of a file in a directory
* `FileSystem.read_eq_ok_iff`, `FileSystem.write_eq_ok_iff` — when files are read and written
* `FileSystem.Locates.of_join` — where the path of a file in a directory leads
* `FileSystem.SameBut.read` — files at other places are read as before
-/

namespace Interpose

namespace Path

theorem pieces_ne_nil (chars : List Char) : pieces chars ≠ [] := by
  cases chars with
  | nil => simp [pieces]
  | cons c rest =>
    unfold pieces
    split
    · simp
    · split <;> simp

theorem pieces_append_slash (front back : List Char) :
    pieces (front ++ '/' :: back) = pieces front ++ pieces back := by
  induction front with
  | nil =>
    obtain ⟨piece, others, parts⟩ := List.exists_cons_of_ne_nil (pieces_ne_nil back)
    simp [pieces, parts]
  | cons c front ih =>
    obtain ⟨piece, others, parts⟩ := List.exists_cons_of_ne_nil (pieces_ne_nil front)
    rw [List.cons_append, pieces, ih, pieces, parts]
    dsimp only [List.cons_append]
    split <;> rfl

theorem not_mem_of_mem_pieces {chars piece : List Char} (member : piece ∈ pieces chars) :
    '/' ∉ piece := by
  induction chars generalizing piece with
  | nil =>
    rw [pieces, List.mem_singleton] at member
    simp [member]
  | cons c rest ih =>
    obtain ⟨first, others, parts⟩ := List.exists_cons_of_ne_nil (pieces_ne_nil rest)
    rw [pieces, parts] at member
    dsimp only at member
    rw [parts] at ih
    split at member
    · rcases List.mem_cons.mp member with rfl | earlier
      · exact List.not_mem_nil
      · exact ih earlier
    · rename_i plain
      rcases List.mem_cons.mp member with rfl | earlier
      · have inside := ih (List.mem_cons_self ..)
        rw [List.mem_cons, not_or]
        exact ⟨fun equal => plain equal.symm, inside⟩
      · exact ih (List.mem_cons_of_mem _ earlier)

theorem pieces_of_not_mem {chars : List Char} (plain : '/' ∉ chars) : pieces chars = [chars] := by
  induction chars with
  | nil => rfl
  | cons c rest ih =>
    rw [List.mem_cons, not_or] at plain
    rw [pieces, ih plain.2]
    exact if_neg fun slash => plain.1 slash.symm

/-- A name that a file can have: it is one step, and that step goes to a name. -/
structure IsName (name : String) : Prop where
  nonempty : name ≠ ""
  plain : '/' ∉ name.toList
  notHere : name ≠ "."
  notParent : name ≠ ".."

theorem isName_of_mem_steps {path name : String} (member : name ∈ steps path) (notHere : name ≠ ".")
    (notParent : name ≠ "..") : IsName name := by
  obtain ⟨piece, kept, rfl⟩ := List.mem_map.mp member
  obtain ⟨isPiece, nonempty⟩ := List.mem_filter.mp kept
  refine ⟨fun empty => of_decide_eq_true nonempty (by simpa using empty), ?_, notHere, notParent⟩
  rw [String.toList_ofList]
  exact not_mem_of_mem_pieces isPiece

theorem IsName.steps {name : String} (h : IsName name) : steps name = [name] := by
  have nonempty : name.toList ≠ [] := by simpa using h.nonempty
  simp [Path.steps, pieces_of_not_mem h.plain, nonempty]

theorem IsName.not_absolute {name : String} (h : IsName name) : isAbsolute name = false := by
  apply decide_eq_false
  intro first
  exact h.plain (List.mem_of_mem_head? first)

theorem endsWith_slash_iff {path : String} :
    path.endsWith "/" = true ↔ ∃ front, path.toList = front ++ ['/'] := by
  rw [String.endsWith_eq_endsWith_toSlice, String.Slice.endsWith_string_iff, String.copy_toSlice]
  constructor
  · rintro ⟨front, parts⟩
    exact ⟨front, parts.symm⟩
  · rintro ⟨front, parts⟩
    exact ⟨front, parts.symm⟩

/-- The steps of a path in a directory are those of the directory and then those of the path. -/
theorem steps_join (directory name : String) :
    steps (join directory name) = steps directory ++ steps name := by
  have nothing : pieces [] = [[]] := rfl
  unfold join
  -- The three ways in which a path is put behind a directory differ in slashes only.
  split
  case isTrue empty =>
    subst empty
    rfl
  case isFalse =>
    split
    case isTrue slash =>
      obtain ⟨front, parts⟩ := endsWith_slash_iff.mp slash
      simp [steps, parts, pieces_append_slash, nothing]
    case isFalse =>
      have separated : (directory ++ "/" ++ name).toList = directory.toList ++ '/' :: name.toList := by
        simp [String.toList_append]
      simp [steps, separated, pieces_append_slash]

theorem isAbsolute_join {directory name : String} (h : IsName name) :
    isAbsolute (join directory name) = isAbsolute directory := by
  unfold join
  split
  case isTrue empty =>
    subst empty
    exact h.not_absolute
  case isFalse nonempty =>
    obtain ⟨c, rest, parts⟩ := List.exists_cons_of_ne_nil (l := directory.toList) (by simpa using nonempty)
    split <;> simp [isAbsolute, String.toList_append, parts]

/-- The last step of a path is the name of its file, if it is a name at all. -/
theorem fileName?_of_getLast? {path name : String} (last : (steps path).getLast? = some name)
    (notHere : name ≠ ".") (notParent : name ≠ "..") : fileName? path = some name := by
  obtain ⟨front, parts⟩ := List.getLast?_eq_some_iff.mp last
  have kept : ((steps path).filter (· ≠ ".")).getLast? = some name := by
    rw [parts, List.filter_append, List.filter_cons_of_pos (by simpa using notHere), List.filter_nil,
      List.getLast?_concat]
  unfold fileName?
  rw [kept]
  split
  · rename_i equal
    exact absurd (Option.some.inj equal) notParent
  · rfl

theorem isName_of_fileName? {path name : String} (h : fileName? path = some name) : IsName name := by
  unfold fileName? at h
  split at h
  · cases h
  · rename_i upward
    obtain ⟨member, notHere⟩ := List.mem_filter.mp (List.mem_of_getLast? h)
    refine isName_of_mem_steps member (by simpa using notHere) fun equal => upward ?_
    rw [h, equal]

end Path

namespace FileSystem

variable {fs fs' fs'' : FileSystem} {path path' root name name' : String} {here here' : List String}
  {content content' : List UInt8} {places places' : Set (List String)}

/-- The directory that a path leads to. -/
def directory (fs : FileSystem) (path : String) : Except FileProblem (List String) :=
  (Path.steps path).foldlM fs.enter (if Path.isAbsolute path then [] else fs.current)

/-- Whether the file that a path leads to is in a directory. -/
def isIn (fs : FileSystem) (path root : String) : Bool :=
  match fs.approach path, fs.directory root with
  | .ok (some (here, _)), .ok place => here = place
  | _, _ => false

theorem isIn_iff : fs.isIn path root = true ↔
    ∃ here name, fs.approach path = .ok (some (here, name)) ∧ fs.directory root = .ok here := by
  unfold isIn
  split
  · rename_i here name place approached leads
    rw [decide_eq_true_eq]
    constructor
    · rintro rfl
      exact ⟨here, name, approached, leads⟩
    · rintro ⟨_, _, approached', leads'⟩
      have same := approached.symm.trans approached'
      simp only [Except.ok.injEq, Option.some.injEq, Prod.mk.injEq] at same
      exact same.1.trans (Except.ok.inj (leads'.symm.trans leads))
  · rename_i none_
    constructor
    · nofun
    · rintro ⟨here, name, approached, leads⟩
      exact (none_ here name here approached leads).elim

/-- A path can be used for the file of a name in a directory: it leads there, the name is not too long,
and there is no directory in the place of the file. -/
structure Locates (fs : FileSystem) (path : String) (here : List String) (name : String) : Prop where
  approach : fs.approach path = .ok (some (here, name))
  named : Path.checkName name = .ok ()
  free : fs.isDirectory (here ++ [name]) = false
  bare : Path.endsInSlash path = false

theorem Locates.unique (h : fs.Locates path here name) (h' : fs.Locates path here' name') :
    here = here' ∧ name = name' := by
  have same := h.approach.symm.trans h'.approach
  simpa using same

/-- A file is read just if the path can be used for it and it exists. -/
theorem read_eq_ok_iff : fs.read path = .ok content ↔
    ∃ here name, fs.Locates path here name ∧ fs.content? (here ++ [name]) = some content := by
  unfold read
  rw [bind_eq_ok_iff]
  constructor
  · rintro ⟨_ | ⟨here, name⟩, approached, reads⟩
    · cases reads
    · obtain ⟨_, named, reads⟩ := bind_eq_ok_iff.mp reads
      obtain ⟨free, reads⟩ := guard_eq_ok_iff.mp reads
      split at reads
      · cases reads
      · rename_i found
        obtain ⟨bare, reads⟩ := guard_eq_ok_iff.mp reads
        cases reads
        exact ⟨here, name, ⟨approached, named, by simpa using free, by simpa using bare⟩, found⟩
  · rintro ⟨here, name, located, found⟩
    refine ⟨_, located.approach, bind_eq_ok_iff.mpr ⟨(), located.named, ?_⟩⟩
    rw [guard_eq_ok_iff, found]
    exact ⟨by simp [located.free], guard_eq_ok_iff.mpr ⟨by simp [located.bare], rfl⟩⟩

/-- A file is written just if the path can be used for it. -/
theorem write_eq_ok_iff : fs.write path content = .ok fs' ↔
    ∃ here name, fs.Locates path here name ∧
      { fs with files := put fs.files (here ++ [name]) content } = fs' := by
  unfold write
  rw [bind_eq_ok_iff]
  constructor
  · rintro ⟨_ | ⟨here, name⟩, approached, writes⟩
    · cases writes
    · obtain ⟨bare, writes⟩ := guard_eq_ok_iff.mp writes
      obtain ⟨_, named, writes⟩ := bind_eq_ok_iff.mp writes
      obtain ⟨free, writes⟩ := guard_eq_ok_iff.mp writes
      cases writes
      exact ⟨here, name, ⟨approached, named, by simpa using free, by simpa using bare⟩, rfl⟩
  · rintro ⟨here, name, located, rfl⟩
    refine ⟨_, located.approach, guard_eq_ok_iff.mpr ⟨by simp [located.bare], ?_⟩⟩
    exact bind_eq_ok_iff.mpr ⟨(), located.named, guard_eq_ok_iff.mpr ⟨by simp [located.free], rfl⟩⟩

theorem lookup_put (files : List (List String × List UInt8)) (place other : List String) :
    (put files place content).lookup other = if other = place then some content else files.lookup other := by
  -- The content that a place had is dropped, but nothing that is found anywhere else.
  have kept : other ≠ place →
      (files.filter fun file => decide (file.1 ≠ place)).lookup other = files.lookup other := by
    intro differ
    induction files with
    | nil => rfl
    | cons file files ih =>
      obtain ⟨at_, inside⟩ := file
      by_cases replaced : at_ = place
      · have elsewhere : (other == at_) = false := by simpa [replaced] using differ
        rw [List.filter_cons_of_neg (by simpa using replaced), List.lookup_cons, elsewhere, ih]
      · rw [List.filter_cons_of_pos (by simpa using replaced), List.lookup_cons, List.lookup_cons, ih]
  unfold put
  rw [List.lookup_cons]
  by_cases same : other = place
  · simp [same]
  · have differ : (other == place) = false := by simpa using same
    rw [differ, if_neg same, ← kept same]

/-! ### Paths of files in directories -/

theorem approach_join (isName : Path.IsName name) :
    fs.approach (Path.join root name) = (do
      Path.check (Path.join root name)
      let here ← fs.directory root
      return some (here, name)) := by
  have steps : Path.steps (Path.join root name) = Path.steps root ++ [name] := by
    rw [Path.steps_join, isName.steps]
  have notHere := isName.notHere
  have notParent := isName.notParent
  unfold approach directory
  -- The name is no dot, so the last step is taken as it is.
  simp only [steps, Path.isAbsolute_join isName, List.dropLast_concat, List.getLast?_concat]

/-- The path of a file in a directory leads to the file of that name in that directory. -/
theorem Locates.of_join (isName : Path.IsName name) (h : fs.Locates (Path.join root name) here name') :
    fs.directory root = .ok here ∧ name' = name := by
  have approached := h.approach
  rw [approach_join isName] at approached
  obtain ⟨_, -, approached⟩ := bind_eq_ok_iff.mp approached
  obtain ⟨place, leads, equal⟩ := bind_eq_ok_iff.mp approached
  cases equal
  exact ⟨leads, rfl⟩

/-- A path that can be used for a file ends in the name of the file. -/
theorem Locates.fileName? (h : fs.Locates path here name) : Path.fileName? path = some name := by
  have approached := h.approach
  unfold FileSystem.approach at approached
  obtain ⟨_, -, approached⟩ := bind_eq_ok_iff.mp approached
  obtain ⟨place, -, approached⟩ := bind_eq_ok_iff.mp approached
  split at approached
  · cases approached
  · cases approached
  · cases approached
  · rename_i step notHere notParent last
    cases approached
    refine Path.fileName?_of_getLast? last (fun equal => ?_) fun equal => ?_
    · exact notHere equal
    · exact notParent equal

/-! ### Changes of files -/

/-- Two file systems with the same directories, and with the same files but in the given places. -/
structure SameBut (fs fs' : FileSystem) (places : Set (List String)) : Prop where
  current : fs'.current = fs.current
  directories : fs'.directories = fs.directories
  content? : ∀ place ∉ places, fs'.content? place = fs.content? place

namespace SameBut

theorem refl (fs : FileSystem) (places : Set (List String)) : fs.SameBut fs places :=
  ⟨rfl, rfl, fun _ _ => rfl⟩

theorem trans (h : fs.SameBut fs' places) (h' : fs'.SameBut fs'' places') :
    fs.SameBut fs'' (places ∪ places') where
  current := h'.current.trans h.current
  directories := h'.directories.trans h.directories
  content? place outside := by
    rw [Set.mem_union, not_or] at outside
    rw [h'.content? place outside.2, h.content? place outside.1]

theorem mono (h : fs.SameBut fs' places) (wider : places ⊆ places') : fs.SameBut fs' places' :=
  ⟨h.current, h.directories, fun place outside => h.content? place fun inside => outside (wider inside)⟩

theorem isDirectory (h : fs.SameBut fs' places) (place : List String) :
    fs'.isDirectory place = fs.isDirectory place := by
  unfold FileSystem.isDirectory
  rw [h.directories]

/-- A step that leads to a directory leads there still.  A step that does not may fail in another way
now, as there may be a file where nothing was. -/
theorem enter_eq_ok_iff (h : fs.SameBut fs' places) {step : String} :
    fs'.enter here step = .ok here' ↔ fs.enter here step = .ok here' := by
  -- Only the kind of a failure depends on the files.
  have failing : ∀ (fs : FileSystem) (place : List String),
      (do if (fs.content? place).isSome then throw .notADirectory
          throw .notFound : Except FileProblem (List String)) ≠ .ok here' := by
    intro fs place
    split <;> nofun
  unfold enter
  split
  · rfl
  split
  · rfl
  rw [bind_eq_ok_iff, bind_eq_ok_iff]
  refine exists_congr fun _ => and_congr_right fun _ => ?_
  dsimp only
  rw [h.isDirectory]
  split
  · rfl
  · exact iff_of_false (failing _ _) (failing _ _)

theorem foldlM_enter (h : fs.SameBut fs' places) {steps : List String} :
    steps.foldlM fs'.enter here = .ok here' ↔ steps.foldlM fs.enter here = .ok here' := by
  induction steps generalizing here with
  | nil => rfl
  | cons step steps ih => simp only [List.foldlM_cons, bind_eq_ok_iff, h.enter_eq_ok_iff, ih]

theorem directory_eq_ok_iff (h : fs.SameBut fs' places) :
    fs'.directory root = .ok here ↔ fs.directory root = .ok here := by
  unfold directory
  rw [h.current, h.foldlM_enter]

theorem approach_eq_ok_iff (h : fs.SameBut fs' places) {result : Option (List String × String)} :
    fs'.approach path = .ok result ↔ fs.approach path = .ok result := by
  unfold approach
  simp only [bind_eq_ok_iff, h.current, h.foldlM_enter]

theorem isIn (h : fs.SameBut fs' places) : fs'.isIn path root = fs.isIn path root := by
  rw [Bool.eq_iff_iff, isIn_iff, isIn_iff]
  simp only [h.approach_eq_ok_iff, h.directory_eq_ok_iff]

theorem locates_iff (h : fs.SameBut fs' places) :
    fs'.Locates path here name ↔ fs.Locates path here name := by
  constructor
  · rintro ⟨approach, named, free, bare⟩
    exact ⟨h.approach_eq_ok_iff.mp approach, named, h.isDirectory _ ▸ free, bare⟩
  · rintro ⟨approach, named, free, bare⟩
    exact ⟨h.approach_eq_ok_iff.mpr approach, named, h.isDirectory _ ▸ free, bare⟩

/-- A file elsewhere is read as before. -/
theorem read (h : fs.SameBut fs' places) (located : fs.Locates path here name)
    (outside : here ++ [name] ∉ places) : fs'.read path = .ok content ↔ fs.read path = .ok content := by
  rw [read_eq_ok_iff, read_eq_ok_iff]
  simp only [h.locates_iff]
  constructor
  · rintro ⟨_, _, other, found⟩
    obtain ⟨rfl, rfl⟩ := located.unique other
    exact ⟨_, _, other, h.content? _ outside ▸ found⟩
  · rintro ⟨_, _, other, found⟩
    obtain ⟨rfl, rfl⟩ := located.unique other
    exact ⟨_, _, other, (h.content? _ outside).trans found⟩

end SameBut

/-- Writing a file changes that file only. -/
theorem sameBut_put (fs : FileSystem) (place : List String) (content : List UInt8) :
    fs.SameBut { fs with files := put fs.files place content } {place} where
  current := rfl
  directories := rfl
  content? other outside := by
    rw [Set.mem_singleton_iff] at outside
    unfold content?
    rw [lookup_put, if_neg outside]

/-- What is written is read again through the same path. -/
theorem read_of_write (h : fs.write path content = .ok fs') : fs'.read path = .ok content := by
  obtain ⟨here, name, located, rfl⟩ := write_eq_ok_iff.mp h
  refine read_eq_ok_iff.mpr ⟨here, name, (sameBut_put fs _ content).locates_iff.mpr located, ?_⟩
  unfold content?
  rw [lookup_put, if_pos rfl]

end FileSystem

end Interpose
