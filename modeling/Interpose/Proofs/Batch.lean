import Interpose.Batch
import Interpose.Proofs.FileSystem

/-!
# What a batch leaves behind

A batch that writes into a directory keeps the names of the files.  So two files of one name from two
directories are written to the same place, and what the second one is woven to is all that is left.
Apart from that nothing is lost: the files that are read are not in that directory and stay as they
are, and each file that is written holds what the last file of its name was woven to.

## Main definitions

* `wovenContent` — what the content of a file is woven to
* `Batch.outputPlaces` — the places that targets are written to

## Main results

* `yields_weaveContainer`, `Batch.yields_runTarget` — what is read and written for one target
* `Batch.sameBut_of_mapM` — nothing changes but the files that are written
* `Batch.delivers_of_mapM` — each target is woven from what its file held before
* `Batch.read_outputOf_of_run` — what the written files hold
* `Batch.not_forall_read_outputOf` — files of one name are lost but for the last
-/

namespace Interpose

variable {fs fs' : FileSystem} {path input output root : String} {content : List UInt8}
  {o : WeavePolicy} {summary : PassSummary}

/-- What the content of a file is woven to, and what was done for it. -/
def wovenContent (o : WeavePolicy) (content : List UInt8) : Except Error (PassSummary × List UInt8) := do
  let (summary, m) ← woven o (← Module.decode content)
  return (summary, ← m.encode)

theorem Access.yields_readBytes : Yields (Access.readBytes path) fs content fs' ↔
    fs.read path = .ok content ∧ fs = fs' := by
  unfold Access.readBytes
  rw [yields_get_bind]
  cases fs.read path with
  | ok found => simp [yields_pure]
  | error problem => simp [yields_throw]

theorem Access.yields_writeBytes {u : Unit} : Yields (Access.writeBytes path content) fs u fs' ↔
    fs.write path content = .ok fs' := by
  unfold Access.writeBytes
  rw [yields_get_bind]
  cases fs.write path content with
  | ok written => simp [yields_set]
  | error problem => simp [yields_throw]

/-- What was read before is woven and written. -/
theorem yields_weaveContainer : Yields (weaveContainer o input output) fs summary fs' ↔
    ∃ content container, fs.read input = .ok content ∧
      wovenContent o content = .ok (summary, container) ∧ fs.write output container = .ok fs' := by
  simp only [weaveContainer, Access.readModule, Access.writeModule, wovenContent, yields_bind,
    yields_liftM, yields_pure, Access.yields_readBytes, Access.yields_writeBytes, bind_eq_ok_iff]
  constructor
  · rintro ⟨m, _, ⟨content, _, ⟨read, rfl⟩, decoded, rfl⟩, result, _, ⟨weaves, rfl⟩, _, _,
      ⟨container, _, ⟨encoded, rfl⟩, written⟩, rfl, rfl⟩
    exact ⟨content, container, read, ⟨m, decoded, result, weaves, container, encoded, rfl⟩, written⟩
  · rintro ⟨content, _, read, ⟨m, decoded, result, weaves, _, encoded, equal⟩, written⟩
    cases equal
    exact ⟨m, _, ⟨content, _, ⟨read, rfl⟩, decoded, rfl⟩, result, _, ⟨weaves, rfl⟩, (), _,
      ⟨_, _, ⟨encoded, rfl⟩, written⟩, rfl, rfl⟩

namespace Batch

variable {b : Batch} {target : BatchTarget} {targets : List BatchTarget}
  {result : String × PassSummary} {results : List (String × PassSummary)}

/-- The file of a target is read, woven and written to the output of the target. -/
theorem yields_runTarget : Yields (b.runTarget target) fs result fs' ↔
    ∃ content summary container, fs.read target.input = .ok content ∧
      wovenContent b.options content = .ok (summary, container) ∧
      fs.write (b.outputOf target) container = .ok fs' ∧ (b.outputOf target, summary) = result := by
  simp only [runTarget, yields_bind, yields_pure, yields_weaveContainer]
  constructor
  · rintro ⟨summary, _, ⟨content, container, read, weaves, written⟩, rfl, rfl⟩
    exact ⟨content, summary, container, read, weaves, written, rfl⟩
  · rintro ⟨content, summary, container, read, weaves, written, rfl⟩
    exact ⟨summary, _, ⟨content, container, read, weaves, written⟩, rfl, rfl⟩

/-- The places that some targets of a batch are written to. -/
def outputPlaces (b : Batch) (fs : FileSystem) (targets : List BatchTarget) : Set (List String) :=
  {place | ∃ target ∈ targets, ∃ here name,
    fs.Locates (b.outputOf target) here name ∧ here ++ [name] = place}

/-- Nothing changes but the files that are written. -/
theorem sameBut_of_mapM (run : Yields (targets.mapM b.runTarget) fs results fs') :
    fs.SameBut fs' (b.outputPlaces fs targets) := by
  induction targets generalizing fs results with
  | nil =>
    obtain ⟨-, rfl⟩ := yields_mapM_nil.mp run
    exact .refl fs _
  | cons target rest ih =>
    obtain ⟨result, fs₁, others, first, later, -⟩ := yields_mapM_cons.mp run
    obtain ⟨content, summary, container, -, -, written, -⟩ := yields_runTarget.mp first
    obtain ⟨here, name, located, rfl⟩ := FileSystem.write_eq_ok_iff.mp written
    have step := FileSystem.sameBut_put fs (here ++ [name]) container
    -- A write moves no path, so the later targets have the places that they have at the start.
    refine (step.trans (ih later)).mono ?_
    rintro place (rfl | ⟨other, member, here', name', located', rfl⟩)
    · exact ⟨target, List.mem_cons_self .., here, name, located, rfl⟩
    · exact ⟨other, List.mem_cons_of_mem _ member, here', name', step.locates_iff.mp located', rfl⟩

/-- A target without an output of its own is written to the directory of the batch, under the name of
the file that is read. -/
theorem fileName?_of_locates_outputOf {here : List String} {name : String}
    (into : b.outputDirectory = some root) (free : target.output = none)
    (located : fs.Locates (b.outputOf target) here name) :
    Path.fileName? target.input = some name ∧ fs.directory root = .ok here := by
  unfold outputOf at located
  rw [free, into] at located
  cases named : Path.fileName? target.input with
  | none =>
    rw [named] at located
    exact nomatch named.symm.trans located.fileName?
  | some last =>
    rw [named] at located
    obtain ⟨leads, rfl⟩ := located.of_join (Path.isName_of_fileName? named)
    exact ⟨rfl, leads⟩

/-- Targets of one name are written to the same file. -/
theorem outputOf_congr {other : BatchTarget} {name : String} (into : b.outputDirectory = some root)
    (free : target.output = none) (free' : other.output = none)
    (named : Path.fileName? target.input = some name)
    (same : Path.fileName? other.input = Path.fileName? target.input) :
    b.outputOf other = b.outputOf target := by
  unfold outputOf
  rw [free, free', into, same, named]

/-- No target is written to a file in another directory. -/
theorem not_mem_outputPlaces_of_not_isIn {here : List String} {name : String}
    (into : b.outputDirectory = some root) (free : ∀ target ∈ targets, target.output = none)
    (located : fs.Locates path here name) (apart : fs.isIn path root = false) :
    here ++ [name] ∉ b.outputPlaces fs targets := by
  rintro ⟨target, member, here', name', written, same⟩
  obtain ⟨-, leads⟩ := fileName?_of_locates_outputOf into (free target member) written
  obtain ⟨rfl, -⟩ := List.append_inj' same rfl
  rw [FileSystem.isIn_iff.mpr ⟨here', name, located.approach, leads⟩] at apart
  cases apart

/-- No target is written to a file of another name. -/
theorem not_mem_outputPlaces_of_fileName? {here : List String} {name : String}
    (into : b.outputDirectory = some root) (free : ∀ target ∈ targets, target.output = none)
    (differ : ∀ target ∈ targets, Path.fileName? target.input ≠ some name) :
    here ++ [name] ∉ b.outputPlaces fs targets := by
  rintro ⟨target, member, here', name', written, same⟩
  obtain ⟨named, -⟩ := fileName?_of_locates_outputOf into (free target member) written
  obtain ⟨-, equal⟩ := List.append_inj' same rfl
  exact differ target member (named.trans (congrArg some (List.singleton_inj.mp equal)))

/-- Each target of a run is woven from what its file held before the run, and the file that it is
written to holds the result unless a later target has the same name. -/
theorem delivers_of_mapM (into : b.outputDirectory = some root)
    (free : ∀ target ∈ targets, target.output = none)
    (apart : ∀ target ∈ targets, fs.isIn target.input root = false)
    (run : Yields (targets.mapM b.runTarget) fs results fs') {i : Nat}
    (at_ : targets[i]? = some target) :
    ∃ content summary container, fs.read target.input = .ok content ∧
      wovenContent b.options content = .ok (summary, container) ∧
      results[i]? = some (b.outputOf target, summary) ∧
      ((∀ j later, i < j → targets[j]? = some later →
          Path.fileName? later.input ≠ Path.fileName? target.input) →
        fs'.read (b.outputOf target) = .ok container) := by
  induction targets generalizing fs results i with
  | nil => cases at_
  | cons head rest ih =>
    obtain ⟨freeHead, freeRest⟩ := List.forall_mem_cons.mp free
    obtain ⟨apartHead, apartRest⟩ := List.forall_mem_cons.mp apart
    obtain ⟨result, fs₁, others, first, later, rfl⟩ := yields_mapM_cons.mp run
    obtain ⟨content, summary, container, read, weaves, written, rfl⟩ := yields_runTarget.mp first
    obtain ⟨here, name, located, put⟩ := FileSystem.write_eq_ok_iff.mp written
    have step : fs.SameBut fs₁ {here ++ [name]} := put ▸ fs.sameBut_put _ _
    cases i with
    | zero =>
      cases at_
      refine ⟨content, summary, container, read, weaves, rfl, fun last => ?_⟩
      obtain ⟨named, -⟩ := fileName?_of_locates_outputOf into freeHead located
      -- If no later target has this name, the rest of the run leaves the file alone.
      have kept : here ++ [name] ∉ b.outputPlaces fs₁ rest :=
        not_mem_outputPlaces_of_fileName? into freeRest fun target member => by
          obtain ⟨j, found⟩ := List.mem_iff_getElem?.mp member
          rw [← named]
          exact last (j + 1) target (Nat.succ_pos j) found
      rw [(sameBut_of_mapM later).read (step.locates_iff.mpr located) kept]
      exact FileSystem.read_of_write written
    | succ i =>
      have member : target ∈ rest := List.mem_of_getElem? at_
      have apart₁ : ∀ target ∈ rest, fs₁.isIn target.input root = false :=
        fun target member => step.isIn.trans (apartRest target member)
      obtain ⟨content', summary', container', read', weaves', found, holds⟩ :=
        ih freeRest apart₁ later at_
      obtain ⟨here', name', located', -⟩ := FileSystem.read_eq_ok_iff.mp read'
      have before := step.locates_iff.mp located'
      -- What a later target reads is in no directory that is written to, so it was there before.
      have outside : here' ++ [name'] ∉ ({here ++ [name]} : Set (List String)) := by
        intro same
        refine not_mem_outputPlaces_of_not_isIn into free before (apartRest target member) ?_
        exact ⟨head, List.mem_cons_self .., here, name, located, same.symm⟩
      exact ⟨content', summary', container', (step.read before outside).mp read', weaves', found,
        fun last => holds fun j target after found =>
          last (j + 1) target (Nat.succ_lt_succ after) found⟩

/-- Each target of a batch that writes into a directory, away from the files that are read, is woven
from what its own file held before.  Of the targets of one name, which are all written to one path, that
path holds what the last one is woven to; so no target is lost that no later target shares its name
with. -/
theorem read_outputOf_of_run (into : b.outputDirectory = some root)
    (free : ∀ target ∈ b.targets, target.output = none)
    (apart : ∀ target ∈ b.targets, fs.isIn target.input root = false)
    (run : Yields b.run fs results fs') {i : Nat} (at_ : b.targets[i]? = some target) :
    ∃ content summary container, fs.read target.input = .ok content ∧
      wovenContent b.options content = .ok (summary, container) ∧
      results[i]? = some (b.outputOf target, summary) ∧
      ((∀ j later, i < j → b.targets[j]? = some later →
          Path.fileName? later.input ≠ Path.fileName? target.input) →
        ∀ other ∈ b.targets, Path.fileName? other.input = Path.fileName? target.input →
          fs'.read (b.outputOf other) = .ok container) := by
  obtain ⟨content, summary, container, read, weaves, found, holds⟩ :=
    delivers_of_mapM into free apart run at_
  refine ⟨content, summary, container, read, weaves, found, fun last other member same => ?_⟩
  obtain ⟨_, _, located, -⟩ := FileSystem.read_eq_ok_iff.mp read
  rw [outputOf_congr into (free target (List.mem_of_getElem? at_)) (free other member)
    located.fileName? same]
  exact holds last

/-- The container of a module with a name of one letter and nothing in it. -/
def emptyContainer (letter : UInt8) : List UInt8 :=
  containerMagic ++ [1, 0, 0, 0] ++ [1, letter] ++ List.replicate 24 0

/-- Two directories with a file of one name in each, and an empty directory. -/
def namesakes : FileSystem :=
  { FileSystem.working [] ["a", "b", "out"] with
    files := [(["a", "m"], emptyContainer 0x41), (["b", "m"], emptyContainer 0x42),
      (["b", "n"], emptyContainer 0x43)] }

/-- Weaves three files, two of which have one name, into one directory. -/
def collecting : Batch where
  targets := [{ input := "a/m" }, { input := "b/m" }, { input := "b/n" }]
  outputDirectory := some "out"

theorem yields_collecting :
    Yields collecting.run namesakes [("out/m", {}), ("out/m", {}), ("out/n", {})]
      (collecting.run.run.run namesakes).2 :=
  Prod.ext (toOption_eq_some_iff.mp (by decide +kernel)) rfl

theorem read_outputOf_of_run_namesakes :
    (∀ target ∈ collecting.targets, target.output = none) ∧
    (∀ target ∈ collecting.targets, namesakes.isIn target.input "out" = false) ∧
    ∃ fs', Yields collecting.run namesakes [("out/m", {}), ("out/m", {}), ("out/n", {})] fs' ∧
      ∃ content summary container, namesakes.read "b/m" = .ok content ∧
        wovenContent collecting.options content = .ok (summary, container) ∧
        ∀ other ∈ collecting.targets, Path.fileName? other.input = some "m" →
          fs'.read (collecting.outputOf other) = .ok container := by
  have free : ∀ target ∈ collecting.targets, target.output = none := by decide
  have apart : ∀ target ∈ collecting.targets, namesakes.isIn target.input "out" = false := by
    decide +kernel
  refine ⟨free, apart, _, yields_collecting, ?_⟩
  obtain ⟨content, summary, container, read, weaves, -, holds⟩ :=
    read_outputOf_of_run rfl free apart yields_collecting
      (show collecting.targets[1]? = some { input := "b/m" } from rfl)
  have name : Path.fileName? "b/m" = some "m" := by decide +kernel
  refine ⟨content, summary, container, read, weaves, name ▸ holds fun j later after found => ?_⟩
  match j, after with
  | 2, _ =>
    cases found
    decide +kernel
  | j + 3, _ => cases found

/-- Files of one name are lost but for the last, although nothing that is read is written. -/
theorem not_forall_read_outputOf : ¬ ∀ (b : Batch) (root : String) (fs fs' : FileSystem)
    (results : List (String × PassSummary)), b.outputDirectory = some root →
    (∀ target ∈ b.targets, target.output = none) → (b.targets.map (·.input)).Nodup →
    (∀ target ∈ b.targets, fs.isIn target.input root = false) → Yields b.run fs results fs' →
    ∀ (i : Nat) (target : BatchTarget), b.targets[i]? = some target →
      ∃ content summary container path, fs.read target.input = .ok content ∧
        wovenContent b.options content = .ok (summary, container) ∧
        results[i]? = some (path, summary) ∧ fs'.read path = .ok container := by
  intro delivered
  obtain ⟨content, summary, container, path, read, weaves, found, holds⟩ :=
    delivered collecting "out" namesakes _ _ rfl (by decide) (by decide) (by decide +kernel)
      yields_collecting 0 { input := "a/m" } rfl
  cases found
  have first : (namesakes.read "a/m").toOption = some (emptyContainer 0x41) := by decide +kernel
  have kept : (wovenContent {} (emptyContainer 0x41)).toOption = some ({}, emptyContainer 0x41) := by
    decide +kernel
  have last : ((collecting.run.run.run namesakes).2.read "out/m").toOption =
      some (emptyContainer 0x42) := by decide +kernel
  rw [toOption_eq_some_iff] at first kept last
  cases read.symm.trans first
  cases weaves.symm.trans kept
  -- Weaving leaves both containers as they are, and the second of them is the one that is found.
  exact absurd (Except.ok.inj (holds.symm.trans last)) (by decide)

end Batch

end Interpose
