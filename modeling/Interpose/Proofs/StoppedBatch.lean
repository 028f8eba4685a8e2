import Interpose.Proofs.Batch

/-!
# Batches that stop

A target of a batch is read, woven and written out to bytes before any file changes, and then these bytes
go to its output at once.  So a target that fails changes nothing, and a batch that fails leaves what the
targets before the one that fails were woven to.  An output may be the input of a later target; what that
is woven from is what the earlier targets have left.

## Main definitions

* `Batch.prepared` — what the file of a target is woven to, or why it is not
* `Batch.After` — the file system after the first targets of a batch
* `Batch.Writable` — whatever a batch comes to write can be written

## Main results

* `Batch.runTarget_eq` — a target is prepared before it is written
* `Batch.fails_runTarget` — a target that fails changes nothing
* `Batch.After.fails_run_iff` — a batch goes on after its first targets
* `Batch.fails_run_iff` — where a batch fails, and with which error
* `Batch.stops_at_first_failure` — what a batch that fails leaves behind
-/

namespace Interpose

variable {fs fs' fs'' : FileSystem} {path : String} {content container : List UInt8} {e : Error}
  {summary : PassSummary}

theorem Access.readBytes_eq (path : String) :
    Access.readBytes path = (do liftM (((← get).read path).mapError Error.file)) := by
  unfold Access.readBytes
  refine congrArg (get >>= ·) (funext fun fs => ?_)
  cases fs.read path <;> rfl

theorem Access.fails_writeBytes : Fails (Access.writeBytes path content) fs e fs' ↔
    (∃ problem, fs.write path content = .error problem ∧ .file problem = e) ∧ fs = fs' := by
  unfold Access.writeBytes
  rw [fails_get_bind]
  cases fs.write path content with
  | ok written => simp [not_fails_set]
  | error problem => simp [fails_throw]

namespace Batch

variable {b : Batch} {target : BatchTarget} {result : String × PassSummary}
  {results : List (String × PassSummary)} {k i : Nat}

/-- What the file of a target is woven to and what was done for it, unless the file cannot be read, woven
or written out. -/
def prepared (b : Batch) (fs : FileSystem) (target : BatchTarget) :
    Except Error (PassSummary × List UInt8) := do
  wovenContent b.options (← (fs.read target.input).mapError .file)

/-- A target is prepared before it is written, and nothing is left to be done then. -/
theorem runTarget_eq (b : Batch) (target : BatchTarget) : b.runTarget target = (do
    let made ← b.prepared (← get) target
    Access.writeBytes (b.outputOf target) made.2
    return (b.outputOf target, made.1)) := by
  simp only [runTarget, weaveContainer, Access.readModule, Access.writeModule, Access.readBytes_eq,
    prepared, wovenContent, bind_assoc, pure_bind, liftM_bind, liftM_pure]

theorem yields_runTarget_iff : Yields (b.runTarget target) fs result fs' ↔
    ∃ summary container, b.prepared fs target = .ok (summary, container) ∧
      fs.write (b.outputOf target) container = .ok fs' ∧ (b.outputOf target, summary) = result := by
  rw [runTarget_eq, yields_get_bind, yields_liftM_bind]
  simp only [yields_bind, yields_pure, Access.yields_writeBytes, Prod.exists]
  constructor
  · rintro ⟨summary, container, made, -, _, written, rfl, rfl⟩
    exact ⟨summary, container, made, written, rfl⟩
  · rintro ⟨summary, container, made, written, rfl⟩
    exact ⟨summary, container, made, (), fs', written, rfl, rfl⟩

/-- A target that fails changes nothing. -/
theorem fails_runTarget : Fails (b.runTarget target) fs e fs' ↔
    (b.prepared fs target = .error e ∨
      ∃ summary container problem, b.prepared fs target = .ok (summary, container) ∧
        fs.write (b.outputOf target) container = .error problem ∧ .file problem = e) ∧ fs = fs' := by
  rw [runTarget_eq, fails_get_bind, fails_liftM_bind]
  simp only [fails_bind, not_fails_pure, Access.fails_writeBytes, and_false, exists_false, or_false,
    Prod.exists]
  constructor
  · rintro (⟨failed, rfl⟩ | ⟨summary, container, made, ⟨problem, refused, rfl⟩, rfl⟩)
    · exact ⟨.inl failed, rfl⟩
    · exact ⟨.inr ⟨summary, container, problem, made, refused, rfl⟩, rfl⟩
  · rintro ⟨failed | ⟨summary, container, problem, made, refused, rfl⟩, rfl⟩
    · exact .inl ⟨failed, rfl⟩
    · exact .inr ⟨summary, container, made, ⟨problem, refused, rfl⟩, rfl⟩

/-- The file system after the first so many targets of a batch, each of which was prepared from what the
ones before it have left and then written. -/
inductive After (b : Batch) (fs : FileSystem) : Nat → FileSystem → Prop
  | zero : After b fs 0 fs
  | succ {k : Nat} {fs' fs'' : FileSystem} {target : BatchTarget} {summary : PassSummary}
    {container : List UInt8} (before : After b fs k fs') (next : b.targets[k]? = some target)
    (made : b.prepared fs' target = .ok (summary, container))
    (written : fs'.write (b.outputOf target) container = .ok fs'') : After b fs (k + 1) fs''

/-- Whatever a batch comes to write can be written. -/
def Writable (b : Batch) (fs : FileSystem) : Prop :=
  ∀ k fs' target summary container, b.After fs k fs' → b.targets[k]? = some target →
    b.prepared fs' target = .ok (summary, container) →
    ∃ fs'', fs'.write (b.outputOf target) container = .ok fs''

namespace After

/-- The first targets are those that the batch weaves if it has no others. -/
theorem exists_yields (after : b.After fs k fs') :
    ∃ results, Yields { b with targets := b.targets.take k }.run fs results fs' := by
  induction after with
  | zero => exact ⟨[], yields_mapM_nil.mpr ⟨rfl, rfl⟩⟩
  | @succ k fs₁ fs₂ target summary container _ next made written ih =>
    obtain ⟨results, earlier⟩ := ih
    have last : Yields (b.runTarget target) fs₁ (b.outputOf target, summary) fs₂ :=
      yields_runTarget_iff.mpr ⟨summary, container, made, written, rfl⟩
    refine ⟨results ++ [(b.outputOf target, summary)], ?_⟩
    unfold run
    rw [List.take_add_one, next]
    exact earlier.mapM_concat last

/-- Each of the first targets was prepared from what the ones before it have left. -/
theorem exists_prepared (after : b.After fs k fs') (earlier : i < k) :
    ∃ fsᵢ target made, b.After fs i fsᵢ ∧ b.targets[i]? = some target ∧
      b.prepared fsᵢ target = .ok made := by
  induction after with
  | zero => cases earlier
  | @succ k fs₁ _ target _ _ before next made _ ih =>
    obtain here | rfl := Nat.lt_succ_iff_lt_or_eq.mp earlier
    · exact ih here
    · exact ⟨fs₁, target, _, before, next, made⟩

/-- Nothing has changed but the files that the first targets are written to. -/
theorem sameBut (after : b.After fs k fs') :
    fs.SameBut fs' (b.outputPlaces fs (b.targets.take k)) := by
  obtain ⟨results, run⟩ := after.exists_yields
  exact sameBut_of_mapM (b := b) run

/-- After its first targets a batch goes on with the others. -/
theorem fails_run_iff (after : b.After fs k fs') :
    Fails b.run fs e fs'' ↔ Fails ((b.targets.drop k).mapM b.runTarget) fs' e fs'' := by
  induction after with
  | zero => exact Iff.rfl
  | @succ k fs₁ fs₂ target summary container _ next made written ih =>
    have first : Yields (b.runTarget target) fs₁ (b.outputOf target, summary) fs₂ :=
      yields_runTarget_iff.mpr ⟨summary, container, made, written, rfl⟩
    rw [ih, List.drop_eq_getElem?_toList_append, next]
    refine fails_mapM_cons.trans ⟨?_, fun later => .inr ⟨_, fs₂, first, later⟩⟩
    rintro (failed | ⟨_, _, same, later⟩)
    · exact absurd failed first.not_fails
    · obtain ⟨-, rfl⟩ := first.unique same
      exact later

end After

/-- Some target is the one that fails when the rest of a batch does. -/
theorem exists_of_fails {rest : List BatchTarget} (after : b.After fs k fs')
    (remaining : b.targets.drop k = rest) (fails : Fails (rest.mapM b.runTarget) fs' e fs'') :
    ∃ i target, b.targets[i]? = some target ∧ b.After fs i fs'' ∧
      Fails (b.runTarget target) fs'' e fs'' := by
  -- The first target that is left fails, or else the batch goes on after it.
  induction rest generalizing k fs' with
  | nil => exact absurd fails not_fails_pure
  | cons target rest ih =>
    have next : b.targets[k]? = some target := by
      rw [← List.head?_drop, remaining, List.head?_cons]
    obtain failed | ⟨result, fs₁, first, later⟩ := fails_mapM_cons.mp fails
    · obtain ⟨-, rfl⟩ := fails_runTarget.mp failed
      exact ⟨k, target, next, after, failed⟩
    · obtain ⟨summary, container, made, written, -⟩ := yields_runTarget_iff.mp first
      refine ih (after.succ next made written) ?_ later
      rw [← List.tail_drop, remaining, List.tail_cons]

/-- A batch fails just if the first of its targets that cannot be prepared or written fails so. -/
theorem fails_run_iff : Fails b.run fs e fs' ↔
    ∃ k target, b.targets[k]? = some target ∧ b.After fs k fs' ∧
      (b.prepared fs' target = .error e ∨
        ∃ summary container problem, b.prepared fs' target = .ok (summary, container) ∧
          fs'.write (b.outputOf target) container = .error problem ∧ .file problem = e) := by
  constructor
  · intro fails
    obtain ⟨k, target, next, after, failed⟩ := exists_of_fails .zero rfl fails
    exact ⟨k, target, next, after, (fails_runTarget.mp failed).1⟩
  · rintro ⟨k, target, next, after, failed⟩
    rw [after.fails_run_iff, List.drop_eq_getElem?_toList_append, next]
    exact fails_mapM_cons.mpr (.inl (fails_runTarget.mpr ⟨failed, rfl⟩))

/-- Whatever a batch comes to write can be written if something can be written to each of its outputs at
the beginning. -/
theorem writable_of_write
    (writes : ∀ target ∈ b.targets, ∃ fs', fs.write (b.outputOf target) [] = .ok fs') :
    b.Writable fs := by
  intro k fs' target summary container after next _
  obtain ⟨_, written⟩ := writes target (List.mem_of_getElem? next)
  obtain ⟨here, name, located, -⟩ := FileSystem.write_eq_ok_iff.mp written
  -- No target that is woven before moves a path.
  exact ⟨_, FileSystem.write_eq_ok_iff.mpr ⟨here, name, after.sameBut.locates_iff.mpr located, rfl⟩⟩

/-- A batch whose writes succeed fails just if one of its targets cannot be read, woven or written out as
the ones before it have left its file, and the error is that of the first such target.  The file system is
then the one after the targets before it, as if the batch had no others: nothing has changed but the files
that these are written to. -/
theorem stops_at_first_failure (writable : b.Writable fs) : Fails b.run fs e fs' ↔
    ∃ k target, b.targets[k]? = some target ∧ b.prepared fs' target = .error e ∧
      b.After fs k fs' ∧
      (∀ i < k, ∃ fsᵢ earlier made, b.After fs i fsᵢ ∧ b.targets[i]? = some earlier ∧
        b.prepared fsᵢ earlier = .ok made) ∧
      (∃ results, Yields { b with targets := b.targets.take k }.run fs results fs') ∧
      fs.SameBut fs' (b.outputPlaces fs (b.targets.take k)) := by
  rw [fails_run_iff]
  constructor
  · rintro ⟨k, target, next, after, failed | ⟨summary, container, problem, made, refused, -⟩⟩
    · exact ⟨k, target, next, failed, after, fun i earlier => after.exists_prepared earlier,
        after.exists_yields, after.sameBut⟩
    -- The target that fails was not refused by its output.
    · obtain ⟨fs'', written⟩ := writable k fs' target summary container after next made
      cases refused.symm.trans written
  · rintro ⟨k, target, next, failed, after, -⟩
    exact ⟨k, target, next, after, .inl failed⟩

/-- Weaves a file, then what that was woven to, then a file that is not there, and then the first file. -/
def interrupted : Batch where
  targets := [{ input := "a/m", output := some "b/n" }, { input := "b/n", output := some "out/m" },
    { input := "a/x", output := some "a/m" }, { input := "a/m" }]

theorem fails_interrupted :
    Fails interrupted.run namesakes (.file .notFound) (interrupted.run.run.run namesakes).2 :=
  fails_of_error (by decide +kernel)

theorem stops_at_first_failure_interrupted :
    interrupted.Writable namesakes ∧ ∃ fs', Fails interrupted.run namesakes (.file .notFound) fs' ∧
    ∃ k target, interrupted.targets[k]? = some target ∧
      interrupted.prepared fs' target = .error (.file .notFound) ∧
      interrupted.After namesakes k fs' := by
  have writable : interrupted.Writable namesakes := by
    have writes : ∀ target ∈ interrupted.targets,
        (namesakes.write (interrupted.outputOf target) []).toOption.isSome = true := by
      decide +kernel
    refine writable_of_write fun target member => ?_
    obtain ⟨fs', written⟩ := Option.isSome_iff_exists.mp (writes target member)
    exact ⟨fs', toOption_eq_some_iff.mp written⟩
  obtain ⟨k, target, next, failed, after, -⟩ :=
    (stops_at_first_failure writable).mp fails_interrupted
  exact ⟨writable, _, fails_interrupted, k, target, next, failed, after⟩

end Batch

end Interpose
