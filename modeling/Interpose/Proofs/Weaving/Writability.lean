import Interpose.Proofs.Weaving.Keeping
import Interpose.Proofs.Weaving.Relocation

/-!
# What a pass leaves can be written

Weaving adds local variables and composed types for the values of calls, and references to the
interception runtime.  All of these can be written if the module can, and no table gets more rows than
tokens can name.

## Main results

* `Module.Writable.keeps_addImports` — what scaffolds refer to can be written
* `Module.Writable.interceptCalls`, `Module.Writable.weavePending` — one method, and several
* `Module.Writable.weavePass` — a pass leaves a module that can be written
-/

namespace Interpose

/-- A table that can be written can be written with one more row. -/
theorem Write.defined_list_push {α : Type} {write : α → Write} {table : Array α} {a : α}
    (h : (Write.list write table.toList).Defined) (row : (write a).Defined)
    (few : table.size + 1 < numberLimit) : (Write.list write (table.push a).toList).Defined := by
  obtain ⟨-, rows⟩ := defined_list_iff.mp h
  rw [defined_list_iff, Array.length_toList, Array.size_push, Array.toList_push,
    List.forall_mem_append, List.forall_mem_singleton]
  exact ⟨few, rows, row⟩

theorem Allocate.keeps_newLocal {I : Module → Prop} {type : Ty} (h : type.encode.Defined) :
    (Allocate.newLocal type).Keeps (fun locals => (Write.list Ty.encode locals).Defined) I := by
  intro locals m number locals' m' yields before
  obtain ⟨small, -, rfl, rfl⟩ := yields_newLocal.mp yields
  have few : 0x10000 < Write.numberLimit := by decide
  exact ⟨Write.defined_list_push before.1 h (Nat.lt_of_le_of_lt small few), before.2⟩

private theorem defined_classType {name : String}
    (short : name.toUTF8.data.toList.length < Write.numberLimit) :
    (Ty.classType name).encode.Defined := by
  rw [Ty.encode]
  exact Write.defined_bind_pure_iff.mpr (Write.defined_utf8_iff.mpr short)

namespace Module.Writable

variable {m m' : Module} {o : WeavePolicy} {known : Option Imports} {token : Token}
  {finished tokens : List Token} {summary summary' : PassSummary}

/-- No table has more rows than a length can tell. -/
private theorem few_of_size_lt {size : Nat} (h : size < Edit.rowLimit) :
    size + 1 < Write.numberLimit := by
  have few : Edit.rowLimit < Write.numberLimit := by decide
  exact Nat.lt_of_le_of_lt h few

theorem keeps_insertTypeSpec {type : Ty} (h : type.encode.Defined) :
    (Edit.insertTypeSpec type).Keeps Writable :=
  Edit.keeps_insertTypeSpec fun _ small before => { before with
    typeSpecs := Write.defined_list_push before.typeSpecs h (few_of_size_lt small) }

theorem keeps_insertMemberRef {r : MemberRef} (h : r.encode.Defined) :
    (Edit.insertMemberRef r).Keeps Writable :=
  Edit.keeps_insertMemberRef fun _ small before => { before with
    memberRefs := Write.defined_list_push before.memberRefs h (few_of_size_lt small) }

theorem defined_encode_intrinsic (i : Intrinsic) : i.memberRef.encode.Defined := by
  have written : i.memberRef.encode.toOption.isSome = true := by
    cases i <;> decide +kernel
  obtain ⟨bytes, written⟩ := Option.isSome_iff_exists.mp written
  exact ⟨bytes, toOption_eq_some_iff.mp written⟩

/-- Importing what scaffolds refer to leaves a module that can be written. -/
theorem keeps_addImports : addImports.Keeps Writable :=
  Interpose.keeps_addImports (fun i => keeps_insertMemberRef (defined_encode_intrinsic i))
    (keeps_insertTypeSpec (defined_classType (by decide)))
    (keeps_insertTypeSpec (Write.defined_pure _))

/-- Intercepting the calls of a method leaves a module that can be written, if the sequence points of
the method are where instructions start. -/
theorem interceptCalls {count : Nat} (h : m.Writable)
    (starts : ∀ d, m.methodDefAt token = .ok d → ∀ b ∈ d.body, b.PointsStart)
    (wove : Yields (interceptCalls o known token) m count m') : m'.Writable := by
  obtain ⟨d, found, change⟩ := wovenBody_of_interceptCalls wove
  rcases change with ⟨-, rfl, -⟩ | ⟨body, entries, woven, m₁, hasBody, decoded, all, -, -, laid, set⟩
  · exact h
  -- Types come into the module from the methods that are called, whose declarations can be written.
  have sites (i : Instruction) (site : CallSite) (member : (i, some site) ∈ entries) :
      site.IsAt m i := CallSite.isAt_of_at? (all _ member)
  have types : ∀ entry ∈ entries, ∀ site ∈ entry.2, ∀ type ∈ site.target.mentioned,
      type.encode.Defined := by
    rintro ⟨i, _⟩ member site rfl
    obtain ⟨f, stands, target⟩ := (sites i site member).target_eq
    rw [target]
    exact Method.defined_closeDeclaring (h.mentioned_of_methodAt stands)
  obtain ⟨grown, imports, -, w, rfl, points, -⟩ := weave_of_wovenBody decoded sites laid
  have inside : d ∈ m.methods.toList := Array.mem_toList_iff.mpr (mem_of_row found)
  obtain ⟨written, orderly⟩ := h.methods.2 d inside
  have locals : (Write.list Ty.encode body.locals).Defined := by
    obtain ⟨-, -, -, few, -, mentioned⟩ := MethodDef.defined_encode_iff.mp written
    have same : d.withoutCode.locals = body.locals := by
      rw [MethodDef.locals, MethodDef.withoutCode, hasBody]
      rfl
    rw [same] at few
    refine Write.defined_list_iff.mpr ⟨few, fun type member => mentioned type ?_⟩
    exact List.mem_append_right _ (List.mem_cons_of_mem _ (same ▸ member))
  obtain ⟨h₁, locals⟩ := keeps_wovenBody (fun _ => keeps_insertTypeSpec)
    (fun _ => Allocate.keeps_newLocal) types (defined_classType (by decide)) locals laid h
  obtain ⟨d', found', rfl⟩ := yields_setBody.mp set
  rw [grown.methodDefAt] at found'
  obtain rfl := Except.ok.inj (found.symm.trans found')
  refine { h₁ with methods := ⟨?_, fun other member => ?_⟩ }
  · rw [Array.size_setIfInBounds]
    exact h₁.methods.1
  · rcases Array.mem_or_eq_of_mem_setIfInBounds (Array.mem_toList_iff.mp member) with member | rfl
    · exact h₁.methods.2 other (Array.mem_toList_iff.mpr member)
    · refine ⟨MethodDef.defined_withoutCode_with_body written locals, ?_⟩
      rintro b hasOther
      cases hasOther
      rw [points]
      exact w.orderly (starts d found body hasBody) (orderly body hasBody)

/-- Weaving the methods of a list leaves a module that can be written. -/
theorem weavePending (h : m.Writable) (distinct : tokens.Nodup)
    (starts : ∀ token ∈ tokens, ∀ d, m.methodDefAt token = .ok d → ∀ b ∈ d.body, b.PointsStart)
    (resolve : ∀ imports ∈ known, imports.Resolve m)
    (wove : Yields (weavePending o known finished tokens summary) m summary' m') : m'.Writable := by
  induction tokens generalizing m summary with
  | nil =>
    obtain ⟨-, rfl⟩ := yields_pure.mp wove
    exact h
  | cons first rest ih =>
    obtain ⟨fresh, distinct⟩ := List.nodup_cons.mp distinct
    obtain ⟨here, later⟩ := List.forall_mem_cons.mp starts
    unfold Interpose.weavePending at wove
    by_cases done : first ∈ finished
    · rw [if_pos done] at wove
      exact ih h distinct later resolve wove
    · rw [if_neg done] at wove
      obtain ⟨count, m₁, intercepted, wove⟩ := yields_bind.mp wove
      obtain ⟨grows, -, others, -⟩ := rewoven_of_interceptCalls resolve intercepted
      refine ih (h.interceptCalls here intercepted) distinct (fun token member d found => ?_)
        (fun imports known => (resolve imports known).grows grows) wove
      -- The methods of the rest are as they were.
      have other : token ≠ first := fun same => fresh (same ▸ member)
      exact later token member d ((others token other).symm.trans found)

/-- A pass leaves a module that can be written, apart from the sizes of bodies, if all sequence points
are where instructions start. -/
theorem weavePass (h : m.Writable) (small : m.methods.size ≤ Edit.rowLimit)
    (starts : ∀ d ∈ m.methods.toList, ∀ b ∈ d.body, b.PointsStart)
    (wove : Yields (weavePass o) m summary m') : m'.Writable := by
  obtain ⟨methods, known, m₁, m₂, weavable, imported, grown, resolve, pending, rfl⟩ :=
    phases_of_weavePass wove
  have h₁ : m₁.Writable := by
    rcases imported with rfl | ⟨imports, added⟩
    · exact h
    · exact keeps_addImports added h
  have distinct : methods.Nodup :=
    (Module.nodup_methodsWithTokens small).sublist (sublist_of_weavableMethods weavable)
  refine { h₁.weavePending distinct (fun token _ d found => starts d ?_) resolve pending with }
  rw [grown.methodDefAt] at found
  exact Array.mem_toList_iff.mpr (mem_of_row found)

end Module.Writable

end Interpose
