import Interpose.Proofs.Machine.Heights
import Interpose.Proofs.Weaving.Opening

/-!
# The height of the stack in scaffolds

How high the stack is at each place of a prologue and of a scaffold, given how high it is in front of
it.  The prologue needs room for seven values.  A scaffold has room for ten on top of what the values
of a call lie on: the substitute, the first five values of a context, the array of the arguments, the
array again, an index, and an element.

## Main results

* `uses_intrinsic`, `uses_withToken`, `uses_ldloc` and others — items
* `rises_makeContext`, `rises_preparation`, `rises_askMap` and others — parts without branches
* `SiteLayout.IsAt.safeFrom` — a scaffold
* `Weave.safeFrom_opening` — the prologue
-/

namespace Interpose

section Items

variable {m : Machine} {imports : Imports} {host : Host}

theorem ListingItem.Uses.of_operation {item : ListingItem} {op : Opcode} {operand : Option Operand}
    {takes puts : Nat} (read : item.operation? = some (op, operand))
    (does : op.isBranch = false ∧ op.stackUse? = some ⟨takes, puts⟩) : item.Uses m takes puts where
  isLabel_eq := by
    cases item with
    | label => cases read
    | _ => rfl
  use {labels offset i} placed := by
    rw [ListingItem.instruction?_of_operation read] at placed
    obtain rfl := Option.some.inj placed
    exact ⟨does.1, fun _ => Machine.stackUse_of_stackUse? does.2⟩

/-- An operation on a numbered variable has one of three forms. -/
theorem ListingItem.Uses.of_indexForm {item : ListingItem} {implied : List Opcode}
    {short long : Opcode} {operand : UInt16 → Operand} {index : UInt16} {takes puts : Nat}
    (read : item.operation? = some (indexForm implied short long operand index))
    (does : ∀ op ∈ short :: long :: implied,
      op.isBranch = false ∧ op.stackUse? = some ⟨takes, puts⟩) : item.Uses m takes puts := by
  refine .of_operation read (does _ ?_)
  split
  case h_1 found => simp [List.mem_of_getElem? found]
  case h_2 => split <;> simp

theorem uses_ldarg (n : UInt16) : (ListingItem.ldarg n).Uses m 0 1 := .of_indexForm rfl (by decide)

theorem uses_ldloc (n : UInt16) : (ListingItem.ldloc n).Uses m 0 1 := .of_indexForm rfl (by decide)

theorem uses_stloc (n : UInt16) : (ListingItem.stloc n).Uses m 1 0 := .of_indexForm rfl (by decide)

theorem uses_int32 (value : Int32) : (ListingItem.int32 value).Uses m 0 1 := by
  have does : ∀ op ∈ Opcode.ldcI4S :: .ldcI4 :: impliedConstants,
      op.isBranch = false ∧ op.stackUse? = some ⟨0, 1⟩ := by decide
  refine .of_operation rfl (does _ ?_)
  split
  case h_1 found => simp [List.mem_of_find?_eq_some found]
  case h_2 => split <;> simp

theorem uses_plain {op : Opcode} (takes puts : Nat)
    (does : op.isBranch = false ∧ op.stackUse? = some ⟨takes, puts⟩) :
    (ListingItem.plain op).Uses m takes puts := .of_operation rfl does

theorem uses_withToken {op : Opcode} {token : Token} (takes puts : Nat)
    (does : op.isBranch = false ∧ op.stackUse? = some ⟨takes, puts⟩) :
    (ListingItem.withToken op token).Uses m takes puts := .of_operation rfl does

theorem uses_loadSelf : host.loadSelf.Uses m 0 1 := by
  unfold Host.loadSelf
  split
  · exact uses_ldarg 0
  · exact uses_plain 0 1 (by decide)

/-- The method that an instruction calls by the token of an intrinsic. -/
theorem called?_intrinsic (resolve : imports.Resolve m.module) (i : Intrinsic) (f : Frame)
    {instruction : Instruction} (named : instruction.token? = some (imports.intrinsic i)) :
    m.called? f instruction = some i.method := by
  rw [Machine.called?, named, Option.bind_some, methodAt_of_memberRefAt (resolve.intrinsic i)]
  show some (f.callee (imports.intrinsic i) i.method) = some i.method
  rw [Frame.callee, isIn_methodDef_of_memberRefAt (resolve.intrinsic i), if_neg Bool.false_ne_true,
    closeDeclaring_intrinsic, closeCall_intrinsic]

/-- An item that calls an intrinsic uses the stack as the intrinsic asks for. -/
theorem uses_intrinsic (resolve : imports.Resolve m.module) (i : Intrinsic) {op : Opcode}
    (takes puts : Nat) (calls : op = .call ∨ op = .callvirt) (does : i.method.callUse = ⟨takes, puts⟩) :
    (ListingItem.withToken op (imports.intrinsic i)).Uses m takes puts where
  isLabel_eq := rfl
  use {labels offset instruction} placed := by
    rw [ListingItem.instruction?_of_operation rfl, Option.some.injEq] at placed
    have named : instruction.token? = some (imports.intrinsic i) := by
      rcases calls with rfl | rfl <;> exact placed ▸ rfl
    rw [← does]
    rcases calls with rfl | rfl <;> subst placed <;> refine ⟨rfl, fun f => ?_⟩ <;>
      exact congrArg (fun found => (Option.map Method.callUse found).getD ⟨0, 0⟩)
        (called?_intrinsic resolve i f named)

theorem uses_newContext (resolve : imports.Resolve m.module) :
    (ListingItem.withToken .newobj (imports.intrinsic .newContext)).Uses m 6 1 where
  isLabel_eq := rfl
  use {labels offset instruction} placed := by
    rw [ListingItem.instruction?_of_operation rfl, Option.some.injEq] at placed
    subst placed
    exact ⟨rfl, fun f => congrArg (fun found => (Option.map Method.creationUse found).getD ⟨0, 0⟩)
      (called?_intrinsic resolve .newContext f rfl)⟩

end Items

section Parts

variable {m : Machine} {imports : Imports} {host : Host} {layout : SiteLayout} {limit height : Nat}

theorem rises_quoteMethod (resolve : imports.Resolve m.module) (token : Token)
    (room : height < limit) : Rises m limit (imports.quoteMethod token) height (height + 1) :=
  .cons (uses_withToken 0 1 (by decide)) rfl (fun _ => room) <|
    .cons (uses_intrinsic resolve .getMethodFromHandle 1 1 (.inl rfl) rfl) rfl (fun _ => room) (.nil _)

theorem rises_loadObject (slot : Slot) (room : height < limit) :
    Rises m limit slot.loadObject height (height + 1) := by
  refine .cons (uses_ldloc _) rfl (fun _ => room) ?_
  cases slot.box with
  | none => exact .nil _
  | some token => exact .cons (uses_withToken 1 1 (by decide)) rfl (fun _ => room) (.nil _)

theorem rises_loadArgument (slot : Slot) (room : height < limit) :
    Rises m limit slot.loadArgument height (height + 1) := by
  unfold Slot.loadArgument
  split
  · exact .cons (uses_plain 0 1 (by decide)) rfl (fun _ => room) (.nil _)
  · exact rises_loadObject slot room

/-- Each element is loaded on top of the array, the array again and the index. -/
theorem rises_fillFrom {elements : List (List ListingItem)}
    (loads : ∀ load ∈ elements, Rises m limit load (height + 3) (height + 4))
    (room : height + 2 < limit) (index : Nat) :
    Rises m limit (fillFrom index elements) (height + 1) (height + 1) := by
  induction elements generalizing index with
  | nil => exact .nil _
  | cons load rest ih =>
    obtain ⟨first, others⟩ := List.forall_mem_cons.mp loads
    refine .cons (uses_plain 0 1 (by decide)) rfl (fun _ => Nat.lt_of_succ_lt room) ?_
    refine .cons (uses_int32 _) rfl (fun _ => room) ?_
    refine (first.append ?_).append (ih others (index + 1))
    exact .cons (uses_plain 3 0 (by decide)) rfl nofun (.nil _)

/-- While an array is made, there are three values more below the element that is loaded. -/
theorem rises_makeArray {elements : List (List ListingItem)} (element : Token)
    (loads : ∀ load ∈ elements, Rises m limit load (height + 3) (height + 4))
    (room : height + 2 < limit) :
    Rises m limit (makeArray element elements) height (height + 1) := by
  rw [makeArray, fillArray_eq_fillFrom]
  refine .cons (uses_int32 _) rfl (fun _ => by omega) ?_
  refine .cons (uses_withToken 1 1 (by decide)) rfl (fun _ => by omega) ?_
  exact rises_fillFrom loads room 0

theorem rises_makeContext (resolve : imports.Resolve m.module) (room : height + 8 < limit) :
    Rises m limit (layout.makeContext imports host) height (height + 1) := by
  have target : Rises m limit layout.loadTarget height (height + 1) := by
    unfold SiteLayout.loadTarget
    split
    · exact rises_loadObject _ (by omega)
    · exact .cons (uses_plain 0 1 (by decide)) rfl (fun _ => by omega) (.nil _)
  have self : Rises m limit [host.loadSelf] (height + 1) (height + 2) :=
    .cons uses_loadSelf rfl (fun _ => by omega) (.nil _)
  have trace : Rises m limit [imports.call .captureStackTrace] (height + 4) (height + 5) :=
    .cons (uses_intrinsic resolve .captureStackTrace 0 1 (.inl rfl) rfl) rfl (fun _ => by omega) (.nil _)
  have array : Rises m limit (makeArray imports.object (layout.arguments.map Slot.loadArgument))
      (height + 5) (height + 6) := by
    refine rises_makeArray _ (fun load member => ?_) (by omega)
    obtain ⟨slot, -, rfl⟩ := List.mem_map.mp member
    exact rises_loadArgument slot room
  have create : Rises m limit [ListingItem.withToken .newobj (imports.intrinsic .newContext)]
      (height + 6) (height + 1) :=
    .cons (uses_newContext resolve) rfl (fun _ => by omega) (.nil _)
  exact (((((target.append self).append (rises_quoteMethod resolve _ (by omega))).append
    (rises_quoteMethod resolve _ (by omega))).append trace).append array).append create

/-- The values of a call are put back. -/
theorem rises_reloads (room : height + layout.slots.length ≤ limit) :
    Rises m limit layout.reloads height (height + layout.slots.length) := by
  rw [SiteLayout.reloads_eq]
  revert room
  induction layout.slots generalizing height with
  | nil => exact fun _ => .nil _
  | cons slot slots ih =>
    intro room
    rw [List.length_cons, ← Nat.add_assoc, Nat.add_right_comm] at room ⊢
    exact .cons (uses_ldloc _) rfl (fun _ => by omega) (ih room)

/-- The call map is asked for a method. -/
theorem rises_ask (resolve : imports.Resolve m.module) (token : Token) {question : Intrinsic}
    (asks : question.method.callUse = ⟨2, 1⟩) (room : height + 1 < limit) :
    Rises m limit ([.ldloc host.mapLocal] ++ imports.quoteMethod token ++ [imports.callOn question])
      height (height + 1) :=
  .cons (uses_ldloc _) rfl (fun _ => by omega) <| (rises_quoteMethod resolve token room).append <|
    .cons (uses_intrinsic resolve question 2 1 (.inr rfl) asks) rfl (fun _ => by omega) (.nil _)

theorem rises_preparation (resolve : imports.Resolve m.module) (room : height + 9 < limit) :
    Rises m limit (layout.preparation imports host) height (height + 2) :=
  (rises_ask resolve _ rfl (by omega)).append (rises_makeContext resolve (by omega))

/-- The result of a substitute is left on the stack if the call has a result. -/
theorem rises_takeResult (resolve : imports.Resolve m.module) (room : height < limit) :
    Rises m limit [imports.callOn .invoke, layout.takeResult] (height + 2)
      (height + layout.result.toList.length) := by
  refine .cons (uses_intrinsic resolve .invoke 2 1 (.inr rfl) rfl) rfl (fun _ => room) ?_
  unfold SiteLayout.takeResult
  cases layout.result with
  | none => exact .cons (uses_plain 1 0 (by decide)) rfl nofun (.nil _)
  | some token => exact .cons (uses_withToken 1 1 (by decide)) rfl (fun _ => room) (.nil _)

/-- A provider is asked for, and put on the stack twice. -/
theorem rises_askProvider (resolve : imports.Resolve m.module) (room : height + 1 < limit) :
    Rises m limit (askProvider imports host) height (height + 2) :=
  .cons uses_loadSelf rfl (fun _ => by omega) <|
    .cons (uses_withToken 0 1 (by decide)) rfl (fun _ => room) <|
    .cons (uses_intrinsic resolve .getTypeFromHandle 1 1 (.inl rfl) rfl) rfl (fun _ => room) <|
    .cons (uses_intrinsic resolve .getProvider 2 1 (.inl rfl) rfl) rfl (fun _ => by omega) <|
    .cons (uses_plain 0 1 (by decide)) rfl (fun _ => room) (.nil _)

/-- A provider is asked for the call map, which is stored. -/
theorem rises_askMap (resolve : imports.Resolve m.module) (called : List Token)
    (room : height + 6 < limit) : Rises m limit (askMap imports host called ++
      [imports.call .getMap, .stloc host.mapLocal]) (height + 1) height := by
  have array : Rises m limit (makeArray imports.methodBase (called.map imports.quoteMethod))
      (height + 3) (height + 4) := by
    refine rises_makeArray _ (fun load member => ?_) (by omega)
    obtain ⟨token, -, rfl⟩ := List.mem_map.mp member
    exact rises_quoteMethod resolve token room
  have ask : Rises m limit (askMap imports host called) (height + 1) (height + 5) := by
    refine .cons uses_loadSelf rfl (fun _ => by omega) ?_
    refine (rises_quoteMethod resolve _ (by omega)).append (array.append ?_)
    exact .cons (uses_intrinsic resolve .captureStackTrace 0 1 (.inl rfl) rfl) rfl
      (fun _ => by omega) (.nil _)
  refine ask.append ?_
  exact .cons (uses_intrinsic resolve .getMap 5 1 (.inl rfl) rfl) rfl (fun _ => by omega) <|
    .cons (uses_stloc _) rfl nofun (.nil _)

end Parts

section Places

open SiteLayout Machine

variable {m : Machine} {imports : Imports} {host : Host} {layout : SiteLayout} {c : Code}
  {assumed : Place → Prop} {limit fuel position offset height : Nat} {labels : String → Option Nat}
  {tail : List ListingItem} {method : Method}

/-- A scaffold puts no value on a stack that is too high if none is put on one from the instruction on
that was there before, and none behind it. -/
theorem SiteLayout.IsAt.safeFrom (placed : layout.IsAt imports host c position labels offset tail)
    (resolve : imports.Resolve m.module) (room : height + 9 < limit)
    (original : m.SafeFrom c assumed limit method fuel
      (position + layout.originalIndex imports host) height)
    (behind : ∀ rest, height = rest + layout.slots.length →
      m.SafeFrom c assumed limit method fuel (position + layout.originalIndex imports host + 1)
        (rest + layout.result.toList.length)) :
    m.SafeFrom c assumed limit method (fuel + 1) position height := by
  obtain ⟨_, toFallback, atFallback, heldFallback⟩ := placed.fallback
  obtain ⟨_, toDone, atDone⟩ := placed.done
  -- The parts of the scaffold between which there are branches.
  have held : c.Holds labels position offset (layout.spills ++ ([.ldloc host.mapLocal] ++
      (.branch .brfalse layout.fallbackLabel :: (([.ldloc host.mapLocal] ++
        imports.quoteMethod layout.site.token ++ [imports.callOn .containsMapping]) ++
          (.branch .brfalse layout.fallbackLabel :: (layout.preparation imports host ++
            ([imports.callOn .invoke, layout.takeResult] ++ (.branch .br layout.doneLabel ::
              ([.label layout.fallbackLabel] ++ (layout.reloads ++
                ([.decoded layout.site.instruction, .label layout.doneLabel] ++ tail))))))))))) := by
    simpa [choice_eq rfl] using placed.front
  have spill : ∀ item ∈ layout.spills, item.Uses m 1 0 := by
    rw [spills_eq]
    intro item member
    obtain ⟨slot, -, rfl⟩ := List.mem_map.mp member
    exact uses_stloc _
  refine .drops spill held fun rest same => ?_
  rw [spills_eq, List.length_map, List.length_reverse] at same
  have fallback : m.SafeFrom c assumed limit method fuel
      (position + layout.fallbackIndex imports host) rest := by
    rw [originalIndex, ← Nat.add_assoc, same] at original
    exact .rises (rises_reloads (by omega)) heldFallback original
  refine .rises (.cons (uses_ldloc _) rfl (fun _ => by omega) (.nil _)) held.right ?_
  have first := held.right.right
  refine .brfalse first toFallback atFallback ?_ fallback
  have question := first.tail rfl
  refine .rises (rises_ask resolve _ rfl (by omega)) question ?_
  refine (SafeFrom.brfalse question.right toFallback atFallback ?_ fallback).mono (Nat.le_succ fuel)
  have substitution := question.right.tail rfl
  refine .rises (rises_preparation resolve (by omega)) substitution ?_
  refine .rises (rises_takeResult resolve (by omega)) substitution.right ?_
  exact (SafeFrom.br substitution.right.right toDone atDone (behind rest same)).mono (Nat.le_succ fuel)

end Places

namespace Weave

variable {m : Machine} {imports : Imports} {token : Token} {d : MethodDef} {body woven : Body}
  {c : Code} {assumed : Place → Prop} {limit fuel : Nat} {method : Method}

/-- The prologue puts no value on a stack that is too high if none is put on one behind it. -/
theorem safeFrom_opening (w : Weave m.module imports token d body woven) (calls : w.entries ≠ [])
    (loaded : Code.ofBody woven = .ok (some c)) (resolve : imports.Resolve m.module)
    (room : 6 < limit) (behind : m.SafeFrom c assumed limit method fuel (w.start 0) 0) :
    m.SafeFrom c assumed limit method fuel 0 0 := by
  -- The prologue asks for a provider.  With one it goes on to ask for the map, and without one it drops
  -- what it got; both ways end in front of the first instruction with nothing on the stack.
  let host := hostOf token d body
  let storeMap := askMap imports host w.called ++ [imports.call .getMap, .stloc host.mapLocal]
  have opening : w.opening = askProvider imports host ++ (.branch .brfalse noProviderLabel ::
      (storeMap ++ (.branch .br bodyLabel :: [.label noProviderLabel, .plain .pop,
        .label bodyLabel]))) := by
    simp [Weave.opening, prologue, askProvider, loadOwner, storeMap, askMap, called, host]
  have held := w.holds loaded
  rw [Weave.items, ← Weave.opening, opening] at held
  simp only [List.append_assoc, List.cons_append, List.nil_append] at held
  have branch := held.right
  have store := branch.tail rfl
  have skip := store.right
  have noProvider := skip.tail rfl
  obtain ⟨named, pop⟩ := noProvider.label
  have popped : c.Holds w.label? _ _ ([.plain .pop] ++ (.label bodyLabel :: w.parts.flatten)) := pop
  obtain ⟨named', first⟩ := popped.right.label
  have lands := pop.indexOf? (w.ordered loaded) (by simp [ListingItem.isLabel])
  have lands' := first.indexOf? (w.ordered loaded) (w.instructionCount_parts_pos calls)
  have start : w.start 0 = 0 + instructionCount (askProvider imports host) + 1 +
      instructionCount storeMap + 1 + instructionCount [.plain .pop] := by
    rw [Weave.start, opening]
    simp [ListingItem.isLabel]
    omega
  rw [start] at behind
  refine .rises (rises_askProvider resolve (by omega)) held ?_
  refine (Machine.SafeFrom.brfalse branch named lands ?_ ?_).mono (Nat.le_succ fuel)
  · refine .rises (rises_askMap resolve _ room) store ?_
    exact (Machine.SafeFrom.br skip named' lands' behind).mono (Nat.le_succ fuel)
  · have popping : Rises m limit [.plain .pop] 1 0 :=
      .cons (uses_plain 1 0 (by decide)) rfl (fun none => absurd none (Nat.lt_irrefl 0)) (.nil _)
    exact .rises popping popped behind

end Weave

end Interpose
