import Interpose.Machine.Run
import Interpose.Proofs.Outcome
import Interpose.Proofs.Substitution.Filling
import Interpose.Proofs.Substitution.Publication

/-!
# What the parts of the machine fail with

No operation on values and objects, no look-up in a module, no provider and no decoder fails because
of an instruction that it cannot run or of a branch that it cannot take.

## Main definitions

* `Error.isBadCode` — an instruction cannot be run, or a branch cannot be taken
* `ErrsOnly`, `RaisesOnly` — which errors a result can be, and a computation can fail with
* `StackErrors`, `MachineErrors` — the errors of the stack, and all errors of the machine but those
  that the code is to blame for, are among some errors

## Main results

* `errsOnly_methodAt`, `errsOnly_typeAt` and others — look-ups
* `raisesOnly_object`, `raisesOnly_extractAs` and others — the store
* `raisesOnly_decodeInstructions`, `errsOnly_code` — decoding
* `raisesOnly_publishedMap` — making the call map of a method
-/

namespace Interpose

/-- Whether the machine has no meaning for an instruction. -/
def Fault.isUnsupported : Fault → Bool
  | .unsupportedOpcode .. => true
  | _ => false

/-- Whether the code is to blame for a fault: the machine has no meaning for an instruction, or there
is not enough room on the stack that the code asked for. -/
def Fault.blamesCode : Fault → Bool
  | .stackOverflow _ => true
  | cause => cause.isUnsupported

theorem Fault.isUnsupported_of_blamesCode {cause : Fault} (h : cause.blamesCode = false) :
    cause.isUnsupported = false := by
  cases cause with
  | stackOverflow limit => cases h
  | _ => exact h

/-- Whether an instruction cannot be run, or a branch cannot be taken. -/
def Error.isBadCode : Error → Bool
  | .fault cause => cause.isUnsupported
  | .invalidBranch _ => true
  | _ => false

/-- The result is no error but one of some errors. -/
def ErrsOnly (A : Error → Prop) {α : Type} (x : Except Error α) : Prop := ∀ e, x = .error e → A e

/-- The computation fails with no error but some. -/
def RaisesOnly (A : Error → Prop) {σ α : Type} (x : ExceptT Error (StateM σ) α) : Prop :=
  ∀ s e s', Fails x s e s' → A e

/-- The errors of a stack that is not too high, of variables and of comparisons are among some errors. -/
class StackErrors (A : Error → Prop) : Prop where
  underflow : A (.fault .stackUnderflow)
  argument (index count : Nat) : A (.fault (.argumentIndex index count))
  localVar (index count : Nat) : A (.fault (.localIndex index count))
  comparison (found : String) : A (.fault (.typeMismatch "compare" found))

/-- All errors of the machine but those that the code is to blame for are among some errors. -/
class MachineErrors (A : Error → Prop) : Prop where
  fault (cause : Fault) : cause.blamesCode = false → A (.fault cause)
  malformed (defect : Defect) : A (.malformed defect)
  outOfBounds : A .outOfBounds
  missingMock (typeName method : String) : A (.missingMock typeName method)

instance {A : Error → Prop} [MachineErrors A] : StackErrors A where
  underflow := MachineErrors.fault _ rfl
  argument _ _ := MachineErrors.fault _ rfl
  localVar _ _ := MachineErrors.fault _ rfl
  comparison _ := MachineErrors.fault _ rfl

variable {A : Error → Prop}

namespace ErrsOnly

variable {α β : Type} {x : Except Error α} {k : α → Except Error β}

theorem ok (a : α) : ErrsOnly A (.ok a) := fun _ h => nomatch h

theorem pure (a : α) : ErrsOnly A (pure a : Except Error α) := ok a

theorem throw {e : Error} (h : A e) : ErrsOnly A (throw e : Except Error α) := by
  intro e' same
  obtain rfl := Except.error.inj same
  exact h

theorem bind (h : ErrsOnly A x) (h' : ∀ a, ErrsOnly A (k a)) : ErrsOnly A (x >>= k) := by
  intro e failed
  cases x with
  | error e' =>
    obtain rfl := Except.error.inj failed
    exact h _ rfl
  | ok a => exact h' a e failed

theorem ite {c : Prop} [Decidable c] {y : Except Error α} (h : ErrsOnly A x) (h' : ErrsOnly A y) :
    ErrsOnly A (if c then x else y) := by
  split
  · exact h
  · exact h'

/-- A result that is only there if a condition fails. -/
theorem guard {c : Prop} [Decidable c] {e : Error} {y : Except Error β} (h : A e)
    (h' : ErrsOnly A y) : ErrsOnly A (if c then (MonadExcept.throw e : Except Error α) >>= k else y) :=
  .ite (fun e' same => by cases same; exact h) h'

end ErrsOnly

namespace RaisesOnly

variable {σ α β : Type} {x : ExceptT Error (StateM σ) α} {k : α → ExceptT Error (StateM σ) β}

theorem pure (a : α) : RaisesOnly A (pure a : ExceptT Error (StateM σ) α) :=
  fun _ _ _ fails => absurd fails not_fails_pure

theorem throw {e : Error} (h : A e) : RaisesOnly A (throw e : ExceptT Error (StateM σ) α) := by
  intro s e' s' fails
  obtain ⟨rfl, -⟩ := fails_throw.mp fails
  exact h

theorem bind (h : RaisesOnly A x) (h' : ∀ a, RaisesOnly A (k a)) : RaisesOnly A (x >>= k) := by
  intro s e s' fails
  rcases fails_bind.mp fails with first | ⟨a, s₁, -, second⟩
  · exact h _ _ _ first
  · exact h' a _ _ _ second

theorem get_bind {k : σ → ExceptT Error (StateM σ) β} (h : ∀ s, RaisesOnly A (k s)) :
    RaisesOnly A (get >>= k) := fun s e s' fails => h s s e s' fails

theorem set (s : σ) : RaisesOnly A (set s : ExceptT Error (StateM σ) PUnit) := by
  intro _ _ _ fails
  cases fails

theorem modify (f : σ → σ) : RaisesOnly A (modify f : ExceptT Error (StateM σ) PUnit) :=
  fun _ _ _ fails => absurd fails not_fails_modify

theorem of_result {known : Except Error α} (h : ErrsOnly A known) :
    RaisesOnly A (liftM known : ExceptT Error (StateM σ) α) :=
  fun _ _ _ fails => h _ (fails_liftM.mp fails).1

theorem ite {c : Prop} [Decidable c] {y : ExceptT Error (StateM σ) α} (h : RaisesOnly A x)
    (h' : RaisesOnly A y) : RaisesOnly A (if c then x else y) := by
  split
  · exact h
  · exact h'

/-- A computation that goes on only if a condition fails. -/
theorem guard {c : Prop} [Decidable c] {e : Error} {y : ExceptT Error (StateM σ) β} (h : A e)
    (h' : RaisesOnly A y) :
    RaisesOnly A (if c then (MonadExcept.throw e : ExceptT Error (StateM σ) α) >>= k else y) := by
  refine .ite (fun s e' s' fails => ?_) h'
  rcases fails_bind.mp fails with first | ⟨a, s₁, yields, -⟩
  · exact RaisesOnly.throw h _ _ _ first
  · exact (yields_throw.mp yields).elim

end RaisesOnly

section Objects

variable [MachineErrors A] {o : StoredObject}

theorem raisesOnly_fault {α : Type} {cause : Fault} (h : cause.blamesCode = false) :
    RaisesOnly A (Act.fault cause : Act α) := .throw (MachineErrors.fault cause h)

theorem errsOnly_mismatch {α : Type} (operation found : String) :
    ErrsOnly A (StoredObject.mismatch operation found : Except Error α) :=
  .throw (MachineErrors.fault _ rfl)

theorem errsOnly_field? (name : String) : ErrsOnly A (o.field? name) := by
  cases o with
  | «instance» => exact .pure _
  | array => exact errsOnly_mismatch _ _

theorem errsOnly_setField (name : String) (value : Value) : ErrsOnly A (o.setField name value) := by
  cases o with
  | «instance» => exact .pure _
  | array => exact errsOnly_mismatch _ _

theorem errsOnly_elements : ErrsOnly A o.elements := by
  cases o with
  | «instance» => exact errsOnly_mismatch _ _
  | array => exact .pure _

theorem errsOnly_length : ErrsOnly A o.length := by
  cases o with
  | «instance» => exact errsOnly_mismatch _ _
  | array => exact .pure _

theorem errsOnly_element (index : Int64) : ErrsOnly A (o.element index) := by
  cases o with
  | «instance» => exact errsOnly_mismatch _ _
  | array type items =>
    unfold StoredObject.element
    dsimp only
    split
    · exact .pure _
    · exact .throw (MachineErrors.fault _ rfl)

theorem errsOnly_setElement (index : Int64) (value : Value) :
    ErrsOnly A (o.setElement index value) := by
  cases o with
  | «instance» => exact errsOnly_mismatch _ _
  | array type items =>
    unfold StoredObject.setElement
    dsimp only
    split
    · exact .pure _
    · exact .throw (MachineErrors.fault _ rfl)

omit [MachineErrors A] in
theorem raisesOnly_newObject (o : StoredObject) : RaisesOnly A (Act.newObject o) :=
  .get_bind fun _ => (RaisesOnly.set _).bind fun _ => .pure _

theorem raisesOnly_object (ref : Nat) : RaisesOnly A (Act.object ref) := by
  refine .get_bind fun s => ?_
  split
  · exact .pure _
  · exact raisesOnly_fault rfl

theorem raisesOnly_modifyObject {ref : Nat} {change : StoredObject → Except Error StoredObject}
    (h : ∀ o, ErrsOnly A (change o)) : RaisesOnly A (Act.modifyObject ref change) :=
  (raisesOnly_object ref).bind fun o => (RaisesOnly.of_result (h o)).bind fun _ => .modify _

omit [MachineErrors A] in
theorem raisesOnly_newContext (c : CallContext) : RaisesOnly A (Act.newContext c) :=
  .get_bind fun _ => (RaisesOnly.set _).bind fun _ => .pure _

omit [MachineErrors A] in
theorem raisesOnly_newTrace (trace : StackTrace) : RaisesOnly A (Act.newTrace trace) :=
  .get_bind fun _ => (RaisesOnly.set _).bind fun _ => .pure _

theorem raisesOnly_invalidCast {α : Type} (value : Value) (type : Ty) :
    RaisesOnly A (Act.invalidCast value type : Act α) := .get_bind fun _ => raisesOnly_fault rfl

theorem raisesOnly_extractAs (value : Value) (type : Ty) (h : Hierarchy) :
    RaisesOnly A (value.extractAs type h) := by
  refine .get_bind fun s => .ite ?_ (.ite (.pure _) (raisesOnly_invalidCast _ _))
  split
  · exact .ite (.pure _) (raisesOnly_invalidCast _ _)
  · exact raisesOnly_fault rfl
  · exact .ite (.pure _) (raisesOnly_invalidCast _ _)

end Objects

section Modules

variable [MachineErrors A] (m : Module) (token : Token)

theorem errsOnly_malformed {α : Type} (defect : Defect) :
    ErrsOnly A (throw (.malformed defect) : Except Error α) := .throw (MachineErrors.malformed defect)

theorem errsOnly_row {α : Type} (table : Array α) (id : Table) :
    ErrsOnly A (Module.row table id token) := by
  unfold Module.row
  refine .ite (errsOnly_malformed _) ?_
  split
  · exact .pure _
  · exact errsOnly_malformed _

theorem errsOnly_stringAt : ErrsOnly A (m.stringAt token) := errsOnly_row _ _ _

theorem errsOnly_fieldDefAt : ErrsOnly A (m.fieldDefAt token) := errsOnly_row _ _ _

theorem errsOnly_typeAt : ErrsOnly A (m.typeAt token) := by
  unfold Module.typeAt
  split
  · exact (errsOnly_row _ _ _).bind fun _ => .pure _
  · exact errsOnly_row _ _ _
  · exact errsOnly_malformed _

theorem errsOnly_definedMethod : ErrsOnly A (m.definedMethod token) :=
  (errsOnly_row _ _ _).bind fun _ => (errsOnly_row _ _ _).bind fun _ => .pure _

theorem errsOnly_genericMethodAt : ErrsOnly A (m.genericMethodAt token) := by
  unfold Module.genericMethodAt
  split
  · exact errsOnly_definedMethod m token
  · exact (errsOnly_row _ _ _).bind fun _ => .pure _
  · exact errsOnly_malformed _

theorem errsOnly_methodAt : ErrsOnly A (m.methodAt token) := by
  unfold Module.methodAt
  split
  · exact (errsOnly_row _ _ _).bind fun spec => .guard (MachineErrors.malformed _)
      ((errsOnly_genericMethodAt m _).bind fun generic => .guard (MachineErrors.malformed _) (.pure _))
  · exact errsOnly_genericMethodAt m token

end Modules

section Decoding

variable [MachineErrors A]

theorem raisesOnly_malformed {α : Type} (defect : Defect) :
    RaisesOnly A (Read.malformed defect : Read α) := .throw (MachineErrors.malformed defect)

theorem raisesOnly_byte : RaisesOnly A Read.byte := by
  refine .get_bind fun c => ?_
  split
  · exact (RaisesOnly.set _).bind fun _ => .pure _
  · exact .throw MachineErrors.outOfBounds

theorem raisesOnly_bytes (count : Nat) : RaisesOnly A (Read.bytes count) :=
  .get_bind fun _ => .guard MachineErrors.outOfBounds ((RaisesOnly.set _).bind fun _ => .pure _)

theorem raisesOnly_word (width : Nat) : RaisesOnly A (Read.word width) :=
  (raisesOnly_bytes width).bind fun _ => .pure _

theorem raisesOnly_token : RaisesOnly A Read.token :=
  ((raisesOnly_word 4).bind fun _ => .pure _).bind fun _ => .pure _

theorem errsOnly_destination (offset next : Nat) (displacement : Int) :
    ErrsOnly A (destination offset next displacement) := by
  unfold destination
  exact .ite (.pure _) (errsOnly_malformed _)

theorem raisesOnly_decodeOpcode : RaisesOnly A Opcode.decode := by
  refine raisesOnly_byte.bind fun first => .ite (raisesOnly_byte.bind fun second => ?_) ?_
  · split
    · exact .pure _
    · exact raisesOnly_malformed _
  · split
    · exact .pure _
    · exact raisesOnly_malformed _

theorem raisesOnly_decodeOperand (offset : Nat) (op : Opcode) :
    RaisesOnly A (Operand.decode offset op) := by
  have target (displacement : Int) : RaisesOnly A (do
      return Operand.target (← destination offset (offset + op.size + op.operandKind.size)
        displacement) : Read Operand) :=
    (RaisesOnly.of_result (errsOnly_destination _ _ _)).bind fun _ => .pure _
  have word (width : Nat) {α : Type} (of : Nat → α) : RaisesOnly A (do
      return of (← Read.word width) : Read α) := (raisesOnly_word width).bind fun _ => .pure _
  unfold Operand.decode
  dsimp only
  split
  · exact .pure _
  · exact raisesOnly_byte.bind fun _ => .pure _
  · exact raisesOnly_byte.bind fun _ => .pure _
  · exact (word 2 _).bind fun _ => .pure _
  · exact (word 4 _).bind fun _ => .pure _
  · exact (word 8 _).bind fun _ => .pure _
  · exact (word 8 _).bind fun _ => .pure _
  · exact raisesOnly_token.bind fun _ => .pure _
  · exact raisesOnly_byte.bind fun _ => target _
  · exact (word 4 _).bind fun _ => target _

theorem raisesOnly_decodeInstruction : RaisesOnly A Instruction.decode := by
  refine RaisesOnly.bind (.get_bind fun _ => .pure _) fun offset => ?_
  exact .guard (MachineErrors.malformed _) (raisesOnly_decodeOpcode.bind fun op =>
    (raisesOnly_decodeOperand offset op).bind fun _ => .pure _)

theorem raisesOnly_decodeInstructions (fuel : Nat) : RaisesOnly A (decodeInstructions fuel) := by
  induction fuel with
  | zero => exact .pure _
  | succ fuel ih =>
    unfold decodeInstructions
    refine RaisesOnly.bind (.get_bind fun _ => .pure _) fun more => .ite ?_ (.pure _)
    exact raisesOnly_decodeInstruction.bind fun _ => ih.bind fun _ => .pure _

theorem errsOnly_decodeCode (code : List UInt8) : ErrsOnly A (decodeCode code) := by
  have decoded : ErrsOnly A (Read.run (decodeInstructions code.length) code.toArray) := by
    intro e failed
    have read : RaisesOnly A (decodeInstructions code.length) := raisesOnly_decodeInstructions _
    exact read ⟨code.toArray, 0⟩ e (ExceptT.run (decodeInstructions code.length) ⟨code.toArray, 0⟩).2
      (Prod.ext failed rfl)
  refine decoded.bind fun instructions => ?_
  split
  · exact errsOnly_malformed _
  · exact .pure _

theorem errsOnly_ofBody (body : Body) : ErrsOnly A (Code.ofBody body) :=
  (errsOnly_decodeCode body.code).bind fun _ => .ite (.pure _) (.pure _)

/-- The code of a method in a module whose bodies are decoded. -/
theorem errsOnly_code (m : Module) (token : Token) (name : String) :
    ErrsOnly A ((Program.ofModule m).code token name) := by
  unfold Program.code
  refine ErrsOnly.bind ?_ fun code => ?_
  · intro e failed
    obtain ⟨index, -, there⟩ : ∃ index, token.index? = some index ∧
        (Program.ofModule m).codes[index]? = some (.error e) := by
      cases found : token.index?.bind ((Program.ofModule m).codes[·]?) with
      | none =>
        rw [found] at failed
        cases failed
      | some entry =>
        rw [found] at failed
        exact Option.bind_eq_some_iff.mp (found.trans (congrArg some failed))
    -- The program keeps what became of each body when it was decoded.
    simp only [Program.ofModule, Array.getElem?_map, Option.map_eq_some_iff] at there
    obtain ⟨d, -, failed⟩ := there
    cases hasBody : d.body with
    | none =>
      rw [hasBody] at failed
      cases failed
    | some body =>
      rw [hasBody] at failed
      exact errsOnly_ofBody body e failed
  · split
    · exact .pure _
    · exact .throw (MachineErrors.fault _ rfl)

end Decoding

section Rules

/-- A call map cannot be made only if a call is left without substitute. -/
theorem raisesOnly_publishedMap [MachineErrors A] (provider : Nat) (caller : Caller)
    (hierarchy : Hierarchy) : RaisesOnly A (Intercept.publishedMap provider caller hierarchy) := by
  have populated (source : Provider) (id : Nat) :
      ErrsOnly A (Intercept.populated source caller hierarchy id) := by
    intro e failed
    unfold Intercept.populated at failed
    split at failed
    case h_1 => cases failed
    case h_2 error map ran =>
      obtain rfl := Except.error.inj failed
      obtain ⟨missing, -, -, rfl⟩ := Provider.of_fails_populate ran
      exact MachineErrors.missingMock _ _
  have published (p : Publication) (source : Provider) :
      ErrsOnly A (p.publish caller.host (Intercept.populated source caller hierarchy)).1 := by
    rcases p.publish_cases caller.host (Intercept.populated source caller hierarchy) with
      ⟨id, -, result⟩ | ⟨-, ⟨map, -, result⟩ | ⟨e, failed, result⟩⟩
    · rw [result]
      exact .ok _
    · rw [result]
      exact .ok _
    · rw [result]
      intro e' same
      obtain rfl := Except.error.inj same
      exact populated _ _ _ failed
  exact .get_bind fun r => (RaisesOnly.set _).bind fun _ => .of_result (published r.publication _)

theorem raisesOnly_chooseProvider (callingInstance : Value) (declaringType : Ty) :
    RaisesOnly A (Intercept.chooseProvider callingInstance declaringType) := by
  refine .get_bind fun r => ?_
  split
  · exact .pure _
  · exact .ite (.pure _) ((RaisesOnly.set _).bind fun _ => .pure _)

end Rules

end Interpose
