import Interpose.Proofs.Machine.Stack

/-!
# How instructions use the stack

An instruction first takes values from the evaluation stack and then puts at most one on it.  How
many values that are follows from the operation, except for calls, which take what the method that is
called asks for, and for returns.

## Main definitions

* `StackUse` — how many values are taken, and how many are put on the stack then
* `Opcode.stackUse?` — how an operation uses the stack, other than calls and returns
* `Machine.called?` — the method that an instruction calls
* `Machine.stackUse` — how an instruction uses the stack
* `Machine.PushesOnto` — an instruction puts a value on top of a number of others

## Main results

* `Machine.stackUse_congr` — only the running method matters
-/

namespace Interpose

/-- How the stack is used: some values are taken from it, and then some are put on it. -/
structure StackUse where
  takes : Nat
  puts : Nat
deriving DecidableEq, Repr, Inhabited

/-- What a call of the method takes from the stack, and what it leaves there. -/
def Method.callUse (t : Method) : StackUse where
  takes := (if t.hasThis then 1 else 0) + t.parameters.length
  puts := if t.returnType ≠ .void && !t.isConstructor then 1 else 0

/-- What the creation of an object takes from the stack, and what it leaves there. -/
def Method.creationUse (t : Method) : StackUse := ⟨t.parameters.length, 1⟩

/-- What a return from the method takes from the stack. -/
def Method.returnUse (t : Method) : StackUse :=
  ⟨if t.isConstructor || t.returnType = .void then 0 else 1, 0⟩

/-- How an operation uses the stack.  What calls and returns do with it depends on the method. -/
def Opcode.stackUse? : Opcode → Option StackUse
  | nop | br | brS => some ⟨0, 0⟩
  | ldarg0 | ldarg1 | ldarg2 | ldarg3 | ldargS | ldarg
  | ldloc0 | ldloc1 | ldloc2 | ldloc3 | ldlocS | ldloc
  | ldnull | ldcI4M1 | ldcI40 | ldcI41 | ldcI42 | ldcI43 | ldcI44 | ldcI45 | ldcI46 | ldcI47 | ldcI48
  | ldcI4S | ldcI4 | ldcI8 | ldcR8 | ldstr | ldtoken | ldsfld | dup => some ⟨0, 1⟩
  | stargS | starg | stloc0 | stloc1 | stloc2 | stloc3 | stlocS | stloc | stsfld | pop
  | brfalse | brfalseS | brtrue | brtrueS | throw => some ⟨1, 0⟩
  | neg | notOp | convI4 | convI8 | convR8 | castclass | isinst | box | unboxAny | ldfld | newarr
  | ldlen => some ⟨1, 1⟩
  | beq | beqS | bge | bgeS | bgt | bgtS | ble | bleS | blt | bltS | bneUn | bneUnS | stfld =>
    some ⟨2, 0⟩
  | add | sub | mul | div | rem | andOp | orOp | xor | ceq | cgt | clt | ldelemRef => some ⟨2, 1⟩
  | stelemRef => some ⟨3, 0⟩
  | call | callvirt | newobj | ret => none

/-- A branch uses the stack alike, however far it goes. -/
theorem Opcode.stackUse?_widened (op : Opcode) : op.widened.stackUse? = op.stackUse? := by
  cases op <;> rfl

/-- How a branch uses the stack follows from the operation. -/
theorem Opcode.isSome_stackUse?_of_isBranch {op : Opcode} (branches : op.isBranch = true) :
    op.stackUse?.isSome = true := by
  cases op <;> first | rfl | cases branches

namespace Machine

/-- The method that an instruction calls, as the running method means it. -/
def called? (m : Machine) (f : Frame) (i : Instruction) : Option Method :=
  i.token?.bind fun token => (m.module.methodAt token).toOption.map (f.callee token)

/-- How an instruction uses the stack of the running method.  A call of a method that there is not does
nothing with it. -/
def stackUse (m : Machine) (f : Frame) (i : Instruction) : StackUse :=
  match i.op.stackUse? with
  | some use => use
  | none =>
    match i.op with
    | .ret => f.method.returnUse
    | .newobj => ((m.called? f i).map Method.creationUse).getD ⟨0, 0⟩
    | _ => ((m.called? f i).map Method.callUse).getD ⟨0, 0⟩

/-- An instruction puts a value on a stack that holds at least so many others then. -/
def PushesOnto (m : Machine) (f : Frame) (i : Instruction) (height : Nat) : Prop :=
  0 < (m.stackUse f i).puts ∧ height + (m.stackUse f i).takes ≤ f.stack.length

instance (m : Machine) (f : Frame) (i : Instruction) (height : Nat) :
    Decidable (m.PushesOnto f i height) := inferInstanceAs (Decidable (_ ∧ _))

variable {m : Machine} {f f' : Frame} {i : Instruction}

theorem called?_congr (same : f'.method = f.method) : m.called? f' i = m.called? f i := by
  have close : f'.close = f.close := by
    funext type
    rw [Frame.close, same, Frame.close]
  have callee : f'.callee = f.callee := by
    funext token method
    rw [Frame.callee, Frame.closeCall, close, Frame.callee, Frame.closeCall]
  rw [called?, callee, called?]

/-- How an instruction uses the stack depends on no more of the frame than the method that runs. -/
theorem stackUse_congr (same : f'.method = f.method) : m.stackUse f' i = m.stackUse f i := by
  rw [stackUse, called?_congr same, same, stackUse]

/-- At most one value is put on the stack. -/
theorem puts_stackUse_le : (m.stackUse f i).puts ≤ 1 := by
  have table : ∀ op use, Opcode.stackUse? op = some use → use.puts ≤ 1 := by
    intro op use does
    cases op <;> first | (cases does; decide) | cases does
  have call (t : Method) : t.callUse.puts ≤ 1 := by
    unfold Method.callUse
    dsimp only
    split <;> decide
  unfold stackUse
  split
  case h_1 does => exact table _ _ does
  case h_2 =>
    split
    · exact Nat.zero_le 1
    · cases m.called? f i with
      | none => exact Nat.zero_le 1
      | some t => exact Nat.le_refl 1
    · cases m.called? f i with
      | none => exact Nat.zero_le 1
      | some t => exact call t

theorem stackUse_of_stackUse? {use : StackUse} (h : i.op.stackUse? = some use) :
    m.stackUse f i = use := by
  rw [stackUse, h]

end Machine

end Interpose
