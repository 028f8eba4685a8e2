import Interpose.Proofs.Machine.Passes
import Interpose.Proofs.Weaving.Structure

/-!
# What the parts of scaffolds do

Scaffolds are made of parts that load handles, call intrinsics, and move values between the stack,
local variables and arrays.  Each of them is straight code, and what it does is said here.

## Main definitions

* `Host.self` — the object whose method runs in a frame
* `Frame.wrap`, `Frame.passOn` — the forms of a value in the context of a call

## Main results

* `passes_intrinsic`, `passes_newContext` — calls of the interception runtime
* `passes_quoteMethod` — loads the object that stands for a method
* `passes_fillFrom`, `passes_makeArray` — arrays of values
-/

namespace Interpose

section Tokens

variable {m : Machine} {token : Token} {method : Method} {f f' : Frame} {s s' : MachineState}

theorem passes_ldtoken (known : m.module.methodAt token = .ok method)
    (room : f.stack.length < f.maxStack) :
    Passes m [.withToken .ldtoken token] f s
      { f with stack := .handle (.method (f.callee token method)) :: f.stack } (· = s.store) := by
  refine .of_frame rfl (fun labels offset i read execute => ?_) (x := m.loadToken
    ⟨0, .ldtoken, .token token⟩) fun s => ?_
  · cases read
    rfl
  · have loads : YieldsWith (m.methodFor token >>= fun t => Step.push (.handle (.method t))) f s ()
        { f with stack := .handle (.method (f.callee token method)) :: f.stack } s :=
      (yieldsWith_methodFor.mpr ⟨method, known, rfl, rfl, rfl⟩).bind
        (yieldsWith_push.mpr ⟨room, rfl, rfl⟩)
    have start : m.loadToken ⟨0, .ldtoken, .token token⟩ =
        m.methodFor token >>= fun t => Step.push (.handle (.method t)) := by
      unfold Machine.loadToken
      rcases Module.table?_of_methodAt known with table | table | table <;>
        simp [Step.tokenOf, Step.expecting, Instruction.token?, table]
    rw [start]
    exact loads

theorem passes_ldtoken_type {type : Ty} (inside : token.isIn .typeDef = true)
    (known : m.module.typeAt token = .ok type) (room : f.stack.length < f.maxStack) :
    Passes m [.withToken .ldtoken token] f s
      { f with stack := .handle (.type (f.close type)) :: f.stack } (· = s.store) := by
  refine .of_frame rfl (fun labels offset i read execute => ?_) (x := m.loadToken
    ⟨0, .ldtoken, .token token⟩) fun s => ?_
  · cases read
    rfl
  · have loads : YieldsWith (m.typeFor token >>= fun t => Step.push (.handle (.type t))) f s ()
        { f with stack := .handle (.type (f.close type)) :: f.stack } s :=
      (yieldsWith_typeFor.mpr ⟨type, known, rfl, rfl, rfl⟩).bind
        (yieldsWith_push.mpr ⟨room, rfl, rfl⟩)
    have start : m.loadToken ⟨0, .ldtoken, .token token⟩ =
        m.typeFor token >>= fun t => Step.push (.handle (.type t)) := by
      unfold Machine.loadToken
      simp [Step.tokenOf, Step.expecting, Instruction.token?, Token.table?_of_isIn inside]
    rw [start]
    exact loads

end Tokens

section Intrinsics

variable {m : Machine} {imports : Imports} {f : Frame} {s : MachineState} {rest : List Value}

theorem closeDeclaring_intrinsic (i : Intrinsic) : i.method.closeDeclaring = i.method := by
  cases i <;> rfl

theorem closeCall_intrinsic (f : Frame) (i : Intrinsic) : f.closeCall i.method = i.method := by
  cases i <;> rfl

theorem ofMethod?_intrinsic (i : Intrinsic) : Intrinsic.ofMethod? i.method = some i := by
  cases i <;> decide

/-- Nothing changes its form where it is passed to an intrinsic. -/
theorem zipWith_adaptTo_intrinsic (i : Intrinsic) {arguments : List Value}
    (h : arguments.length = i.method.parameters.length) :
    arguments.zipWith Value.adaptTo i.method.parameters = arguments := by
  have types : i.method.parameters = i.signature.parameters := by cases i <;> rfl
  -- Only where truth values, characters or integers of 64 bits are expected a value adapts.
  have same (type : Ty) (kind : type ≠ .bool ∧ type ≠ .char ∧ type ≠ .int64) (value : Value) :
      value.adaptTo type = value := by
    unfold Value.adaptTo
    split <;> simp_all
  have stays : ∀ type ∈ i.method.parameters, ∀ value : Value, value.adaptTo type = value := by
    intro type member
    rw [types] at member
    refine same type ?_
    revert type
    cases i <;> decide
  revert h stays
  generalize i.method.parameters = types
  intro h stays
  induction arguments generalizing types with
  | nil => rfl
  | cons value values ih =>
    cases types with
    | nil => cases h
    | cons type types =>
      rw [List.forall_mem_cons] at stays
      rw [List.zipWith_cons_cons, stays.1, ih types (Nat.succ.inj h) stays.2]

/-- The arguments of a method, which are on the stack, the last one on top. -/
theorem yieldsWith_popArguments {method : Method} {arguments : List Value}
    (stack : f.stack = arguments.reverse ++ rest)
    (arity : arguments.length = method.parameters.length) :
    YieldsWith (Machine.popArguments method) f s
      (arguments.zipWith Value.adaptTo method.parameters) { f with stack := rest } s := by
  have length : arguments.reverse.length = method.parameters.length := by
    rw [List.length_reverse, arity]
  refine yieldsWith_bind.mpr ⟨arguments, { f with stack := rest }, s, yieldsWith_popMany.mpr
    ⟨?_, ?_, ?_, rfl⟩, yieldsWith_pure.mpr ⟨rfl, rfl, rfl⟩⟩
  · rw [stack, List.length_append, length]
    exact Nat.le_add_right _ _
  · rw [stack, ← length, List.take_left, List.reverse_reverse]
  · rw [stack, ← length, List.drop_left]

theorem yieldsWith_methodFor_intrinsic (resolve : imports.Resolve m.module) (i : Intrinsic) :
    YieldsWith (m.methodFor (imports.intrinsic i)) f s i.method f s := by
  refine yieldsWith_methodFor.mpr ⟨i.method, methodAt_of_memberRefAt (resolve.intrinsic i), ?_, rfl,
    rfl⟩
  rw [Frame.callee, isIn_methodDef_of_memberRefAt (resolve.intrinsic i), if_neg Bool.false_ne_true,
    closeDeclaring_intrinsic, closeCall_intrinsic]

/-- A call of an intrinsic runs it on receiver and arguments, which it takes from the stack. -/
theorem run_call_intrinsic (resolve : imports.Resolve m.module) (i : Intrinsic)
    (receiver : Option Value) (arguments : List Value)
    (stack : f.stack = arguments.reverse ++ (receiver.toList ++ rest))
    (arity : arguments.length = i.method.parameters.length)
    (this : receiver.isSome = i.method.hasThis) (execute : Executor) (offset : Nat) (op : Opcode)
    (isVirtual : Bool) :
    ((m.call execute ⟨offset, op, .token (imports.intrinsic i)⟩ isVirtual).run f).run.run s =
      (((liftM (m.intrinsic i receiver arguments) : Step Value) >>= fun result =>
        if i.method.returnType ≠ .void && !i.method.isConstructor then
          Step.push (result.adaptTo i.method.returnType)
        else pure ()).run { f with stack := rest }).run.run s := by
  have operand : YieldsWith (Step.tokenOf ⟨offset, op, .token (imports.intrinsic i)⟩) f s
      (imports.intrinsic i) f s := yieldsWith_pure.mpr ⟨rfl, rfl, rfl⟩
  unfold Machine.call
  rw [operand.run_bind, (yieldsWith_methodFor_intrinsic resolve i).run_bind,
    (yieldsWith_popArguments stack arity).run_bind, zipWith_adaptTo_intrinsic i arity]
  -- An intrinsic is known by its method, whatever type the receiver has.
  have dispatched : m.dispatch execute i.method receiver arguments isVirtual =
      m.intrinsic i receiver arguments := by
    unfold Machine.dispatch
    rw [ofMethod?_intrinsic]
  rw [← dispatched]
  cases receiver with
  | none =>
    rw [if_neg (by rw [← this]; exact Bool.false_ne_true)]
    rfl
  | some value =>
    have own : i.method.hasThis = true := this.symm
    have taken : YieldsWith (some <$> Step.pop)
        { f with stack := value :: rest } s (some value) { f with stack := rest } s :=
      yieldsWith_map.mpr ⟨value, yieldsWith_pop.mpr ⟨rfl, rfl, rfl⟩, rfl⟩
    rw [if_pos own]
    exact taken.run_bind

/-- An instruction that calls an intrinsic takes receiver and arguments from the stack and leaves the
result. -/
theorem yieldsWith_step_intrinsic (resolve : imports.Resolve m.module) (i : Intrinsic) {op : Opcode}
    (calls : op = .call ∨ op = .callvirt) (receiver : Option Value) (arguments : List Value)
    {result : Value} (stack : f.stack = arguments.reverse ++ (receiver.toList ++ rest))
    (arity : arguments.length = i.method.parameters.length)
    (this : receiver.isSome = i.method.hasThis) (room : rest.length < f.maxStack)
    (returns : (i.method.returnType ≠ .void && !i.method.isConstructor) = true)
    (adapts : result.adaptTo i.method.returnType = result) {s' : MachineState}
    (does : Yields (m.intrinsic i receiver arguments) s result s') (execute : Executor)
    (offset : Nat) :
    YieldsWith (m.step execute ⟨offset, op, .token (imports.intrinsic i)⟩) f s .next
      { f with stack := result :: rest } s' := by
  have called (isVirtual : Bool) : YieldsWith (m.call execute
      ⟨offset, op, .token (imports.intrinsic i)⟩ isVirtual) f s () { f with stack := result :: rest }
      s' := by
    refine (run_call_intrinsic resolve i receiver arguments stack arity this execute offset op
      isVirtual).trans (YieldsWith.bind (yieldsWith_lift.mpr ⟨does, rfl⟩) ?_)
    rw [if_pos returns, adapts]
    exact yieldsWith_push.mpr ⟨room, rfl, rfl⟩
  rcases calls with rfl | rfl <;>
    exact (called _).bind (yieldsWith_pure.mpr ⟨rfl, rfl, rfl⟩)

/-- A call of an intrinsic that changes nothing but the store. -/
theorem passes_intrinsic (resolve : imports.Resolve m.module) (i : Intrinsic) {op : Opcode}
    (calls : op = .call ∨ op = .callvirt) (receiver : Option Value) (arguments : List Value)
    {result : Value} {Q : Store → Prop}
    (stack : f.stack = arguments.reverse ++ (receiver.toList ++ rest))
    (arity : arguments.length = i.method.parameters.length)
    (this : receiver.isSome = i.method.hasThis) (room : rest.length < f.maxStack)
    (returns : (i.method.returnType ≠ .void && !i.method.isConstructor) = true)
    (adapts : result.adaptTo i.method.returnType = result)
    (does : ∀ s₁, s.Like s₁ → s₁.store = s.store → ∃ s', Yields (m.intrinsic i receiver arguments)
      s₁ result s' ∧ s'.executed = s₁.executed ∧ s₁.Like s' ∧ Q s'.store) :
    Passes m [.withToken op (imports.intrinsic i)] f s { f with stack := result :: rest } Q := by
  refine .of_step rfl fun labels offset instruction read => ?_
  obtain ⟨s', yields, executed, like, store⟩ := does (s.tick offset) (.tick s offset) rfl
  refine ⟨s', fun execute => ?_, executed, (MachineState.Like.tick s offset).trans like, store⟩
  cases read
  exact yieldsWith_step_intrinsic resolve i calls receiver arguments stack arity this room returns
    adapts yields execute offset

/-- A call of an intrinsic without receiver, whatever it changes. -/
theorem leads_intrinsic (resolve : imports.Resolve m.module) {c : Code}
    {labels : String → Option Nat} {position offset : Nat} {items : List ListingItem} {i : Intrinsic}
    (held : c.Holds labels position offset (imports.call i :: items)) (arguments : List Value)
    {result : Value} {s' : MachineState} (arity : arguments.length = i.method.parameters.length)
    (this : i.method.hasThis = false) (room : rest.length < f.maxStack)
    (returns : (i.method.returnType ≠ .void && !i.method.isConstructor) = true)
    (adapts : result.adaptTo i.method.returnType = result)
    (does : Yields (m.intrinsic i none arguments) (s.tick offset) result s')
    (executed : s'.executed = s.executed + 1) :
    Leads m c [position] ⟨position, { f with stack := arguments.reverse ++ rest }, s⟩
      ⟨position + 1, { f with stack := result :: rest }, s'⟩ := by
  refine .next (held.getElem? rfl) (fun execute => ?_) executed
  exact yieldsWith_step_intrinsic (f := { f with stack := arguments.reverse ++ rest }) resolve i
    (.inl rfl) none arguments rfl arity this.symm room returns adapts does execute offset

/-- The creation of a context takes what it is made of from the stack and leaves the context. -/
theorem passes_newContext (resolve : imports.Resolve m.module) (arguments : List Value)
    {result : Value} {Q : Store → Prop} (stack : f.stack = arguments.reverse ++ rest)
    (arity : arguments.length = Intrinsic.newContext.method.parameters.length)
    (room : rest.length < f.maxStack)
    (does : ∀ s₁, s.Like s₁ → s₁.store = s.store → ∃ s', Yields (m.intrinsic .newContext none
      arguments) s₁ result s' ∧ s'.executed = s₁.executed ∧ s₁.Like s' ∧ Q s'.store) :
    Passes m [.withToken .newobj (imports.intrinsic .newContext)] f s
      { f with stack := result :: rest } Q := by
  refine .of_step rfl fun labels offset instruction read => ?_
  obtain ⟨s', yields, executed, like, store⟩ := does (s.tick offset) (.tick s offset) rfl
  refine ⟨s', fun execute => ?_, executed, (MachineState.Like.tick s offset).trans like, store⟩
  have made : YieldsWith (m.construct execute
      ⟨offset, .newobj, .token (imports.intrinsic .newContext)⟩) f (s.tick offset) ()
      { f with stack := result :: rest } s' := by
    unfold Machine.construct
    refine (yieldsWith_pure.mpr ⟨rfl, rfl, rfl⟩).bind ?_
    refine (yieldsWith_methodFor_intrinsic resolve .newContext).bind ?_
    refine (yieldsWith_popArguments stack arity).bind ?_
    rw [zipWith_adaptTo_intrinsic .newContext arity, if_pos (ofMethod?_intrinsic .newContext)]
    exact (yieldsWith_lift.mpr ⟨yields, rfl⟩).bind (yieldsWith_push.mpr ⟨room, rfl, rfl⟩)
  cases read
  exact made.bind (yieldsWith_pure.mpr ⟨rfl, rfl, rfl⟩)

end Intrinsics

/-- The object whose method runs in a frame; static methods have none. -/
def Host.self (host : Host) (f : Frame) : Value :=
  if host.hasThis then (f.arguments[0]?).getD .null else .null

section Values

variable {m : Machine} {imports : Imports} {host : Host} {f : Frame} {s : MachineState}
  {value : Value} {rest : List Value}

theorem passes_loadSelf (present : host.hasThis = true → 0 < f.arguments.size)
    (room : f.stack.length < f.maxStack) :
    Passes m [host.loadSelf] f s { f with stack := host.self f :: f.stack } (· = s.store) := by
  unfold Host.loadSelf Host.self
  cases own : host.hasThis with
  | true =>
    obtain ⟨self, known⟩ : ∃ self, f.arguments[0]? = some self :=
      ⟨_, Array.getElem?_eq_getElem (present own)⟩
    rw [if_pos rfl, if_pos rfl, known]
    exact passes_ldarg known room
  | false =>
    rw [if_neg Bool.false_ne_true, if_neg Bool.false_ne_true]
    exact passes_ldnull room

/-- Loads the object that stands for a method. -/
theorem passes_quoteMethod (resolve : imports.Resolve m.module) {token : Token} {method : Method}
    (known : m.module.methodAt token = .ok method) (room : f.stack.length < f.maxStack) :
    Passes m (imports.quoteMethod token) f s
      { f with stack := .handle (.method (f.callee token method)) :: f.stack } (· = s.store) := by
  refine (passes_ldtoken known room).cons fun s₁ like₁ store₁ => ?_
  rw [← store₁]
  refine passes_intrinsic resolve .getMethodFromHandle (.inl rfl) none
    [.handle (.method (f.callee token method))] rfl rfl rfl room rfl rfl ?_
  intro s₂ like₂ store₂
  exact ⟨s₂, yields_pure.mpr ⟨rfl, rfl⟩, rfl, .refl s₂, store₂⟩

theorem passes_box {token : Token} {type : Ty} (known : m.module.typeAt token = .ok type)
    (top : f.stack = value :: rest) (room : rest.length < f.maxStack) :
    Passes m [.withToken .box token] f s { f with stack := value.wrapAs (f.close type) :: rest }
      (· = s.store) := by
  refine .of_frame rfl (fun labels offset i read execute => ?_)
    (x := m.box ⟨0, .box, .token token⟩) fun s => ?_
  · cases read
    rfl
  · refine (yieldsWith_pure.mpr ⟨rfl, rfl, rfl⟩ : YieldsWith (Step.tokenOf _) f s token f s).bind
      (yieldsWith_typeFor.mpr ⟨type, known, rfl, rfl, rfl⟩) |>.bind ?_
    exact yieldsWith_bind.mpr ⟨value, { f with stack := rest }, s, yieldsWith_pop.mpr
      ⟨top, rfl, rfl⟩, yieldsWith_push.mpr ⟨room, rfl, rfl⟩⟩

end Values

/-- A value of the given type as an object of a running method: values held in place are wrapped. -/
def Frame.wrap (f : Frame) (m : Module) (type : Ty) (value : Value) : Value :=
  if type.needsWrapping then value.wrapAs (f.close (m.namedType type)) else value

/-- A value of the given type as an argument of a context; references to storage become null. -/
def Frame.passOn (f : Frame) (m : Module) (type : Ty) (value : Value) : Value :=
  if type.isByRef then .null else f.wrap m type value

/-- Local variables hold the values of a call. -/
def Frame.HoldsIn (f : Frame) (slots : List Slot) (values : List Value) : Prop :=
  List.Forall₂ (fun slot value => f.locals[slot.number.toNat]? = some value) slots values

section Slots

variable {m : Machine} {f : Frame} {s : MachineState} {slot : Slot} {slots : List Slot}
  {value : Value} {values rest : List Value}

theorem passes_loadObject (boxes : slot.Boxes m.module)
    (known : f.locals[slot.number.toNat]? = some value) (room : f.stack.length < f.maxStack) :
    Passes m slot.loadObject f s { f with stack := f.wrap m.module slot.type value :: f.stack }
      (· = s.store) := by
  unfold Slot.loadObject Frame.wrap
  unfold Slot.Boxes at boxes
  refine (passes_ldloc known room).cons fun s₁ like₁ store₁ => ?_
  rw [← store₁]
  split at boxes
  case isTrue wraps =>
    obtain ⟨token, boxed, stands⟩ := boxes
    rw [boxed, if_pos wraps]
    exact passes_box stands rfl room
  case isFalse stays =>
    rw [boxes, if_neg stays]
    exact .nil rfl

theorem passes_loadArgument (boxes : slot.Boxes m.module)
    (known : f.locals[slot.number.toNat]? = some value) (room : f.stack.length < f.maxStack) :
    Passes m slot.loadArgument f s { f with stack := f.passOn m.module slot.type value :: f.stack }
      (· = s.store) := by
  unfold Slot.loadArgument Frame.passOn
  cases slot.type.isByRef with
  | true => exact passes_ldnull room
  | false => exact passes_loadObject boxes known room

/-- Values are moved from the stack to local variables. -/
theorem passes_spill (distinct : (slots.map (·.number.toNat)).Nodup)
    (inside : ∀ slot ∈ slots, slot.number.toNat < f.locals.size)
    (arity : slots.length = values.length) (stack : f.stack = values ++ rest) :
    ∃ locals,
      (∀ s, Passes m (slots.map Slot.spill) f s { f with stack := rest, locals } (· = s.store)) ∧
      ({ f with stack := rest, locals } : Frame).HoldsIn slots values ∧
      locals.size = f.locals.size ∧
      ∀ k, k ∉ slots.map (·.number.toNat) → locals[k]? = f.locals[k]? := by
  induction slots generalizing f values with
  | nil =>
    obtain rfl : values = [] := List.eq_nil_of_length_eq_zero arity.symm
    obtain rfl : f.stack = rest := stack
    exact ⟨f.locals, fun _ => .nil rfl, .nil, rfl, fun _ _ => rfl⟩
  | cons slot slots ih =>
    cases values with
    | nil => cases arity
    | cons value values =>
      rw [List.map_cons, List.nodup_cons] at distinct
      obtain ⟨own, others⟩ := List.forall_mem_cons.mp inside
      let f₁ : Frame :=
        { f with
          stack := values ++ rest
          locals := f.locals.setIfInBounds slot.number.toNat value }
      have first (s : MachineState) : Passes m [slot.spill] f s f₁ (· = s.store) :=
        passes_stloc stack own
      have wide : ∀ slot ∈ slots, slot.number.toNat < f₁.locals.size := by
        simpa [f₁] using others
      obtain ⟨locals, passes, holds, size, frame⟩ :=
        ih (f := f₁) distinct.2 wide (Nat.succ.inj arity) rfl
      refine ⟨locals, fun s => (first s).cons fun s₁ _ store₁ => store₁ ▸ passes s₁,
        .cons ?_ holds, ?_, fun k other => ?_⟩
      · -- The variables of the other slots are different ones.
        have kept := frame slot.number.toNat distinct.1
        simpa [f₁, own] using kept
      · simpa [f₁] using size
      · rw [List.map_cons, List.mem_cons, not_or] at other
        rw [frame k other.2]
        simp [f₁, Ne.symm other.1]

/-- Values are put back on the stack. -/
theorem passes_reload (holds : f.HoldsIn slots values)
    (room : f.stack.length + slots.length ≤ f.maxStack) :
    Passes m (slots.map Slot.reload) f s { f with stack := values.reverse ++ f.stack }
      (· = s.store) := by
  induction slots generalizing f s values with
  | nil =>
    cases holds
    exact .nil rfl
  | cons slot slots ih =>
    obtain ⟨value, values, known, others, rfl⟩ := List.forall₂_cons_left_iff.mp holds
    rw [List.length_cons] at room
    refine (passes_ldloc known (by omega)).cons fun s₁ like₁ store₁ => ?_
    have more : (value :: f.stack).length + slots.length ≤ f.maxStack := by
      rw [List.length_cons]
      omega
    have later := ih (f := { f with stack := value :: f.stack }) (s := s₁) others more
    rw [List.reverse_cons, List.append_assoc]
    exact store₁ ▸ later

end Slots

section Arrays

variable {m : Machine} {f : Frame} {s : MachineState} {type : Ty} {rest : List Value}

/-- The store with another object in the place of one of its objects. -/
def Store.replace (s : Store) (ref : Nat) (o : StoredObject) : Store :=
  { s with objects := s.objects.setIfInBounds ref o }

theorem toInt_index {n : Nat} (small : n < 0x80000000) :
    (Int32.ofNat n).toInt64.toInt = n := by
  rw [Int32.toInt_toInt64, Int32.toInt_ofNat_of_lt small]

theorem zero_le_index {n : Nat} (small : n < 0x80000000) : 0 ≤ (Int32.ofNat n).toInt64 := by
  rw [Int64.le_iff_toInt_le, toInt_index small]
  exact Int.natCast_nonneg n

theorem position?_index {n size : Nat} (small : n < 0x80000000) (inside : n < size) :
    StoredObject.position? (Int32.ofNat n).toInt64 size = some n := by
  unfold StoredObject.position?
  rw [toInt_index small, Int.toNat_natCast]
  exact if_pos ⟨zero_le_index small, inside⟩

/-- A new array is made, of the length on the stack. -/
theorem passes_newarr {token : Token} {length : Nat} (known : m.module.typeAt token = .ok type)
    (small : length < 0x80000000) (stack : f.stack = .int32 (Int32.ofNat length) :: rest)
    (room : rest.length < f.maxStack) :
    Passes m [.withToken .newarr token] f s { f with stack := .object s.store.objects.size :: rest }
      (· = { s.store with objects := s.store.objects.push (.array (f.close type)
        (Array.replicate length (Value.default (f.close type)))) }) := by
  refine .of_step rfl fun labels offset i read => ?_
  let made : Store :=
    { s.store with objects := s.store.objects.push (.array (f.close type)
        (Array.replicate length (Value.default (f.close type)))) }
  refine ⟨{ s.tick offset with store := made }, fun execute => ?_, rfl,
    ⟨rfl, rfl, s.map_method_tick offset⟩, rfl⟩
  have act : YieldsWith (Step.act (Act.newArray (f.close type) length)) { f with stack := rest }
      (s.tick offset) (.object s.store.objects.size) { f with stack := rest }
      { s.tick offset with store := made } :=
    yieldsWith_act.mpr ⟨made, rfl, rfl, rfl⟩
  have newArray : YieldsWith (m.newArray ⟨offset, .newarr, .token token⟩) f (s.tick offset) ()
      { f with stack := .object s.store.objects.size :: rest }
      { s.tick offset with store := made } := by
    unfold Machine.newArray
    refine (yieldsWith_pure.mpr ⟨rfl, rfl, rfl⟩ : YieldsWith (Step.tokenOf _) f _ token f _).bind
      (yieldsWith_typeFor.mpr ⟨type, known, rfl, rfl, rfl⟩) |>.bind ?_
    refine yieldsWith_bind.mpr ⟨.int32 (Int32.ofNat length), { f with stack := rest },
      s.tick offset, yieldsWith_pop.mpr ⟨stack, rfl, rfl⟩, ?_⟩
    show YieldsWith (if 0 ≤ (Int32.ofNat length).toInt64 then _ else _) _ _ _ _ _
    rw [if_pos (zero_le_index small), toInt_index small, Int.toNat_natCast]
    exact act.bind (yieldsWith_push.mpr ⟨room, rfl, rfl⟩)
  cases read
  exact newArray.bind (yieldsWith_pure.mpr ⟨rfl, rfl, rfl⟩)

/-- A value becomes an element of an array. -/
theorem passes_stelemRef {ref index : Nat} {element : Ty} {items : Array Value} {value : Value}
    (small : index < 0x80000000) (inside : index < items.size)
    (found : s.store.objects[ref]? = some (.array element items))
    (stack : f.stack = value :: .int32 (Int32.ofNat index) :: .object ref :: rest) :
    Passes m [.plain .stelemRef] f s { f with stack := rest }
      (· = s.store.replace ref (.array element (items.setIfInBounds index value))) := by
  refine .of_step rfl fun labels offset i read => ?_
  let made : Store := s.store.replace ref (.array element (items.setIfInBounds index value))
  refine ⟨{ s.tick offset with store := made }, fun execute => ?_, rfl,
    ⟨rfl, rfl, s.map_method_tick offset⟩, rfl⟩
  have object : Yields (Act.object ref) s.store (.array element items) s.store := by
    unfold Act.object
    rw [yields_get_bind, found]
    exact yields_pure.mpr ⟨rfl, rfl⟩
  have change : Yields (Act.modifyObject ref
      (·.setElement (Int32.ofNat index).toInt64 value)) s.store () made := by
    unfold Act.modifyObject
    refine object.bind (yields_liftM_bind.mpr
      ⟨.array element (items.setIfInBounds index value), ?_, yields_modify.mpr rfl⟩)
    simp only [StoredObject.setElement, position?_index small inside]
    rfl
  have stored : YieldsWith Step.storeElement f (s.tick offset) () { f with stack := rest }
      { s.tick offset with store := made } := by
    unfold Step.storeElement Step.popIndex
    refine yieldsWith_bind.mpr ⟨value, { f with stack := _ }, _, yieldsWith_pop.mpr
      ⟨stack, rfl, rfl⟩, ?_⟩
    refine yieldsWith_bind.mpr ⟨(Int32.ofNat index).toInt64, { f with stack := _ }, _,
      yieldsWith_bind.mpr ⟨.int32 (Int32.ofNat index), { f with stack := .object ref :: rest }, _,
        yieldsWith_pop.mpr ⟨rfl, rfl, rfl⟩, yieldsWith_pure.mpr ⟨rfl, rfl, rfl⟩⟩, ?_⟩
    refine yieldsWith_bind.mpr ⟨.object ref, { f with stack := rest }, _, yieldsWith_pop.mpr
      ⟨rfl, rfl, rfl⟩, ?_⟩
    refine (yieldsWith_pure.mpr ⟨rfl, rfl, rfl⟩ : YieldsWith (Step.referent _) _ _ ref _ _).bind ?_
    exact yieldsWith_act.mpr ⟨made, change, rfl, rfl⟩
  cases read
  exact stored.bind (yieldsWith_pure.mpr ⟨rfl, rfl, rfl⟩)

/-- Code that loads a value wherever there is room for it, whatever else is on the stack. -/
def Loads (m : Machine) (f : Frame) (items : List ListingItem) (value : Value) : Prop :=
  ∀ stack s, stack.length < f.maxStack →
    Passes m items { f with stack } s { f with stack := value :: stack } (· = s.store)

/-- Values become the elements of an array, from an index on. -/
theorem passes_fillFrom {loads : List (List ListingItem)} {values : List Value}
    (load : List.Forall₂ (Loads m f) loads values) (index : Nat) {ref : Nat} {element : Ty}
    {items : Array Value} (size : items.size = index + loads.length) (small : items.size < 0x80000000)
    (found : s.store.objects[ref]? = some (.array element items))
    (room : rest.length + 3 < f.maxStack) :
    Passes m (fillFrom index loads) { f with stack := .object ref :: rest } s
      { f with stack := .object ref :: rest }
      (· = s.store.replace ref (.array element (items.toList.take index ++ values).toArray)) := by
  -- Each load stores one element more, so below the index there are always those stored before.
  induction load generalizing index items s with
  | nil =>
    have full : items.toList.take index = items.toList :=
      List.take_of_length_le (by simp [size])
    refine .nil ?_
    obtain ⟨inside, here⟩ := Array.getElem?_eq_some_iff.mp found
    rw [full, List.append_nil, Array.toArray_toList, ← here]
    simp [Store.replace, Array.setIfInBounds, inside]
  | @cons items₁ value loads values first load ih =>
    rw [List.length_cons] at size
    rw [fillFrom, List.append_assoc, List.append_assoc, List.cons_append]
    refine (passes_dup rfl (by simp; omega)).cons fun s₁ like₁ store₁ => ?_
    rw [← store₁] at found ⊢
    refine (passes_int32 _ (by simp; omega)).cons fun s₂ like₂ store₂ => ?_
    rw [← store₂] at found ⊢
    refine (first _ s₂ (by simp; omega)).append fun s₃ like₃ store₃ => ?_
    rw [← store₃] at found ⊢
    have inside : index < items.size := by omega
    refine (passes_stelemRef (by omega) inside found rfl).append fun s₄ like₄ store₄ => ?_
    have there : s₄.store.objects[ref]? =
        some (.array element (items.setIfInBounds index value)) := by
      obtain ⟨inside, -⟩ := Array.getElem?_eq_some_iff.mp found
      rw [store₄]
      simp [Store.replace, inside]
    have rest := ih (index + 1) (by simp [size]; omega) (by simpa using small) there
    have same : s₄.store.replace ref
        (.array element ((items.setIfInBounds index value).toList.take (index + 1) ++ values).toArray) =
        s₃.store.replace ref
          (.array element (items.toList.take index ++ value :: values).toArray) := by
      have step : (items.setIfInBounds index value).toList.take (index + 1) =
          items.toList.take index ++ [value] := by
        have inside' : index < items.toList.length := by simpa using inside
        rw [Array.toList_setIfInBounds, List.take_add_one, List.take_set_of_le (Nat.le_refl _),
          List.getElem?_set_self inside', Option.toList_some]
      rw [store₄, step]
      simp [Store.replace]
    rw [same] at rest
    exact rest

private theorem setIfInBounds_push_size {α : Type} (array : Array α) (old new : α) :
    (array.push old).setIfInBounds array.size new = array.push new := by
  apply Array.ext'
  simp

/-- An array of values is made. -/
theorem passes_makeArray {token : Token} {loads : List (List ListingItem)} {values : List Value}
    (known : m.module.typeAt token = .ok type) (load : List.Forall₂ (Loads m f) loads values)
    (small : loads.length < 0x80000000) (room : rest.length + 3 < f.maxStack) :
    Passes m (makeArray token loads) { f with stack := rest } s
      { f with stack := .object s.store.objects.size :: rest }
      (· = { s.store with objects := s.store.objects.push (.array (f.close type) values.toArray) }) := by
  rw [makeArray, fillArray_eq_fillFrom]
  refine (passes_int32 _ (by simp; omega)).cons fun s₁ like₁ store₁ => ?_
  rw [← store₁]
  refine (passes_newarr known small rfl (by simp; omega)).cons fun s₂ like₂ store₂ => ?_
  have found : s₂.store.objects[s₁.store.objects.size]? = some (.array (f.close type)
      (Array.replicate loads.length (Value.default (f.close type)))) := by
    rw [store₂]
    simp [Frame.close]
  have filled := passes_fillFrom load 0 (by simp) (by simpa using small) found room
  have same : s₂.store.replace s₁.store.objects.size (.array (f.close type)
      ((Array.replicate loads.length (Value.default (f.close type))).toList.take 0 ++
        values).toArray) =
      { s₁.store with
        objects := s₁.store.objects.push (.array (f.close type) values.toArray) } := by
    rw [store₂]
    simp [Store.replace, Frame.close, setIfInBounds_push_size]
  rw [same] at filled
  exact filled

end Arrays

end Interpose
