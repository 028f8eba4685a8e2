import Interpose.Proofs.Machine.VirtualCalls

/-!
# Overloads

Methods of one name are told apart by their parameters.  The search for the definition of a method
compares them only where a type defines several methods that come into question.  A single one is taken
as it is, even if its parameters are other ones and the method that was called is defined further up.

## Main definitions

* `Module.namesakes` — the methods of a type that come into question for a method
* `Module.overload?` — the search that compares parameters on every type
* `Machine.Runs` — a call runs a method of the module

## Main results

* `Module.overload?_eq_some_iff` — when both searches find the same
* `Machine.runs_iff` — a call runs what the search finds
* `Machine.runs_overload_iff` — when a call runs the overload that it names
* `Machine.not_forall_runs_overload` — it does not always
-/

namespace Interpose

namespace Module

variable {m : Module} {method : Method} {type start : Ty} {token owner : Token} {d : MethodDef}
  {fuel : Nat}

/-- The methods that a type defines which come into question for a method. -/
def namesakes (m : Module) (method : Method) (owner : Token) : List (Token × MethodDef) :=
  m.methodsWithTokens.filter fun (_, d) => resembles owner method d

theorem typeToken?_eq (m : Module) (name : String) :
    m.typeToken? name = (m.types.toList.findIdx? (·.name = name)).map (tokenAt .typeDef) := by
  unfold typeToken?
  rw [← List.findIdx?_toArray, Array.toArray_toList]

theorem typeNamed?_eq (m : Module) (name : String) :
    m.typeNamed? name = m.types.toList.find? (·.name = name) := by
  unfold typeNamed?
  rw [Array.find?_toList]

/-- The definition of a method on one type, told by its parameters even if there is a single one that
comes into question. -/
def overloadOn? (m : Module) (method : Method) (type : Ty) : Option Token := do
  let owner ← m.typeToken? type.typeName
  ((m.namesakes method owner).find? fun (_, d) => sameParameters type method d).map Prod.fst

/-- The first type on the way along the base types that defines a method with the parameters that it is
called with, and its definition.  The search ends after `fuel` types. -/
def overload? (m : Module) (method : Method) : (fuel : Nat) → Ty → Option (Ty × Token)
  | 0, _ => none
  | fuel + 1, type =>
    match m.overloadOn? method type with
    | some token => some (type, token)
    | none => (m.baseOf type).bind (m.overload? method fuel)

/-- What is found on a type is told by its parameters, or is the only one that comes into question. -/
theorem definitionOn?_cases (found : m.definitionOn? method type = some token) :
    ∃ owner d, m.typeToken? type.typeName = some owner ∧ (token, d) ∈ m.namesakes method owner ∧
      ((sameParameters type method d = true ∧ m.overloadOn? method type = some token) ∨
        (sameParameters type method d = false ∧ m.overloadOn? method type = none ∧
          m.namesakes method owner = [(token, d)])) := by
  unfold definitionOn? at found
  obtain ⟨owner, known, found⟩ := Option.bind_eq_some_iff.mp found
  have search : m.overloadOn? method type =
      ((m.namesakes method owner).find? fun (_, d) => sameParameters type method d).map Prod.fst := by
    unfold overloadOn?
    rw [known]
    rfl
  rw [search]
  unfold namesakes
  split at found
  case h_1 token' d single =>
    cases found
    refine ⟨owner, d, known, single ▸ List.mem_singleton_self _, ?_⟩
    rw [single]
    cases same : sameParameters type method d with
    | true => exact .inl ⟨rfl, by simp [same]⟩
    | false => exact .inr ⟨rfl, by simp [same], rfl⟩
  case h_2 =>
    obtain ⟨⟨token', d⟩, first, rfl⟩ := Option.map_eq_some_iff.mp found
    have same : sameParameters type method d = true := by simpa using List.find?_some first
    exact ⟨owner, d, known, List.mem_of_find?_eq_some first,
      .inl ⟨same, congrArg (Option.map Prod.fst) first⟩⟩

/-- Where nothing is found, nothing is found by parameters. -/
theorem overloadOn?_eq_none (missing : m.definitionOn? method type = none) :
    m.overloadOn? method type = none := by
  unfold definitionOn? at missing
  unfold overloadOn? namesakes
  cases known : m.typeToken? type.typeName with
  | none => rfl
  | some owner =>
    simp only [known, Option.bind_eq_bind, Option.bind_some] at missing
    split at missing
    · cases missing
    · exact missing

/-- Both searches find the same if the one that does not always compare parameters ends at a definition
that has the right ones. -/
theorem overload?_eq_some_iff (found : m.implementation? method fuel start = some (type, token)) :
    m.overload? method fuel start = some (type, token) ↔ m.overloadOn? method type = some token := by
  constructor
  · intro same
    clear found
    induction fuel generalizing start with
    | zero => cases same
    | succ fuel ih =>
      unfold overload? at same
      split at same
      · rename_i here
        cases same
        exact here
      · obtain ⟨base, -, further⟩ := Option.bind_eq_some_iff.mp same
        exact ih further
  · intro told
    induction fuel generalizing start with
    | zero => cases found
    | succ fuel ih =>
      unfold implementation? at found
      unfold overload?
      -- On a type that the one search goes past, there is nothing for the other one either.
      split at found
      · cases found
        rw [told]
      · rename_i missing
        obtain ⟨base, above, further⟩ := Option.bind_eq_some_iff.mp found
        rw [overloadOn?_eq_none missing, above]
        exact ih further

end Module

namespace Machine

variable {m : Machine} {method callee : Method} {receiver : Option Value} {arguments values : List Value}
  {isVirtual : Bool} {s : MachineState} {type start : Ty} {token : Token}

/-- Whatever it is that runs methods, a call runs the method of a token, as the given callee and with the
given values for its receiver and its parameters. -/
def Runs (m : Machine) (method : Method) (receiver : Option Value) (arguments : List Value)
    (isVirtual : Bool) (s : MachineState) (token : Token) (callee : Method) (values : List Value) : Prop :=
  ∀ execute : Executor, (m.dispatch execute method receiver arguments isVirtual).run.run s =
    (execute token callee values).run.run s

/-- A call that does the same whatever runs methods runs none. -/
private theorem Runs.depends (runs : m.Runs method receiver arguments isVirtual s token callee values)
    (out : Except Error Value × MachineState)
    (same : ∀ execute, (m.dispatch execute method receiver arguments isVirtual).run.run s = out) :
    False := by
  have void := runs fun _ _ _ s => (.ok .void, s)
  have null := runs fun _ _ _ s => (.ok .null, s)
  rw [same] at void null
  cases void.symm.trans null

/-- What is run is told by what runs it. -/
private theorem eq_of_forall_executor {token' : Token} {callee' : Method} {values' : List Value}
    (same : ∀ execute : Executor, (execute token callee values).run.run s =
      (execute token' callee' values').run.run s) :
    token = token' ∧ callee = callee' ∧ values = values' := by
  -- An executor that knows one call tells it from every other one.
  let knowing : Executor := fun t c v s =>
    (if t = token' ∧ c = callee' ∧ v = values' then .ok .void else .ok .null, s)
  have told : ((if token = token' ∧ callee = callee' ∧ values = values' then .ok .void else .ok .null, s) :
      Except Error Value × MachineState) = (.ok .void, s) :=
    (same knowing).trans (congrArg (·, s) (if_pos ⟨rfl, rfl, rfl⟩))
  split at told
  case isTrue equal => exact equal
  case isFalse => cases told

/-- Where a search starts does not depend on what it leaves. -/
private theorem startType_cases (m : Machine) (method : Method) (receiver : Option Value)
    (isVirtual : Bool) (s : MachineState) :
    (∃ start, Yields (m.startType method receiver isVirtual) s start s) ∨
      ∃ e, Fails (m.startType method receiver isVirtual) s e s := by
  unfold startType
  cases receiver with
  | none => exact .inl ⟨_, rfl⟩
  | some value =>
    dsimp only
    split
    · exact .inr ⟨_, rfl⟩
    · split
      · exact .inl ⟨_, rfl⟩
      · exact .inl ⟨_, rfl⟩

theorem declaringType_of_calleeOn (known : m.calleeOn method type token = .ok callee) :
    callee.declaringType = type := by
  obtain ⟨defined, -, called⟩ := bind_eq_ok_iff.mp known
  cases called
  simp [Method.instantiate]

theorem dispatchFrom_of_some (execute : Executor)
    (found : m.module.implementation? method dispatchLimit start = some (type, token))
    (known : m.calleeOn method type token = .ok callee) :
    (m.dispatchFrom execute method receiver arguments start).run.run s =
      (execute token callee (withReceiver callee receiver arguments)).run.run s := by
  unfold dispatchFrom
  rw [found]
  dsimp only
  rw [known]
  rfl

/-- What a call runs is what the search finds that it makes. -/
theorem runs_iff : m.Runs method receiver arguments isVirtual s token callee values ↔
    Intrinsic.ofMethod? method = none ∧ ∃ start type,
      Yields (m.startType method receiver isVirtual) s start s ∧
      m.module.implementation? method dispatchLimit start = some (type, token) ∧
      m.calleeOn method type token = .ok callee ∧
      withReceiver callee receiver arguments = values := by
  constructor
  · intro runs
    -- A call that ends in any other way than by running a method does the same whatever runs methods.
    cases intrinsic : Intrinsic.ofMethod? method with
    | some i =>
      refine (runs.depends ((m.intrinsic i receiver arguments).run.run s) fun execute => ?_).elim
      unfold dispatch
      rw [intrinsic]
    | none =>
      refine ⟨rfl, ?_⟩
      obtain ⟨start, starts⟩ | ⟨e, fails⟩ := startType_cases m method receiver isVirtual s
      case inr =>
        refine (runs.depends (.error e, s) fun execute => ?_).elim
        rw [dispatch_of_ofMethod?_none intrinsic]
        exact fails_bind.mpr (.inl fails)
      have searches (execute : Executor) :
          (m.dispatch execute method receiver arguments isVirtual).run.run s =
            (m.dispatchFrom execute method receiver arguments start).run.run s := by
        rw [dispatch_of_ofMethod?_none intrinsic, starts.run_bind]
      cases found : m.module.implementation? method dispatchLimit start with
      | none =>
        let idle : Executor := fun _ _ _ s => (.ok .void, s)
        refine (runs.depends ((m.dispatchFrom idle method receiver arguments start).run.run s)
          fun execute => ?_).elim
        rw [searches, dispatchFrom_of_none execute idle found]
      | some pair =>
        obtain ⟨type, token'⟩ := pair
        cases known : m.calleeOn method type token' with
        | error e =>
          refine (runs.depends (.error e, s) fun execute => ?_).elim
          rw [searches]
          unfold dispatchFrom
          rw [found]
          dsimp only
          rw [known]
          rfl
        | ok callee' =>
          have same (execute : Executor) : (execute token' callee'
              (withReceiver callee' receiver arguments)).run.run s = (execute token callee values).run.run s := by
            rw [← dispatchFrom_of_some execute found known, ← searches, runs execute]
          obtain ⟨rfl, rfl, given⟩ := eq_of_forall_executor same
          exact ⟨start, type, starts, found, known, given⟩
  · rintro ⟨intrinsic, start, type, starts, found, known, rfl⟩ execute
    rw [dispatch_of_ofMethod?_none intrinsic, starts.run_bind, dispatchFrom_of_some execute found known]

/-- What a call runs has the name and the numbers of parameters and type arguments that were called, and
it has a receiver just if the call has one.  It has the parameters that were called just if the search
finds it too that compares them on every type.  If it has other ones, it is the only method of its type
that comes into question. -/
theorem runs_overload_iff (runs : m.Runs method receiver arguments isVirtual s token callee values) :
    ∃ start owner d, Yields (m.startType method receiver isVirtual) s start s ∧
      m.module.implementation? method dispatchLimit start = some (callee.declaringType, token) ∧
      m.module.typeToken? callee.declaringType.typeName = some owner ∧
      (token, d) ∈ m.module.namesakes method owner ∧
      (d.parameters.map (Ty.instantiate callee.declaringType.arguments method.typeArguments) =
          method.parameters ↔
        m.module.overload? method dispatchLimit start = some (callee.declaringType, token)) ∧
      (d.parameters.map (Ty.instantiate callee.declaringType.arguments method.typeArguments) ≠
          method.parameters → m.module.namesakes method owner = [(token, d)]) := by
  obtain ⟨-, start, type, starts, found, known, -⟩ := runs_iff.mp runs
  obtain rfl := declaringType_of_calleeOn known
  obtain ⟨owner, d, owned, member, told⟩ :=
    Module.definitionOn?_cases (definitionOn?_of_implementation? found)
  refine ⟨start, owner, d, starts, found, owned, member, ?_, fun differs => ?_⟩
  · rw [Module.overload?_eq_some_iff found]
    obtain ⟨same, here⟩ | ⟨differ, nowhere, -⟩ := told
    · exact iff_of_true (of_decide_eq_true same) here
    · exact iff_of_false (of_decide_eq_false differ) (by rw [nowhere]; exact nofun)
  · obtain ⟨same, -⟩ | ⟨-, -, single⟩ := told
    · exact absurd (of_decide_eq_true same) differs
    · exact single

/-- A class that prints texts, and a class below it that prints numbers by a method of the same name. -/
def printingModule : Module where
  name := "Demo"
  types := #[.ofClass "Demo.Printer",
    { name := "Demo.NumberPrinter", base := some (.classType "Demo.Printer") }]
  methods := #[
    { owner := Module.tokenAt .typeDef 0, name := "Show", flags := .isVirtual, parameters := [.string],
      returnType := .int32, body := some { code := [0x17, 0x2A] } },
    { owner := Module.tokenAt .typeDef 1, name := "Show", parameters := [.int32], returnType := .int32,
      body := some { code := [0x18, 0x2A] } }]

/-- The machine that runs them. -/
def printing : Machine where
  program := .ofModule printingModule

/-- The method that prints texts. -/
def showText : Method where
  declaringType := .classType "Demo.Printer"
  name := "Show"
  parameters := [.string]
  returnType := .int32
  flags := .isVirtual

/-- The method that prints numbers. -/
def showNumber : Method where
  declaringType := .classType "Demo.NumberPrinter"
  name := "Show"
  parameters := [.int32]
  returnType := .int32

/-- A state with an object that prints numbers. -/
def withNumberPrinter : MachineState where
  store := { objects := #[.instance (.classType "Demo.NumberPrinter") []] }

/-- The text goes to the method that prints numbers. -/
theorem runs_showNumber : printing.Runs showText (some (.object 0)) [.null] true withNumberPrinter
    (Module.tokenAt .methodDef 1) showNumber [.object 0, .null] := by
  have single : printing.module.definitionOn? showText (.classType "Demo.NumberPrinter") =
      some (Module.tokenAt .methodDef 1) := by
    unfold Module.definitionOn?
    rw [Module.typeToken?_eq]
    rfl
  refine runs_iff.mpr ⟨rfl, .classType "Demo.NumberPrinter", .classType "Demo.NumberPrinter", rfl, ?_, rfl,
    rfl⟩
  rw [dispatchLimit, Module.implementation?, single]

/-- The search that compares parameters goes on to the method that prints texts. -/
theorem overload?_showText :
    printing.module.overload? showText dispatchLimit (.classType "Demo.NumberPrinter") =
      some (.classType "Demo.Printer", Module.tokenAt .methodDef 0) := by
  have passed : printing.module.overloadOn? showText (.classType "Demo.NumberPrinter") = none := by
    unfold Module.overloadOn?
    rw [Module.typeToken?_eq]
    rfl
  have above : printing.module.baseOf (.classType "Demo.NumberPrinter") =
      some (.classType "Demo.Printer") := by
    unfold Module.baseOf
    simp only [Module.typeNamed?_eq]
    rfl
  have found : printing.module.overloadOn? showText (.classType "Demo.Printer") =
      some (Module.tokenAt .methodDef 0) := by
    unfold Module.overloadOn?
    rw [Module.typeToken?_eq]
    rfl
  rw [dispatchLimit, Module.overload?, passed, above]
  show printing.module.overload? showText 64 (.classType "Demo.Printer") = _
  rw [Module.overload?, found]

theorem runs_overload_iff_printing :
    printing.Runs showText (some (.object 0)) [.null] true withNumberPrinter
      (Module.tokenAt .methodDef 1) showNumber [.object 0, .null] ∧
    printing.module.overload? showText dispatchLimit (.classType "Demo.NumberPrinter") =
      some (.classType "Demo.Printer", Module.tokenAt .methodDef 0) ∧
    ∃ owner d, (Module.tokenAt .methodDef 1, d) ∈ printing.module.namesakes showText owner ∧
      d.parameters.map (Ty.instantiate [] []) ≠ showText.parameters ∧
      printing.module.namesakes showText owner = [(Module.tokenAt .methodDef 1, d)] := by
  refine ⟨runs_showNumber, overload?_showText, ?_⟩
  obtain ⟨start, owner, d, starts, -, owned, member, told, single⟩ := runs_overload_iff runs_showNumber
  obtain ⟨rfl, -⟩ := starts.unique (rfl : Yields _ _ (Ty.classType "Demo.NumberPrinter") _)
  -- The other search goes on to the class above, so the parameters are other ones.
  have differs := mt told.mp (by rw [overload?_showText]; decide)
  exact ⟨owner, d, member, differs, single differs⟩

/-- A call may run a method that has other parameters than the one that was called. -/
theorem not_forall_runs_overload : ¬ ∀ (m : Machine) (method callee : Method) (receiver : Option Value)
    (arguments values : List Value) (isVirtual : Bool) (s : MachineState) (token : Token) (d : MethodDef),
    (∀ type ∈ method.declaringType :: method.returnType :: method.parameters ++ method.typeArguments,
      type.isOpen = false) →
    m.Runs method receiver arguments isVirtual s token callee values →
    m.module.methodDefAt token = .ok d →
    d.parameters.map (Ty.instantiate callee.declaringType.arguments method.typeArguments) =
      method.parameters := by
  intro right
  have same := right printing showText showNumber (some (.object 0)) [.null] [.object 0, .null] true
    withNumberPrinter (Module.tokenAt .methodDef 1) _ (by decide) runs_showNumber rfl
  cases same

end Machine

end Interpose
