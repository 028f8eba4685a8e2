import Interpose.Proofs.Weaving.Heights
import Interpose.Proofs.Weaving.Stream
import Interpose.Proofs.Weaving.Transparency

/-!
# The depth of the stack in woven code

A woven method allows for twelve values more on its stack than it did before.  That is enough: wherever
control comes to the code of an instruction, the stack is as high as it was for the instruction, so
that only the scaffold adds to what the method needed itself.  A scaffold leaves a result if the method
that is called has one, and this may be one that the call itself would not leave: if the type of the
result is a type parameter in the place of which there is none.

## Main definitions

* `CallSite.Vanishes` — a call leaves nothing although the method has a result
* `Weave.Fits`, `Weave.KeepsResults` — what is assumed of the instructions that were there before

## Main results

* `Weave.safeFrom_start` — a run from the code of any instruction on
* `staysBelow_of_interceptCalls` — no woven instruction puts a value on a stack that is too high
* `not_forall_staysBelow_of_interceptCalls` — one may if calls leave nothing
-/

namespace Interpose

section Sites

variable {m : Machine} {f : Frame} {i : Instruction} {site : CallSite}

/-- A call takes as many values from the stack as there are local variables for them. -/
theorem CallSite.IsAt.takes_stackUse (isAt : site.IsAt m.module i) :
    (m.stackUse f i).takes = site.slotTypes.length := by
  obtain ⟨method, stands, target⟩ := isAt.target_eq
  have called : m.called? f i = some (f.callee site.token method) := by
    rw [Machine.called?, isAt.token_eq, Option.bind_some, stands]
    rfl
  have arity := Frame.length_parameters_callee f site.token method
  have this := Frame.hasThis_callee f site.token method
  have kinds := isAt.isCall
  rw [CallSite.slotTypes, CallSite.hasReceiver, CallSite.isConstruction, isAt.instruction_eq, target,
    List.length_append, ← arity, ← this, Machine.stackUse, called]
  obtain ⟨offset, op, operand⟩ := i
  cases op with
  | call | callvirt =>
    show (if _ then 1 else 0) + _ = _
    congr 1
    cases (f.callee site.token method).hasThis <;> rfl
  | newobj => exact (Nat.zero_add _).symm
  | _ => cases kinds

/-- As the running method means it, a call leaves nothing on the stack, although the method that is
named has a result. -/
def CallSite.Vanishes (site : CallSite) (m : Machine) (f : Frame) : Prop :=
  site.resultType ≠ .void ∧ (m.stackUse f site.instruction).puts = 0

end Sites

section Kept

variable {c c' : Code} {start : Nat → Nat} {i i' : Instruction}

/-- An instruction uses the stack like the one that it stands for. -/
theorem Code.Stands.stackUse_eq (h : c.Stands c' start i i') (m : Machine) (f : Frame) :
    m.stackUse f i' = m.stackUse f i := by
  cases branches : i.op.isBranch with
  | false =>
    obtain ⟨offset, rfl⟩ := h.straight branches
    rfl
  | true =>
    obtain ⟨use, does⟩ := Option.isSome_iff_exists.mp (Opcode.isSome_stackUse?_of_isBranch branches)
    have does' : i'.op.stackUse? = some use := by
      rw [← Opcode.stackUse?_widened, (h.branches branches).2, Opcode.stackUse?_widened, does]
    rw [Machine.stackUse_of_stackUse? does, Machine.stackUse_of_stackUse? does']

/-- Control goes to the code of an instruction from the one that stands for another one. -/
theorem Code.Stands.exists_eq_start (h : c.Stands c' start i i') (decoded : c.IsDecoded)
    (member : i ∈ c.instructions) {position place target : Nat}
    (next : start (position + 1) = place + 1) (goes : c'.MayGo i' place target) :
    ∃ position', target = start position' := by
  rcases goes with ⟨rfl, -⟩ | ⟨branches, offset, known, found⟩
  · exact ⟨position + 1, next.symm⟩
  · have branches' : i.op.isBranch = true := by
      cases straight : i.op.isBranch with
      | true => rfl
      | false =>
        obtain ⟨_, rfl⟩ := h.straight straight
        exact straight.symm.trans branches
    -- The code of the instruction to which the other one branches is where this one does.
    obtain ⟨target', operand⟩ := (decoded.isFor member).exists_target branches'
    have known' : i.target? = some target' :=
      Instruction.target?_eq_some_iff.mpr operand
    obtain ⟨position', there, -⟩ := decoded.lands member known'
    obtain ⟨_, same, lands⟩ := h.lands target' branches' known'
    rw [known, Option.some.injEq] at same
    subst same
    exact ⟨position', Option.some.inj (found.symm.trans (lands position' there))⟩

end Kept

namespace Weave

section Places

variable {m : Module} {imports : Imports} {token : Token} {d : MethodDef} {body woven : Body}

/-- Where control comes to the code of an instruction, the instruction would not put a value on a stack
that holds as many as the body allows for. -/
def Fits (w : Weave m imports token d body woven) (machine : Machine) (a : Place) : Prop :=
  ∀ index entry, w.entries[index]? = some entry → a.position = w.start index →
    ¬ machine.PushesOnto a.frame entry.1 body.maxStack.toNat

/-- Where control comes to the code of a call, the call would leave its result. -/
def KeepsResults (w : Weave m imports token d body woven) (machine : Machine) (a : Place) : Prop :=
  ∀ index i site, w.entries[index]? = some (i, some site) → a.position = w.start index →
    ¬ site.Vanishes machine a.frame

/-- A place fits if no instruction of the body puts anything on the stack there. -/
theorem fits_of_puts_eq_zero (w : Weave m imports token d body woven) {machine : Machine} {a : Place}
    {instructions : List Instruction} (decoded : decodeCode body.code = .ok instructions)
    (none : ∀ i ∈ instructions, (machine.stackUse a.frame i).puts = 0) : w.Fits machine a := by
  intro index entry found _ pushes
  have inside : entry.1 ∈ instructions := by
    rw [Except.ok.inj (decoded.symm.trans w.decoded)]
    exact List.mem_map_of_mem (List.mem_of_getElem? found)
  exact absurd (none _ inside) (Nat.ne_of_gt pushes.1)

end Places

section Runs

variable {m : Machine} {imports : Imports} {token : Token} {d : MethodDef} {body woven : Body}
  {c c' : Code} {method : Method}

/-- There is nothing behind the code of the last instruction. -/
theorem getElem?_start_eq_none (w : Weave m.module imports token d body woven)
    (loaded : Code.ofBody body = .ok (some c)) (loaded' : Code.ofBody woven = .ok (some c'))
    {index : Nat} (beyond : c.instructions[index]? = none) :
    c'.instructions[w.start index]? = none := by
  have taken : w.parts.take index = w.parts := by
    refine List.take_of_length_le ?_
    rwa [← w.parts_of_entries.length_eq, ← List.length_map Prod.fst, w.map_fst_entries loaded,
      ← List.getElem?_eq_none_iff, Array.getElem?_toList]
  rw [← Array.getElem?_toList, List.getElem?_eq_none_iff, w.instructions_eq loaded',
    length_instructionsFrom, start, taken, ← instructionCount_append]
  exact Nat.le_refl _

section Instruction

variable {assumed : Place → Prop} {takes puts fuel height : Nat} {i : Instruction}
  {front back : List (Instruction × Option CallSite)}

/-- An instruction that is kept puts no value on a stack that is too high. -/
private theorem safeFrom_kept (w : Weave m.module imports token d body woven)
    (loaded : Code.ofBody body = .ok (some c)) (loaded' : Code.ofBody woven = .ok (some c'))
    (split : w.entries = front ++ (i, none) :: back) (member : i ∈ c.instructions)
    (use : ∀ f, f.method = method → m.stackUse f i = ⟨takes, puts⟩)
    (room : 0 < puts → height < body.maxStack.toNat + takes)
    (onward : takes ≤ height → ∀ index,
      m.SafeFrom c' assumed (body.maxStack.toNat + scaffoldDepth) method fuel (w.start index)
        (height - takes + puts)) :
    m.SafeFrom c' assumed (body.maxStack.toNat + scaffoldDepth) method (fuel + 1)
      (w.start front.length) height := by
  obtain ⟨i', found, stands, next⟩ := w.exists_stands_kept loaded loaded' split
  refine .step found (fun f same => (stands.stackUse_eq m f).trans (use f same))
    (fun some => Nat.lt_of_lt_of_le (room some) (by omega)) fun enough target goes => ?_
  obtain ⟨index, rfl⟩ := stands.exists_eq_start ⟨body, loaded⟩ member next goes
  exact onward enough index

/-- A call that is intercepted puts no value on a stack that is too high, and nor does its scaffold. -/
private theorem safeFrom_site (w : Weave m.module imports token d body woven)
    (resolve : imports.Resolve m.module) (loaded' : Code.ofBody woven = .ok (some c'))
    {site : CallSite} (split : w.entries = front ++ (i, some site) :: back)
    (use : ∀ f, f.method = method → m.stackUse f i = ⟨site.slotTypes.length, puts⟩)
    (room : 0 < puts → height < body.maxStack.toNat + site.slotTypes.length)
    (few : puts ≤ 1) (declared : site.resultType ≠ .void → 0 < puts)
    (fits : height ≤ body.maxStack.toNat)
    (onward : ∀ index height, height ≤ body.maxStack.toNat →
      m.SafeFrom c' assumed (body.maxStack.toNat + scaffoldDepth) method fuel (w.start index) height) :
    m.SafeFrom c' assumed (body.maxStack.toNat + scaffoldDepth) method (fuel + 1)
      (w.start front.length) height := by
  obtain ⟨layout, first, offset, tail, placed, reserved, -, -, -, next⟩ := w.exists_isAt loaded' split
  have slots := reserved.length_slots
  have isAt := w.sites i site (by simp [split])
  have straight : i.op.isBranch = false := isAt.isBranch_eq
  have site_eq : layout.site.instruction = i := by
    rw [reserved.site_eq, isAt.instruction_eq]
  obtain ⟨_, held⟩ := placed.original
  rw [site_eq] at held
  have found := held.getElem? (w.instruction?_decoded (by simp [split]) _)
  refine placed.safeFrom resolve (by rw [scaffoldDepth]; omega) ?_ fun rest same => ?_
  · -- The call itself, which the fallback runs.
    refine (Machine.SafeFrom.step found use (fun some => Nat.lt_of_lt_of_le (room some) (by omega))
      fun enough target goes => ?_).mono (Nat.le_succ fuel)
    rcases goes with ⟨rfl, -⟩ | ⟨branches, -⟩
    · rw [← next]
      exact onward _ _ (by omega)
    · exact absurd (straight.symm.trans branches) Bool.false_ne_true
  · -- Behind a substitute there is a result just if there would be one behind the call.
    rw [← next]
    refine onward _ _ ?_
    have result := reserved.result_isSome
    cases known : layout.result with
    | none => simp only [Option.toList_none, List.length_nil]; omega
    | some token =>
      rw [known, Option.isSome_some, eq_comm, decide_eq_true_eq] at result
      have := room (declared result)
      simp only [Option.toList_some, List.length_singleton]
      omega

end Instruction

/-- No instruction of woven code puts a value on a stack that is too high if none that was there before
does, and no call loses its result. -/
theorem safeFrom_start (w : Weave m.module imports token d body woven)
    (resolve : imports.Resolve m.module) (loaded : Code.ofBody body = .ok (some c))
    (loaded' : Code.ofBody woven = .ok (some c')) (fuel : Nat) :
    ∀ index height, height ≤ body.maxStack.toNat →
      m.SafeFrom c' (fun a => w.Fits m a ∧ w.KeepsResults m a)
        (body.maxStack.toNat + scaffoldDepth) method fuel (w.start index) height := by
  -- On the fuel; the invariant is that where the code of an instruction begins, the stack is no higher
  -- than the body allows for.
  induction fuel with
  | zero => exact fun _ _ _ => .zero
  | succ fuel ih =>
    intro index height le
    cases found : c.instructions[index]? with
    | none => exact .of_none (w.getElem?_start_eq_none loaded loaded' found)
    | some i =>
      obtain ⟨front, site, back, split, rfl⟩ := w.exists_split loaded found
      have entry : w.entries[front.length]? = some (i, site) := by simp [split]
      refine .of_mem_trail fun f s same length ⟨fits, keeps⟩ => ?_
      obtain ⟨takes, puts, uses⟩ : ∃ takes puts, m.stackUse f i = ⟨takes, puts⟩ := ⟨_, _, rfl⟩
      have own (f' : Frame) (same' : f'.method = method) : m.stackUse f' i = ⟨takes, puts⟩ :=
        (Machine.stackUse_congr (same'.trans same.symm)).trans uses
      have few : (m.stackUse f i).puts ≤ 1 := Machine.puts_stackUse_le
      have stays : ¬ m.PushesOnto f i body.maxStack.toNat := fits _ _ entry rfl
      rw [Machine.PushesOnto, uses, length] at stays
      rw [uses] at few
      -- What the instruction puts on the stack has room there.
      have room (some : 0 < puts) : height < body.maxStack.toNat + takes :=
        Nat.lt_of_not_le fun full => stays ⟨some, full⟩
      cases site with
      | none =>
        refine w.safeFrom_kept loaded loaded' split (Array.mem_of_getElem? found) own room
          fun enough index => ih index _ ?_
        dsimp only at few
        omega
      | some site =>
        have isAt := w.sites i site (by simp [split])
        have arity : (m.stackUse f i).takes = site.slotTypes.length := isAt.takes_stackUse
        rw [uses] at arity
        subst arity
        refine w.safeFrom_site resolve loaded' split own room few (fun declared => ?_) le ih
        refine Nat.pos_of_ne_zero fun none => keeps _ _ _ entry rfl ⟨declared, ?_⟩
        rw [isAt.instruction_eq, uses, none]

/-- Woven code that runs from its beginning puts no value on a stack that is too high. -/
theorem staysBelow (w : Weave m.module imports token d body woven) (calls : w.entries ≠ [])
    (resolve : imports.Resolve m.module) (loaded' : Code.ofBody woven = .ok (some c')) (fuel : Nat)
    (arguments : List Value) (s : MachineState)
    (along : ∀ a ∈ m.trail c' fuel ⟨0, Frame.start method arguments c', s⟩,
      w.Fits m a ∧ w.KeepsResults m a) :
    ∀ a ∈ m.trail c' fuel ⟨0, Frame.start method arguments c', s⟩,
      m.StaysBelow c' (body.maxStack.toNat + scaffoldDepth) a := by
  have loaded : Code.ofBody body =
      .ok (some ⟨(w.entries.map Prod.fst).toArray, body.locals, body.maxStack.toNat⟩) :=
    Code.ofBody_eq_ok_iff.mpr ⟨w.decoded, by simpa using calls, rfl, rfl⟩
  refine w.safeFrom_opening calls loaded' resolve (by rw [scaffoldDepth]; omega)
    (w.safeFrom_start resolve loaded loaded' (fuel + 1) 0 0 (Nat.zero_le _)) fuel
    (Nat.lt_succ_self fuel) _ s rfl rfl along

end Runs

end Weave

section Interception

variable {m₀ m₁ m m' : Module} {o : WeavePolicy} {imports : Imports} {token : Token} {d : MethodDef}
  {body : Body} {count : Nat}

/-- The room that a woven method has on its stack is enough for the scaffolds: if no instruction of the
method would put a value on a stack that holds as many as the method allowed for before, then no
instruction of the woven code puts one on a stack that holds as many as it allows for now.  This takes
that every intercepted call whose method has a result also has one as the running method means it. -/
theorem staysBelow_of_interceptCalls (imported : Yields addImports m₀ imports m₁)
    (grown : m₁.Grows m) (found : m.methodDefAt token = .ok d) (hasBody : d.body = some body)
    (deep : body.maxStack.toNat ≤ 65523)
    (h : Yields (interceptCalls o (some imports) token) m count m') (some : 0 < count) :
    ∃ (woven : Body) (w : Weave m' imports token d body woven),
      m'.methodDefAt token = .ok { d with body := .some woven } ∧
      woven.maxStack.toNat = body.maxStack.toNat + 12 ∧
      (∀ entry ∈ w.entries, CallSite.at? m o entry.1 = .ok entry.2) ∧
      ∀ (machine : Machine) (c : Code), m'.Grows machine.module → Code.ofBody woven = .ok (.some c) →
        ∀ (fuel : Nat) (method : Method) (arguments : List Value) (s : MachineState),
          (∀ a ∈ machine.trail c fuel ⟨0, Frame.start method arguments c, s⟩,
            w.Fits machine a ∧ w.KeepsResults machine a) →
          ∀ a ∈ machine.trail c fuel ⟨0, Frame.start method arguments c, s⟩,
            machine.StaysBelow c woven.maxStack.toNat a := by
  obtain ⟨d₁, found₁, none | ⟨body₁, imports₁, woven, m₂, hasBody₁, same, extended, set, w, looked,
    counted, -⟩⟩ := weave_of_interceptCalls h
  · exact absurd some (by simp [none.1])
  · rw [found, Except.ok.injEq] at found₁
    subst found₁
    rw [hasBody, Option.some.injEq] at hasBody₁
    subst hasBody₁
    rw [Option.some.injEq] at same
    subst same
    have grown' := grows_of_setBody set
    have kept : m₂.methodDefAt token = .ok d := extended.methodDefAt.trans found
    have resolve := (((Imports.resolve_of_addImports imported).2.grows grown).grows
      extended.grows).grows grown'
    have calls := w.entries_ne_nil counted some
    have room : woven.maxStack.toNat = body.maxStack.toNat + scaffoldDepth := by
      rw [w.maxStack_eq, toNat_wovenStack deep]
    refine ⟨woven, w.grow grown', methodDefAt_of_setBody kept set, room, looked,
      fun machine c grows loaded fuel method arguments s along => ?_⟩
    rw [room]
    exact ((w.grow grown').grow grows).staysBelow calls (resolve.grows grows) loaded fuel arguments s
      along

end Interception

/-- Where methods without results are called, nothing more has to be known of a run. -/
theorem staysBelow_of_interceptCalls_twoCalls : ∃ imports m m' woven,
    Yields (interceptCalls {} (some imports) (.ofRow .methodDef 1)) m 2 m' ∧
      m'.methodDefAt (.ofRow .methodDef 1) =
        .ok { twoCallsModule.methods[0] with body := some woven } ∧
      woven.maxStack.toNat = 20 ∧
      ∀ (machine : Machine) (c : Code), m'.Grows machine.module → Code.ofBody woven = .ok (some c) →
        ∀ (fuel : Nat) (method : Method) (arguments : List Value) (s : MachineState),
          ∀ a ∈ machine.trail c fuel ⟨0, Frame.start method arguments c, s⟩,
            machine.StaysBelow c woven.maxStack.toNat a := by
  obtain ⟨imports, m, m', imported, found, intercepted⟩ := exists_intercept_twoCalls
  obtain ⟨woven, w, found', room, -, stays⟩ := staysBelow_of_interceptCalls imported (.refl m) found
    rfl (by decide) intercepted (by decide)
  refine ⟨imports, m, m', woven, intercepted, found', room, fun machine c grows loaded fuel method
    arguments s => stays machine c grows loaded fuel method arguments s fun a _ => ?_⟩
  obtain ⟨extended, resolve⟩ := Imports.resolve_of_addImports imported
  have resolves : ∀ known ∈ some imports, known.Resolve m := by
    rintro _ ⟨⟩
    exact resolve
  have grown := extended.grows.trans (rewoven_of_interceptCalls resolves intercepted).1
  let g : Method := { declaringType := .classType "Demo.A", name := "g", flags := .isStatic }
  have stands : m'.methodAt (.ofRow .methodDef 2) = .ok g := grown.methodAt rfl
  let calls : List Instruction := [⟨0, .call, .token (.ofRow .methodDef 2)⟩, ⟨5, .brS, .target 7⟩,
    ⟨7, .call, .token (.ofRow .methodDef 2)⟩, ⟨12, .ret, .none⟩]
  -- Nothing that is called has a result, neither as it is declared nor as the method means it.
  have silent : ∀ i ∈ calls, (machine.stackUse a.frame i).puts = 0 := by
    have call (offset : Nat) :
        machine.called? a.frame ⟨offset, .call, .token (.ofRow .methodDef 2)⟩ = some g := by
      show ((machine.module.methodAt (.ofRow .methodDef 2)).toOption.map _) = _
      rw [grows.methodAt stands]
      rfl
    simp [calls, Machine.stackUse, call, Opcode.stackUse?, Method.callUse, Method.returnUse, g]
  have results : ∀ i ∈ calls, ∀ site, CallSite.IsAt m' i site → site.resultType = .void := by
    have call (offset : Nat) (site : CallSite)
        (isAt : site.IsAt m' ⟨offset, .call, .token (.ofRow .methodDef 2)⟩) :
        site.resultType = .void := by
      obtain ⟨method, known, target⟩ := isAt.target_eq
      rw [← Option.some.inj isAt.token_eq, stands] at known
      rw [CallSite.resultType, CallSite.isConstruction, isAt.instruction_eq, target,
        ← Except.ok.inj known]
      rfl
    simp only [calls, List.forall_mem_cons]
    exact ⟨call 0, fun _ isAt => absurd isAt.isCall (by decide), call 7,
      fun _ isAt => absurd isAt.isCall (by decide), fun _ none => absurd none List.not_mem_nil⟩
  refine ⟨w.fits_of_puts_eq_zero rfl silent, fun index i site entry _ vanishes => vanishes.1 ?_⟩
  have inside := List.mem_of_getElem? entry
  refine results i ?_ site (w.sites i site inside)
  rw [show calls = w.entries.map Prod.fst from Except.ok.inj w.decoded]
  exact List.mem_map_of_mem inside

/-- A method that calls another one over and over again.  Under type arguments of the first one, the
other one returns nothing. -/
def hollowModule : Module where
  name := "Demo"
  types := #[.ofClass "Demo.A"]
  methods := #[
    { owner := .ofRow .typeDef 1, name := "G", flags := .isStatic, genericArity := 1,
      body := some { maxStack := 0, code := [0x28, 0x01, 0x00, 0x00, 0x2B, 0x2B, 0xF9] } },
    { owner := .ofRow .typeDef 1, name := "Make", flags := .isStatic, genericArity := 1,
      returnType := .methodParameter 0, body := some { code := [0x2A] } }]
  methodSpecs := #[⟨.ofRow .methodDef 2, [.methodParameter 0]⟩]

/-- The instantiation of `G` under which `Make` returns nothing. -/
def hollowHost : Method where
  declaringType := .classType "Demo.A"
  name := "G"
  genericArity := 1
  typeArguments := [.void]
  flags := .isStatic

/-- Every call is replaced by a function that returns nothing. -/
def hollowRule : Rules where
  binders := [.filter (fun _ => true) (.ofFunction fun _ => return .void)]

/-- Where calls leave nothing although the method that is called has a result, the results of
substitutes pile up on the stack, and woven code puts a value on a stack that holds as many as it
allows for although no instruction that was there before would. -/
theorem not_forall_staysBelow_of_interceptCalls : ¬ ∀ (m₀ m₁ m m' : Module) (o : WeavePolicy)
    (imports : Imports) (token : Token) (d : MethodDef) (body : Body) (count : Nat),
    Yields addImports m₀ imports m₁ → m₁.Grows m → m.methodDefAt token = .ok d →
    d.body = some body → body.maxStack.toNat ≤ 65523 →
    Yields (interceptCalls o (some imports) token) m count m' → 0 < count →
    ∃ (woven : Body) (w : Weave m' imports token d body woven),
      m'.methodDefAt token = .ok { d with body := some woven } ∧
      woven.maxStack.toNat = body.maxStack.toNat + 12 ∧
      (∀ entry ∈ w.entries, CallSite.at? m o entry.1 = .ok entry.2) ∧
      ∀ (machine : Machine) (c : Code), m'.Grows machine.module → Code.ofBody woven = .ok (some c) →
        ∀ (fuel : Nat) (method : Method) (arguments : List Value) (s : MachineState),
          (∀ a ∈ machine.trail c fuel ⟨0, Frame.start method arguments c, s⟩, w.Fits machine a) →
          ∀ a ∈ machine.trail c fuel ⟨0, Frame.start method arguments c, s⟩,
            machine.StaysBelow c woven.maxStack.toNat a := by
  intro always
  let machine (m : Module) : Machine := ⟨.ofModule m, .standard, {}⟩
  let start (c : Code) : Place := ⟨0, Frame.start hollowHost [] c, { rules := hollowRule }⟩
  -- The call is intercepted, none of the instructions puts anything on the stack, and the limit is
  -- exceeded behind the prologue.
  have checked : (interceptFirst.run.run hollowModule).1 = .ok 1 ∧
      (∀ i ∈ [⟨0, .call, .token (.ofRow .methodSpec 1)⟩, ⟨5, .brS, .target 0⟩],
        ((machine (interceptFirst.run.run hollowModule).2).stackUse
          (Frame.start hollowHost [] default) i).puts = 0) ∧
      (((interceptFirst.run.run hollowModule).2.methodDefAt (.ofRow .methodDef 1)).toOption.bind
        (·.body)).any (fun b => (Code.ofBody b).toOption.any fun code => code.any fun c =>
          ((machine (interceptFirst.run.run hollowModule).2).trail c 200 (start c)).any fun a =>
            c.instructions[a.position]?.any fun i =>
              (machine (interceptFirst.run.run hollowModule).2).PushesOnto a.frame i
                b.maxStack.toNat) = true := by
    decide +kernel
  revert checked
  generalize result : (interceptFirst.run.run hollowModule).2 = m'
  rintro ⟨one, hollow, overflows⟩
  have yields : Yields interceptFirst hollowModule 1 m' := Prod.ext one result
  obtain ⟨imports, m, imported, found, intercepted⟩ :=
    exists_of_interceptFirst yields (d := hollowModule.methods[0]) rfl
  obtain ⟨woven, w, found', -, -, stays⟩ := always hollowModule m m m' {} imports _ _ _ 1 imported
    (.refl m) found rfl (by decide) intercepted (by decide)
  rw [found'] at overflows
  obtain ⟨_, same, overflows⟩ := (Option.any_eq_true ..).mp overflows
  obtain rfl := Option.some.inj same
  obtain ⟨_, loaded, overflows⟩ := (Option.any_eq_true ..).mp overflows
  obtain ⟨c, rfl, overflows⟩ := (Option.any_eq_true ..).mp overflows
  obtain ⟨a, member, pushes⟩ := List.any_eq_true.mp overflows
  obtain ⟨i, inCode, pushes⟩ := (Option.any_eq_true ..).mp pushes
  refine stays (machine m') c (.refl m') (toOption_eq_some_iff.mp loaded) 200 hollowHost []
    { rules := hollowRule } (fun a member => ?_) a member i inCode (of_decide_eq_true pushes)
  have same : a.frame.method = (Frame.start hollowHost [] default).method :=
    Machine.method_of_mem_trail a member
  refine w.fits_of_puts_eq_zero rfl fun i inside => ?_
  rw [Machine.stackUse_congr same]
  exact hollow i inside

end Interpose
