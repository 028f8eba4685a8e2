import Interpose.Proofs.Weaving.Pass
import Interpose.Proofs.Weaving.Placement

/-!
# Call sites of woven methods

Whatever the call map of a method is, each of its call sites either restores the call that was there
before or runs the substitute for it, and never both.

## Main definitions

* `SitePlaces` — the places of a call site in woven code
* `SitePlaces.Restores`, `SitePlaces.Substitutes` — what a call site does

## Main results

* `Weave.exists_places` — a call site of woven code does one of two things
* `restores_or_substitutes` — what the call sites of the methods do that a pass has woven
-/

namespace Interpose

/-- Where the code of a call site begins, where its substitute is run, and where the instruction is
that was there before. -/
structure SitePlaces where
  start : Nat
  invoke : Nat
  original : Nat

namespace SitePlaces

variable (p : SitePlaces) (m : Machine) (c : Code) (kept : Nat) (f : Frame) (s : MachineState)

/-- The places of a call site are in code: at one of them substitutes are run, and at the other one
there is the instruction that was there before. -/
structure IsIn (m : Module) (i : Instruction) : Prop where
  start_le : p.start ≤ p.invoke
  invoke_lt : p.invoke + 2 < p.original
  invoke_eq : ∃ offset token, c.instructions[p.invoke]? = some ⟨offset, .callvirt, .token token⟩ ∧
    m.memberRefAt token = .ok Intrinsic.invoke.memberRef
  original_eq : ∃ offset, c.instructions[p.original]? = some { i with offset }

/-- No substitute is run, and control comes to the instruction that was there before.  The stack is
the one with which the call site was reached, and so are the first local variables. -/
def Restores : Prop :=
  ∃ path f' s', Leads m c path ⟨p.start, f, s⟩ ⟨p.original, f', s'⟩ ∧ p.invoke ∉ path ∧
    p.original ∉ path ∧ f.SameBelow kept f' ∧ s.Like s' ∧ s'.store = s.store

/-- A substitute is run once with a context, given the stack trace in it, and control comes behind
the instruction that was there before, with the result of the call above the rest of the stack. -/
def Substitutes (site : CallSite) (rest : List Value) (substitute : Substitute)
    (context : StackTrace → CallContext) : Prop :=
  ∃ path f₁ s₁ trace i, Leads m c path ⟨p.start, f, s⟩ ⟨p.invoke, f₁, s₁⟩ ∧ p.invoke ∉ path ∧
    p.original ∉ path ∧ f.SameBelow kept { f₁ with stack := f.stack } ∧ s.Like s₁ ∧
    trace.map TraceEntry.method = s.callStack.map TraceEntry.method ∧
    s₁.store = s.store.withCall (context trace) ∧ c.instructions[p.invoke]? = some i ∧
    (∀ execute, ((m.step execute i).run f₁).run.run (s₁.tick i.offset) =
      ((do
        let result ← Step.act (substitute.invoke (context trace))
        Step.push result.returned
        return .next : Step Control).run { f₁ with stack := rest }).run.run (s₁.tick i.offset)) ∧
    ∀ s₂ value results, site.Returns m.module f s₂.store value results → ∃ s₃,
      Leads m c [p.invoke + 1, p.invoke + 2] ⟨p.invoke + 1, { f₁ with stack := value :: rest }, s₂⟩
        ⟨p.original + 1, { f₁ with stack := results ++ rest }, s₃⟩ ∧
      s₂.Like s₃ ∧ s₃.store = s₂.store

end SitePlaces

/-- The values of a call are on the stack, above the rest of it. -/
structure CallSite.IsReached (site : CallSite) (f : Frame) (receiver : Option Value)
    (arguments rest : List Value) : Prop where
  stack : f.stack = arguments.reverse ++ (receiver.toList ++ rest)
  receiver_arity : receiver.isSome = site.hasReceiver
  arguments_arity : arguments.length = site.target.parameters.length

section Places

variable {m : Machine} {imports : Imports} {host : Host} {caller called : Method} {site : CallSite}
  {layout : SiteLayout} {c : Code} {position offset first : Nat} {labels : String → Option Nat}
  {tail : List ListingItem} {f : Frame} {s : MachineState} {value : Value} {receiver : Option Value}
  {arguments rest : List Value}

/-- The places of a call site, given where its code begins. -/
def SiteLayout.places (layout : SiteLayout) (imports : Imports) (host : Host) (position : Nat) :
    SitePlaces where
  start := position
  invoke := position + layout.invokeIndex imports host
  original := position + layout.originalIndex imports host

/-- There are as many local variables for the values of a call as there are values. -/
theorem SiteLayout.Reserved.length_slots (reserved : layout.Reserved first site) :
    layout.slots.length = site.slotTypes.length := by
  have receiver := congrArg List.length reserved.receiver_types
  have arguments := congrArg List.length reserved.argument_types
  rw [List.length_map] at receiver arguments
  rw [slots, CallSite.slotTypes, List.length_append, List.length_append, receiver, arguments]

/-- Where a call site is reached, its scaffold finds what it needs. -/
theorem SiteLayout.ready_of_isReached (token : Token) (reserved : layout.Reserved first site)
    {d : MethodDef} {body woven : Body} (runs : f.Runs d c) (locals : c.locals = woven.locals)
    (maxStack : c.maxStack = (wovenStack body.maxStack).toNat)
    (below : first + site.slotTypes.length ≤ woven.locals.length)
    (deep : body.maxStack.toNat ≤ 65523) (reached : site.IsReached f receiver arguments rest)
    (fits : f.stack.length ≤ body.maxStack.toNat) :
    layout.Ready (hostOf token d body) f receiver arguments rest := by
  have room : f.maxStack = body.maxStack.toNat + scaffoldDepth := by
    rw [runs.maxStack, maxStack, toNat_wovenStack deep]
  have inside := reserved.length_slots
  have split := congrArg List.length reached.stack
  simp only [List.length_append, List.length_reverse] at split
  refine ⟨reached.stack, ?_, ?_, fun slot member => ?_, runs.self, ?_, ?_⟩
  · have types := congrArg List.length reserved.receiver_types
    rw [reached.receiver_arity]
    revert types
    cases layout.receiver <;> cases site.hasReceiver <;> simp
  · have types := congrArg List.length reserved.argument_types
    rw [List.length_map] at types
    rw [types, reached.arguments_arity]
  · -- The local variables of the slots are among those of the woven method.
    have number : slot.number.toNat ∈ layout.slots.map (·.number.toNat) :=
      List.mem_map.mpr ⟨slot, member, rfl⟩
    rw [reserved.numbers, List.mem_range'_1] at number
    rw [runs.locals, locals]
    omega
  · omega
  · rw [room]
    exact Nat.le_add_right_of_le fits

/-- The places of a call site are in the code that holds its scaffold. -/
theorem SiteLayout.IsAt.places_isIn (placed : layout.IsAt imports host c position labels offset tail)
    {module : Module} (resolve : imports.Resolve module) (reserved : layout.Reserved first site)
    {i : Instruction} (isAt : site.IsAt module i) :
    (layout.places imports host position).IsIn c module i := by
  have order := layout.invokeIndex_lt_fallbackIndex imports host
  refine ⟨Nat.le_add_right _ _, ?_, ?_, ?_⟩
  · simp only [places, originalIndex]
    omega
  · obtain ⟨offset', holds⟩ := placed.invoke
    exact ⟨offset', _, holds.getElem? rfl, resolve.intrinsic .invoke⟩
  · obtain ⟨offset', holds⟩ := placed.original
    refine ⟨offset', holds.getElem? ?_⟩
    have operand : i.operand = .token site.token := by
      have known := isAt.token_eq
      unfold Instruction.token? at known
      split at known <;> cases known
      assumption
    rw [reserved.site_eq, isAt.instruction_eq]
    simp [ListingItem.instruction?, ListingItem.operation?, operand, Operand.asRead]

/-- Without a substitute, a call site restores the call. -/
theorem SiteLayout.restores (sound : layout.Sound m.module imports host caller called site)
    (placed : layout.IsAt imports host c position labels offset tail)
    (reserved : layout.Reserved first site) (mapFirst : host.mapLocal.toNat < first)
    (ready : layout.Ready host f receiver arguments rest) {map : Option CallMap}
    (content : s.rules.MapHeld value map) (held : f.locals[host.mapLocal.toNat]? = some value)
    (unmapped : map.bind (·.substitute? (f.callee site.token called)) = none) :
    (layout.places imports host position).Restores m c (host.mapLocal.toNat + 1) f s := by
  obtain ⟨path, f', s', leads, skirts, kept, like, store⟩ :=
    SiteLayout.leads_to_original sound placed reserved mapFirst ready content held unmapped
  refine ⟨path, f', s', leads, fun inside => ?_, fun inside => ?_, kept.mono mapFirst, like, store⟩
  · exact (skirts _ inside).2.2 rfl
  · exact Nat.lt_irrefl _ (skirts _ inside).2.1

/-- With a substitute, a call site runs it in place of the call. -/
theorem SiteLayout.substitutes (sound : layout.Sound m.module imports host caller called site)
    (named : layout.Named m.module)
    (placed : layout.IsAt imports host c position labels offset tail)
    (reserved : layout.Reserved first site) (mapFirst : host.mapLocal.toNat < first)
    (ready : layout.Ready host f receiver arguments rest) (few : arguments.length < 0x80000000)
    {id place : Nat} {map : CallMap} {entry : CallEntry}
    (known : s.rules.publication.maps[id]? = some map)
    (held : f.locals[host.mapLocal.toNat]? = some (.handle (.callMap id)))
    (found : map.find? (f.callee site.token called) = some place)
    (here : map.entries[place]? = some entry) :
    (layout.places imports host position).Substitutes m c (host.mapLocal.toNat + 1) f s site rest
      entry.substitute (site.context m.module host caller called f receiver arguments) := by
  obtain ⟨freed, s₁, trace, offset', leads, kept, same, like, store, holds⟩ :=
    SiteLayout.leads_to_invoke sound named placed reserved mapFirst ready few known held found here
  have order := layout.invokeIndex_lt_fallbackIndex imports host
  refine ⟨_, _, s₁, trace, _, leads, fun inside => ?_, fun inside => ?_, ?_, like, same, store,
    holds.getElem? rfl, fun execute => ?_, fun s₂ value results returns => ?_⟩
  · exact Nat.lt_irrefl _ (List.mem_range'_1.mp inside).2
  · have last := (List.mem_range'_1.mp inside).2
    simp only [SiteLayout.places, SiteLayout.originalIndex] at last
    omega
  · exact Frame.SameBelow.mono ⟨rfl, kept.2.1, kept.2.2⟩ mapFirst
  · obtain ⟨text, made⟩ := s.store.contexts_withCall
      (site.context m.module host caller called f receiver arguments trace)
    rw [← store] at made
    -- Making the context changes no rules.
    have published : (s₁.tick offset').rules.publication.maps[id]? = some map := by
      rwa [MachineState.tick_rules, like.rules]
    exact step_invoke (f := { f with stack := rest, locals := freed }) sound.resolve published here
      made execute offset'
  · obtain ⟨s₃, leads₃, like₃, store₃⟩ := SiteLayout.leads_behind
      (f := { f with stack := value :: rest, locals := freed }) placed reserved.site_eq named
      (holds.tail rfl) rfl (Nat.lt_of_lt_of_le (by unfold scaffoldDepth; omega) ready.room) returns
    exact ⟨s₃, leads₃, like₃, store₃⟩

/-- A call site of woven code does one of two things, depending on the call map that is held. -/
theorem Weave.exists_places {m : Module} {token : Token} {d : MethodDef} {body woven : Body}
    (w : Weave m imports token d body woven) (resolve : imports.Resolve m)
    (loaded : Code.ofBody woven = .ok (some c)) (deep : body.maxStack.toNat ≤ 65523)
    (stands : m.methodAt token = .ok caller) {i : Instruction}
    {front back : List (Instruction × Option CallSite)}
    (split : w.entries = front ++ (i, some site) :: back) :
    ∃ (p : SitePlaces) (called : Method), p.start = w.start front.length ∧
      w.start (front.length + 1) = p.original + 1 ∧ p.IsIn c m i ∧
      m.methodAt site.token = .ok called ∧
      ∀ (machine : Machine) (f : Frame) (s : MachineState) (receiver : Option Value)
        (arguments rest : List Value), machine.module = m → f.Runs d c →
        site.IsReached f receiver arguments rest → f.stack.length ≤ body.maxStack.toNat →
        (∀ value map, f.locals[body.locals.length]? = some value → s.rules.MapHeld value map →
          map.bind (·.substitute? (f.callee site.token called)) = none →
          p.Restores machine c (body.locals.length + 1) f s) ∧
        (m.types.size ≤ Edit.rowLimit → ∀ id map place entry,
          f.locals[body.locals.length]? = some (.handle (.callMap id)) →
          s.rules.publication.maps[id]? = some map →
          map.find? (f.callee site.token called) = some place → map.entries[place]? = some entry →
          p.Substitutes machine c (body.locals.length + 1) f s site rest entry.substitute
            (site.context m (hostOf token d body) caller called f receiver arguments)) := by
  obtain ⟨layout, first, offset, tail, placed, reserved, above, below, named, next⟩ :=
    w.exists_isAt loaded split
  have isAt : site.IsAt m i := w.sites i site (by rw [split]; simp)
  obtain ⟨called, calls, -⟩ := isAt.target_eq
  have mapLocal : (hostOf token d body).mapLocal.toNat = body.locals.length := by
    rw [hostOf, UInt16.toNat_ofNat', Nat.mod_eq_of_lt w.mapLocal_lt]
  have sound : layout.Sound m imports (hostOf token d body) caller called site :=
    ⟨resolve, ⟨first, mapLocal ▸ above, reserved⟩, stands, calls⟩
  obtain ⟨-, -, locals, maxStack⟩ := Code.ofBody_eq_ok_iff.mp loaded
  rw [w.maxStack_eq] at maxStack
  refine ⟨layout.places imports (hostOf token d body) (w.start front.length), called, rfl, next,
    placed.places_isIn resolve reserved isAt, calls, ?_⟩
  intro machine f s receiver arguments rest runs frame reached fits
  subst runs
  have ready := SiteLayout.ready_of_isReached token reserved frame locals maxStack below deep
    reached fits
  rw [← mapLocal] at above ⊢
  refine ⟨fun value map held content unmapped =>
      SiteLayout.restores sound placed reserved above ready content held unmapped,
    fun nameable id map place entry held known found here => ?_⟩
  -- The arguments are on the stack, which holds no more than the method has room for.
  have few : arguments.length < 0x80000000 := by
    have length := congrArg List.length reached.stack
    simp only [List.length_append, List.length_reverse] at length
    omega
  exact SiteLayout.substitutes sound (named nameable) placed reserved above ready few known held
    found here

end Places

/-- Whatever the call map of a method is, each call site of a woven method does one of two things.
Without a substitute the call is restored; otherwise the substitute is run once, with a context that
tells all about the call.  Values are wrapped for the context by types that tokens name, so the
latter holds if a token can name each type of the module. -/
theorem restores_or_substitutes {o : WeavePolicy} {m m' : Module} {summary : PassSummary}
    (small : m.methods.size ≤ Edit.rowLimit) (pass : Yields (weavePass o) m summary m')
    {token : Token} {d d' : MethodDef} {body woven : Body} (found : m.methodDefAt token = .ok d)
    (hasBody : d.body = some body) (found' : m'.methodDefAt token = .ok d')
    (hasBody' : d'.body = some woven) (rewoven : woven ≠ body)
    (deep : body.maxStack.toNat ≤ 65523) {before after : List Instruction} {i : Instruction}
    (decoded : decodeCode body.code = .ok (before ++ i :: after)) {site : CallSite}
    (intercepted : CallSite.at? m o i = .ok (some site)) {c : Code}
    (loaded : Code.ofBody woven = .ok (some c)) :
    ∃ (imports : Imports) (w : Weave m' imports token d body woven) (p : SitePlaces)
      (caller called : Method), p.start = w.start before.length ∧ p.IsIn c m' i ∧
      m'.methodAt token = .ok caller ∧ m'.methodAt site.token = .ok called ∧
      ∀ (machine : Machine) (f : Frame) (s : MachineState) (receiver : Option Value)
        (arguments rest : List Value), machine.module = m' → f.Runs d c →
        site.IsReached f receiver arguments rest → f.stack.length ≤ body.maxStack.toNat →
        (∀ value map, f.locals[body.locals.length]? = some value → s.rules.MapHeld value map →
          map.bind (·.substitute? (f.callee site.token called)) = none →
          p.Restores machine c (body.locals.length + 1) f s) ∧
        (m.types.size ≤ Edit.rowLimit → ∀ id map place entry,
          f.locals[body.locals.length]? = some (.handle (.callMap id)) →
          s.rules.publication.maps[id]? = some map →
          map.find? (f.callee site.token called) = some place → map.entries[place]? = some entry →
          p.Substitutes machine c (body.locals.length + 1) f s site rest entry.substitute
            (site.context m' (hostOf token d body) caller called f receiver arguments)) := by
  obtain ⟨grows, -⟩ := rewoven_of_weavePass small pass
  obtain ⟨imports, w, caller, known⟩ :=
    wovenBy_of_weavePass small pass found hasBody found' hasBody' rewoven
  obtain ⟨front, back, split, rfl⟩ :=
    known.exists_entries decoded (CallSite.at?_grows intercepted grows)
  obtain ⟨p, called, start, -, inCode, calls, does⟩ := w.exists_places known.resolve loaded deep
    known.stands split
  refine ⟨imports, w, p, caller, called, ?_, inCode, known.stands, calls, ?_⟩
  · rw [start, List.length_map]
  · rw [← grows.types]
    exact does

/-- A module with a method that calls another one. -/
def liveCallModule : Module where
  name := "Demo"
  types := #[.ofClass "Demo.A"]
  methods := #[
    { owner := .ofRow .typeDef 1, name := "f", flags := .isStatic,
      body := some { code := [0x28, 0x02, 0x00, 0x00, 0x06, 0x2A] } },
    { owner := .ofRow .typeDef 1, name := "g", flags := .isStatic,
      body := some { code := [0x2A] } }]

/-- The call in the first method of the module. -/
def liveCall : CallSite where
  instruction := ⟨0, .call, .token (.ofRow .methodDef 2)⟩
  token := .ofRow .methodDef 2
  target := { declaringType := .classType "Demo.A", name := "g", flags := .isStatic }

/-- A call map that has one substitute for all calls. -/
def mapOfAll : CallMap where
  hierarchy := .unknown
  entries := #[⟨.filter fun _ => true, .ofFunction fun _ => return .void⟩]

private theorem find?_mapOfAll (target : Method) : mapOfAll.find? target = some 0 := by
  have none : mapOfAll.exactEntries = [] := rfl
  have filtered : mapOfAll.filtered? target = some 0 := by
    simp [CallMap.filtered?, mapOfAll, CallEntry.filters]
  have empty : mapOfAll.closest? [] target = .none := by
    simp [CallMap.closest?, Requirements.best?]
  rw [CallMap.find?, CallMap.direct?, CallMap.inherited?, none, filtered]
  simp [empty]

/-- A frame of the first method, with what its local variable for the call map holds. -/
def liveFrame (c : Code) (value : Value) : Frame where
  method := default
  arguments := #[]
  locals := (c.locals.map fun _ => value).toArray
  maxStack := c.maxStack

theorem yields_weavePass_liveCall : Yields (weavePass {}) liveCallModule
    { visited := 2, woven := 1, skipped := 0, sites := 1 }
    ((weavePass {}).run.run liveCallModule).2 := by
  have done : ((weavePass {}).run.run liveCallModule).1 =
      .ok { visited := 2, woven := 1, skipped := 0, sites := 1 } := by decide +kernel
  exact Prod.ext done rfl

theorem restores_or_substitutes_liveCall : ∃ (m' : Module) (c : Code) (p : SitePlaces),
    p.IsIn c m' liveCall.instruction ∧
    p.Restores ⟨.ofModule m', .standard, {}⟩ c 1 (liveFrame c .null) {} ∧
    ∃ context, p.Substitutes ⟨.ofModule m', .standard, {}⟩ c 1
      (liveFrame c (.handle (.callMap 0))) { rules := { publication := { maps := #[mapOfAll] } } }
      liveCall [] (.ofFunction fun _ => return .void) context := by
  have pass := yields_weavePass_liveCall
  revert pass
  generalize result : ((weavePass {}).run.run liveCallModule).2 = m'
  intro pass
  have checked : ((m'.methodDefAt (.ofRow .methodDef 1)).toOption.bind (·.body)).any (fun b =>
      b.code ≠ [0x28, 0x02, 0x00, 0x00, 0x06, 0x2A] && (Code.ofBody b).toOption.any Option.isSome) =
      true := by
    rw [← result]
    decide +kernel
  obtain ⟨woven, known, checked⟩ := (Option.any_eq_true ..).mp checked
  obtain ⟨d', found', hasBody'⟩ := Option.bind_eq_some_iff.mp known
  rw [toOption_eq_some_iff] at found'
  simp only [Bool.and_eq_true, decide_eq_true_eq, Option.any_eq_true] at checked
  obtain ⟨other, code, loaded, some⟩ := checked
  rw [toOption_eq_some_iff] at loaded
  obtain ⟨c, rfl⟩ := Option.isSome_iff_exists.mp some
  have found : liveCallModule.methodDefAt (.ofRow .methodDef 1) = .ok liveCallModule.methods[0] :=
    rfl
  have decoded : decodeCode [0x28, 0x02, 0x00, 0x00, 0x06, 0x2A] =
      .ok ([] ++ liveCall.instruction :: [⟨5, .ret, .none⟩]) := rfl
  have intercepted : CallSite.at? liveCallModule {} liveCall.instruction = .ok (.some liveCall) :=
    rfl
  obtain ⟨imports, w, p, caller, called, -, inCode, -, -, does⟩ := restores_or_substitutes
    (by decide) pass found rfl found' hasBody' (fun same => other (congrArg Body.code same))
    (by decide) decoded intercepted loaded
  have runs (value : Value) : (liveFrame c value).Runs liveCallModule.methods[0] c :=
    ⟨by simp [liveFrame], rfl, fun this => by cases this⟩
  have reached (value : Value) : liveCall.IsReached (liveFrame c value) none [] [] :=
    ⟨rfl, rfl, rfl⟩
  have held (value : Value) : (liveFrame c value).locals[0]? = .some value := by
    obtain ⟨-, -, locals, -⟩ := Code.ofBody_eq_ok_iff.mp loaded
    simp [liveFrame, locals, w.locals_eq]
  have restores := (does ⟨.ofModule m', .standard, {}⟩ _ {} none [] [] rfl (runs .null)
    (reached .null) (Nat.zero_le _)).1 .null none (held .null) .none rfl
  have substitutes := (does ⟨.ofModule m', .standard, {}⟩ _
    { rules := { publication := { maps := #[mapOfAll] } } } none [] [] rfl
    (runs (.handle (.callMap 0))) (reached _) (Nat.zero_le _)).2 (by decide) 0 mapOfAll 0 _ (held _)
    rfl (find?_mapOfAll _) rfl
  exact ⟨m', c, p, inCode, restores, _, substitutes⟩

end Interpose
