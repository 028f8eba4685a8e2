import Interpose.Proofs.Machine.Rules
import Interpose.Proofs.Module.References
import Interpose.Proofs.Weaving.CallSites
import Interpose.Proofs.Weaving.Opening

/-!
# Call maps of generic methods

A woven method asks for its call map under its definition, which is the same in all of its
instantiations.  The map is made once, for the calls of the instantiation that runs first, and every
later one gets it as well.  So an instantiation runs the substitutes that the map of the first one has
for its own calls, which may differ from those that it would run if it were the first.

## Main definitions

* `Body.called` — the methods that are called by code that was woven
* `Rules.mapFor` — the call map that rules make for the calls of a method
* `Weave.Takes` — a method starts by taking a call map
* `SitePlaces.GoesBy` — a call site does what a call map says

## Main results

* `Frame.callee_of_methodDef` — a definition is meant as it stands in every frame
* `Weave.takes_mapFor` — the instantiation that runs first gets a call map for its own calls
* `Weave.takes_of_settles` — the later ones get the same
* `goes_by_map_of_first_instantiation` — what the call sites of the methods do that a pass has woven
-/

namespace Interpose

/-- A definition is meant as it stands, whatever type arguments the running method has. -/
theorem Frame.callee_of_methodDef {m : Module} {token : Token} {d : MethodDef} {method : Method}
    (found : m.methodDefAt token = .ok d) (stands : m.methodAt token = .ok method) (f : Frame) :
    f.callee token method = method := by
  obtain ⟨inside, -⟩ := Module.row_eq_ok_iff.mp found
  rw [methodAt_of_methodDefAt found] at stands
  obtain ⟨none, -⟩ := Module.arguments_of_definedMethod stands
  rw [Frame.callee, if_pos inside, Method.closeDeclaring_eq_self_iff]
  intro index _
  rw [none]
  rfl

/-- The tokens of the methods that are called where calls are intercepted. -/
def Body.called (b : Body) (m : Module) (o : WeavePolicy) : List Token :=
  match decodeCode b.code >>= callSites m o with
  | .ok entries => calledTokens (entries.filterMap Prod.snd)
  | .error _ => []

/-- The call map that rules make for the calls of a method that has none yet.  Without rules there is
no call map. -/
def Rules.mapFor (r : Rules) (m : Module) (host : Method) (calls : List Method) :
    Except Error (Option CallMap) :=
  if r.binders = [] then return none
  else return some (← Intercept.populated (.composite r.binders)
    { callingInstance := .null, host, intercepted := calls, stackTrace := [] } m.hierarchy
    r.publication.maps.size)

section Publishing

variable {r : Rules} {m : Module} {host : Method} {calls : List Method} {map : CallMap} {id : Nat}

/-- A method without call map gets a new one. -/
theorem publishFor_of_mapFor (unpublished : r.publication.get? host = none)
    (made : r.mapFor m host calls = .ok (some map)) :
    r.publishFor m.hierarchy host calls =
      (.ok r.publication.maps.size, r.publication.add host map) := by
  unfold Rules.mapFor at made
  split at made
  case isTrue => cases made
  case isFalse =>
    obtain ⟨map', populated, same⟩ := bind_eq_ok_iff.mp made
    cases same
    unfold Rules.publishFor
    rw [Publication.publish_of_none unpublished, populated]

/-- A method with a call map keeps it. -/
theorem publishFor_of_published (published : r.publication.get? host = some id)
    (hierarchy : Hierarchy) (calls : List Method) :
    r.publishFor hierarchy host calls = (.ok id, r.publication) :=
  Publication.publish_of_some published _

end Publishing

namespace Weave

variable {m : Module} {imports : Imports} {token : Token} {d : MethodDef} {body woven : Body}

/-- The methods that are called are those of the call sites. -/
theorem called_eq (w : Weave m imports token d body woven) {o : WeavePolicy}
    (looked : ∀ entry ∈ w.entries, CallSite.at? m o entry.1 = .ok entry.2) :
    body.called m o = w.called := by
  have sites : callSites m o (w.entries.map Prod.fst) = .ok w.entries :=
    callSites_eq_ok_iff.mpr ⟨rfl, looked⟩
  have all : (decodeCode body.code >>= callSites m o) = .ok w.entries := by rw [w.decoded]; exact sites
  rw [Body.called, all]
  rfl

end Weave

/-- What call map a method has from now on: none without rules, and else the one that is published. -/
inductive Rules.Settles (r : Rules) (host : Method) : Option CallMap → Prop
  | none : r.Quiet → Settles r host none
  | some {id : Nat} {map : CallMap} : r.Registered → r.publication.get? host = some id →
      r.publication.maps[id]? = some map → Settles r host (some map)

/-- What is settled stays so, whatever runs. -/
theorem Rules.Settles.extend {r r' : Rules} {host : Method} {map : Option CallMap}
    (h : r.Settles host map) (extend : r.Extends r') : r'.Settles host map := by
  cases h with
  | none quiet =>
    exact .none ⟨extend.binders_eq.trans quiet.binders_eq, extend.resolver_eq.trans quiet.resolver_eq⟩
  | some registered published held =>
    exact .some ⟨extend.binders_eq ▸ registered.binders_ne,
      extend.resolver_eq.trans registered.resolver_eq⟩ (extend.published _ _ published)
      (extend.maps _ _ held)

namespace Weave

variable {m : Module} {imports : Imports} {token : Token} {d : MethodDef} {body woven : Body}
  {machine : Machine} {c : Code} {caller method : Method} {arguments : List Value} {s : MachineState}
  {map : Option CallMap}

/-- A method that starts in a frame takes a call map or none: it has it in its local variable when
control comes to the code of its first instruction, and no other from then on. -/
def Takes (w : Weave m imports token d body woven) (machine : Machine) (c : Code) (caller : Method)
    (f : Frame) (s : MachineState) (map : Option CallMap) : Prop :=
  ∃ path value s', Leads machine c path ⟨0, f, s⟩
    ⟨w.start 0, f.withMap body.locals.length value, s'⟩ ∧ s'.rules.MapHeld value map ∧
    s'.rules.Settles caller map

/-- What is known of a method that is woven and runs. -/
structure Live (w : Weave m imports token d body woven) (machine : Machine) (c : Code)
    (caller : Method) : Prop where
  module_eq : machine.module = m
  loaded : Code.ofBody woven = .ok (some c)
  resolve : imports.Resolve m
  owned : ∃ owner, m.typeDefAt d.owner = .ok owner
  found : ∃ d', m.methodDefAt token = .ok d'
  stands : m.methodAt token = .ok caller
  calls : w.entries ≠ []

private theorem setIfInBounds_eq_self {values : Array Value} {index : Nat} {value : Value}
    (held : values[index]? = some value) : values.setIfInBounds index value = values := by
  obtain ⟨inside, -⟩ := Array.getElem?_eq_some_iff.mp held
  refine Array.ext_getElem? fun i => ?_
  by_cases same : index = i
  case pos => rw [← same, Array.getElem?_setIfInBounds_self_of_lt inside, held]
  case neg => rw [Array.getElem?_setIfInBounds_ne same]

/-- Without rules a method takes no call map. -/
theorem takes_of_quiet {w : Weave m imports token d body woven} (live : w.Live machine c caller)
    (quiet : s.rules.Quiet) (self : d.hasThis = true → arguments ≠ []) :
    w.Takes machine c caller (Frame.start method arguments c) s none := by
  obtain ⟨rfl, loaded, resolve, ⟨owner, owned⟩, -, -, -⟩ := live
  have runs : (Frame.start method arguments c).Runs d c := Frame.runs_start self
  have room := w.scaffoldDepth_le loaded runs
  unfold scaffoldDepth at room
  obtain ⟨path, s', leads, like, -⟩ := w.leads_opening loaded resolve quiet owned runs.self
    (Nat.lt_of_lt_of_le (by simp [Frame.start]) room)
  have held := w.getElem?_locals_start loaded method arguments
  have same : (Frame.start method arguments c).withMap body.locals.length .null =
      Frame.start method arguments c := by
    rw [Frame.withMap, setIfInBounds_eq_self held]
  refine ⟨path, .null, s', ?_, .none, .none (like.rules ▸ quiet)⟩
  rw [same]
  exact leads

/-- With rules a method takes the call map that is published when it asks for it. -/
theorem takes_of_publishFor {w : Weave m imports token d body woven} (live : w.Live machine c caller)
    (nameable : m.types.size ≤ Edit.rowLimit) (registered : s.rules.Registered)
    (self : d.hasThis = true → arguments ≠ []) {id : Nat} {map : CallMap} {publication : Publication}
    (publishes : s.rules.publishFor m.hierarchy caller
      ((Frame.start method arguments c).callees m w.called) = (.ok id, publication))
    (published : publication.get? caller = some id) (held : publication.maps[id]? = some map) :
    w.Takes machine c caller (Frame.start method arguments c) s (some map) := by
  obtain ⟨rfl, loaded, resolve, ⟨owner, owned⟩, ⟨d', found⟩, stands, calls⟩ := live
  let f := Frame.start method arguments c
  rw [← f.callee_of_methodDef found stands] at publishes
  obtain ⟨path, s', leads, rules⟩ := w.leads_prologue calls loaded resolve nameable registered owned
    stands (Frame.runs_start self) rfl publishes
  refine ⟨path, _, s', leads, ?_, ?_⟩
  · exact .some (by rw [rules]; exact held)
  · rw [rules]
    exact .some ⟨registered.binders_ne, registered.resolver_eq⟩ published held

/-- The instantiation that runs first takes a call map that is made for its own calls. -/
theorem takes_mapFor {w : Weave m imports token d body woven} (live : w.Live machine c caller)
    (nameable : m.types.size ≤ Edit.rowLimit) (unresolved : s.rules.resolver = none)
    (unpublished : s.rules.publication.get? caller = none)
    (self : d.hasThis = true → arguments ≠ [])
    (made : s.rules.mapFor m caller ((Frame.start method arguments c).callees m w.called) =
      .ok map) : w.Takes machine c caller (Frame.start method arguments c) s map := by
  by_cases empty : s.rules.binders = []
  case pos =>
    rw [Rules.mapFor, if_pos empty] at made
    cases made
    exact takes_of_quiet live ⟨empty, unresolved⟩ self
  case neg =>
    obtain ⟨map, rfl⟩ : ∃ map', map = some map' := by
      rw [Rules.mapFor, if_neg empty] at made
      obtain ⟨map', -, same⟩ := bind_eq_ok_iff.mp made
      exact ⟨map', (Except.ok.inj same).symm⟩
    exact takes_of_publishFor live nameable ⟨empty, unresolved⟩ self
      (publishFor_of_mapFor unpublished made) (Publication.get?_add_self unpublished)
      (Publication.getElem?_add_self _ _ _)

/-- Every instantiation takes the call map that is settled. -/
theorem takes_of_settles {w : Weave m imports token d body woven} (live : w.Live machine c caller)
    (nameable : m.types.size ≤ Edit.rowLimit) (settled : s.rules.Settles caller map)
    (self : d.hasThis = true → arguments ≠ []) :
    w.Takes machine c caller (Frame.start method arguments c) s map := by
  cases settled with
  | none quiet => exact takes_of_quiet live quiet self
  | some registered published held =>
    exact takes_of_publishFor live nameable registered self
      (publishFor_of_published published _ _) published held

end Weave

/-- What a call site does that goes by a call map. -/
def SitePlaces.GoesBy (p : SitePlaces) (m : Machine) (c : Code) (kept : Nat) (f : Frame)
    (s : MachineState) (site : CallSite) (rest : List Value) (map : Option CallMap) (callee : Method)
    (context : StackTrace → CallContext) : Prop :=
  match map.bind (·.substitute? callee) with
  | none => p.Restores m c kept f s
  | some substitute => p.Substitutes m c kept f s site rest substitute context

/-- All instantiations of a woven method go by the call map that is made for the calls of the one that
runs first, and of none if there are no rules.  Each call site then runs the substitute that this map
has for the call as the running instantiation means it, or restores the call. -/
theorem goes_by_map_of_first_instantiation {o : WeavePolicy} {m m' : Module} {summary : PassSummary}
    (small : m.methods.size ≤ Edit.rowLimit) (nameable : m.types.size ≤ Edit.rowLimit)
    (pass : Yields (weavePass o) m summary m') {token : Token} {d d' : MethodDef} {body woven : Body}
    (found : m.methodDefAt token = .ok d) (hasBody : d.body = some body)
    (found' : m'.methodDefAt token = .ok d') (hasBody' : d'.body = some woven)
    (rewoven : woven ≠ body) (deep : body.maxStack.toNat ≤ 65523) {c : Code}
    (loaded : Code.ofBody woven = .ok (some c)) :
    ∃ (imports : Imports) (w : Weave m' imports token d body woven) (caller : Method),
      m'.methodAt token = .ok caller ∧
      (∀ (machine : Machine) (first : Method) (arguments : List Value) (s : MachineState)
        (map : Option CallMap), machine.program = .ofModule m' →
        (d.hasThis = true → arguments ≠ []) → s.rules.resolver = none →
        s.rules.publication.get? caller = none →
        s.rules.mapFor m' caller ((Frame.start first arguments c).callees m' (body.called m' o)) =
          .ok map →
        w.Takes machine c caller (Frame.start first arguments c) s map ∧
        ∀ fuel value s', Yields (machine.enter (fun callee => machine.runFrom fuel callee 0) token
            first arguments) s value s' →
          ∀ (second : Method) (arguments' : List Value) (t : MachineState),
            (d.hasThis = true → arguments' ≠ []) → s'.rules.Extends t.rules →
            w.Takes machine c caller (Frame.start second arguments' c) t map) ∧
      ∀ (before after : List Instruction) (i : Instruction) (site : CallSite),
        decodeCode body.code = .ok (before ++ i :: after) → CallSite.at? m o i = .ok (some site) →
        ∃ (p : SitePlaces) (called : Method), p.start = w.start before.length ∧ p.IsIn c m' i ∧
          m'.methodAt site.token = .ok called ∧
          ∀ (machine : Machine) (f : Frame) (s : MachineState) (receiver : Option Value)
            (arguments rest : List Value) (value : Value) (map : Option CallMap),
            machine.module = m' → f.Runs d c → site.IsReached f receiver arguments rest →
            f.stack.length ≤ body.maxStack.toNat → f.locals[body.locals.length]? = some value →
            s.rules.MapHeld value map →
            p.GoesBy machine c (body.locals.length + 1) f s site rest map
              (f.callee site.token called)
              (site.context m' (hostOf token d body) caller called f receiver arguments) := by
  obtain ⟨grows, -⟩ := rewoven_of_weavePass small pass
  obtain ⟨imports, w, caller, known⟩ :=
    wovenBy_of_weavePass small pass found hasBody found' hasBody' rewoven
  rw [w.called_eq known.looked]
  have nameable' : m'.types.size ≤ Edit.rowLimit := by rwa [grows.types]
  refine ⟨imports, w, caller, known.stands, ?_, ?_⟩
  · intro machine first arguments s map program self unresolved unpublished made
    have live : w.Live machine c caller :=
      ⟨congrArg Program.module program, loaded, known.resolve, known.owned, ⟨d', found'⟩,
        known.stands, known.intercepts⟩
    refine ⟨Weave.takes_mapFor live nameable' unresolved unpublished self made, ?_⟩
    intro fuel value s' ran second arguments' t self' extend
    obtain ⟨-, code, f, inner, same, ran, rfl⟩ := Machine.yields_enter.mp ran
    obtain rfl : c = code := by
      rw [program, (Program.code_ofModule_eq_ok_iff found').mpr ⟨woven, hasBody', loaded⟩] at same
      exact Except.ok.inj same
    -- The first instantiation takes its map also where a run enters it.
    have taken : w.Takes machine c caller (Frame.start first arguments c)
        { s with callStack := ⟨first, 0⟩ :: s.callStack } map :=
      Weave.takes_mapFor live nameable' unresolved unpublished self made
    obtain ⟨path, held, s₁, leads, -, settled⟩ := taken
    obtain ⟨fuel', rest⟩ := leads.exists_yieldsWith_runFrom ran
    -- Code that runs later only adds call maps, so a map that is published stays.
    have later : s₁.rules.Extends inner.rules := by
      have keeps := keepsRules_runFrom (m := machine) fuel' c (w.start 0)
        ((Frame.start first arguments c).withMap body.locals.length held) s₁
      rwa [show _ = (_, inner) from rest] at keeps
    exact Weave.takes_of_settles live nameable' (settled.extend (later.trans extend)) self'
  · intro before after i site decoded intercepted
    obtain ⟨front, back, split, rfl⟩ :=
      known.exists_entries decoded (CallSite.at?_grows intercepted grows)
    obtain ⟨p, called, start, -, inCode, calls, does⟩ := w.exists_places known.resolve loaded deep
      known.stands split
    refine ⟨p, called, by rw [start, List.length_map], inCode, calls, ?_⟩
    intro machine f s receiver arguments rest value map same runs reached fits held content
    obtain ⟨restores, substitutes⟩ := does machine f s receiver arguments rest same runs reached fits
    unfold SitePlaces.GoesBy
    split
    case h_1 unmapped => exact restores value map held content unmapped
    case h_2 substitute mapped =>
      obtain ⟨map, rfl, found⟩ := Option.bind_eq_some_iff.mp mapped
      cases content with
      | some published =>
        obtain ⟨place, known, found⟩ := Option.bind_eq_some_iff.mp found
        obtain ⟨entry, here, taken⟩ := Option.bind_eq_some_iff.mp found
        cases taken
        exact substitutes nameable' _ map place entry held published known here

/-- A module with a generic method `G` that calls the generic method `Echo` with its own type argument,
and with two methods that call instantiations of `G`. -/
def genericHostModule : Module where
  name := "Demo"
  types := #[.ofClass "Demo.A", .ofClass "Demo.B"]
  methods := #[
    { owner := .ofRow .typeDef 1, name := "RunInt", flags := .isStatic, returnType := .int32,
      body := some { code := [0x1B, 0x28, 0x01, 0x00, 0x00, 0x2B, 0x2A] } },
    { owner := .ofRow .typeDef 1, name := "RunString", flags := .isStatic, returnType := .int32,
      body := some { code := [0x14, 0x28, 0x02, 0x00, 0x00, 0x2B, 0x2A] } },
    { owner := .ofRow .typeDef 1, name := "G", flags := .isStatic, genericArity := 1,
      parameters := [.methodParameter 0], returnType := .int32,
      body := some { code := [0x02, 0x28, 0x03, 0x00, 0x00, 0x2B, 0x2A] } },
    { owner := .ofRow .typeDef 2, name := "Echo", flags := .isStatic, genericArity := 1,
      parameters := [.methodParameter 0], returnType := .int32,
      body := some { code := [0x17, 0x2A] } }]
  methodSpecs := #[⟨.ofRow .methodDef 3, [.int32]⟩, ⟨.ofRow .methodDef 3, [.string]⟩,
    ⟨.ofRow .methodDef 4, [.methodParameter 0]⟩]

/-- A rule that is about all instantiations of the method `Echo`. -/
def echoRule : Rules where
  binders := [.single
    { declaringType := .classType "Demo.B", name := "Echo", parameters := [.methodParameter 0]
      returnType := .int32, genericArity := 1, flags := .isStatic }
    (.ofFunction fun _ => return .int32 7)]

/-- The call in `G`. -/
def echoCall : CallSite where
  instruction := ⟨1, .call, .token (.ofRow .methodSpec 3)⟩
  token := .ofRow .methodSpec 3
  target := {
    declaringType := .classType "Demo.B", name := "Echo", parameters := [.methodParameter 0]
    returnType := .int32, genericArity := 1, typeArguments := [.methodParameter 0], flags := .isStatic }

/-- The instantiation of `G` that `RunInt` calls. -/
def genericHostOfInt : Method where
  declaringType := .classType "Demo.A"
  name := "G"
  parameters := [.int32]
  returnType := .int32
  genericArity := 1
  typeArguments := [.int32]
  flags := .isStatic

theorem yields_weavePass_genericHostModule : Yields (weavePass {}) genericHostModule
    { visited := 4, woven := 3, skipped := 0, sites := 3 }
    ((weavePass {}).run.run genericHostModule).2 := by
  have done : ((weavePass {}).run.run genericHostModule).1 =
      .ok { visited := 4, woven := 3, skipped := 0, sites := 3 } := by decide +kernel
  exact Prod.ext done rfl

theorem goes_by_map_of_first_instantiation_generic : ∃ (m' : Module) (c : Code) (imports : Imports)
    (d : MethodDef) (body woven : Body) (w : Weave m' imports (.ofRow .methodDef 3) d body woven)
    (caller : Method) (map : Option CallMap) (p : SitePlaces), map.isSome ∧
    w.Takes ⟨.ofModule m', .standard, {}⟩ c caller (Frame.start genericHostOfInt [.int32 5] c)
      { rules := echoRule } map ∧ p.IsIn c m' echoCall.instruction := by
  have pass := yields_weavePass_genericHostModule
  revert pass
  generalize result : ((weavePass {}).run.run genericHostModule).2 = m'
  intro pass
  let body : Body := { code := [0x02, 0x28, 0x03, 0x00, 0x00, 0x2B, 0x2A] }
  have checked : ((m'.methodDefAt (.ofRow .methodDef 3)).toOption.bind (·.body)).any (fun b =>
      b.code ≠ body.code && (Code.ofBody b).toOption.any fun code => code.any fun c =>
        (m'.methodAt (.ofRow .methodDef 3)).toOption.any fun caller =>
          (echoRule.mapFor m' caller ((Frame.start genericHostOfInt [.int32 5] c).callees m'
            (body.called m' {}))).toOption.any Option.isSome) = true := by
    rw [← result]
    decide +kernel
  obtain ⟨woven, known, checked⟩ := (Option.any_eq_true ..).mp checked
  obtain ⟨d', found', hasBody'⟩ := Option.bind_eq_some_iff.mp known
  rw [toOption_eq_some_iff] at found'
  simp only [Bool.and_eq_true, decide_eq_true_eq, Option.any_eq_true, toOption_eq_some_iff] at checked
  obtain ⟨other, _, loaded, c, rfl, caller, stands, map, made, some⟩ := checked
  have found : genericHostModule.methodDefAt (.ofRow .methodDef 3) = .ok genericHostModule.methods[2] :=
    rfl
  have decoded : decodeCode [0x02, 0x28, 0x03, 0x00, 0x00, 0x2B, 0x2A] =
      .ok ([⟨0, .ldarg0, .none⟩] ++ echoCall.instruction :: [⟨6, .ret, .none⟩]) := rfl
  have intercepted : CallSite.at? genericHostModule {} echoCall.instruction = .ok (.some echoCall) :=
    rfl
  obtain ⟨imports, w, caller', stands', takes, sites⟩ := goes_by_map_of_first_instantiation
    (by decide) (by decide) pass found rfl found' hasBody' (fun same => other (congrArg Body.code same))
    (by decide) loaded
  obtain rfl := Except.ok.inj (stands.symm.trans stands')
  obtain ⟨first, -⟩ := takes ⟨.ofModule m', .standard, {}⟩ genericHostOfInt [.int32 5]
    { rules := echoRule } map rfl (fun _ => List.cons_ne_nil _ _) rfl rfl made
  obtain ⟨p, called, -, inCode, -⟩ := sites _ _ _ _ decoded intercepted
  exact ⟨m', c, imports, _, _, woven, w, caller, map, p, some, first, inCode⟩

/-- The machine that runs the module after a pass. -/
def genericHostMachine : Machine where
  program := .ofModule ((weavePass {}).run.run genericHostModule).2
  limits := { instructions := 100 }

/-- What a method returns after others have run under the same rule. -/
def resultAfter (others : List String) (name : String) : Option Int64 :=
  let run (name : String) : Run Value := genericHostMachine.invokeNamed "Demo.A" name none []
  let state := others.foldl (fun s other => ((run other).run.run s).2) { rules := echoRule }
  ((run name).run.run state).1.toOption.bind Value.asInt64?

/-- With the call map of another instantiation a method does not run the substitute that it runs if it
is the first. -/
theorem substitutes_of_later_instantiation_differ :
    resultAfter [] "RunString" = some 7 ∧ resultAfter ["RunInt"] "RunString" = some 1 := by
  decide +kernel

end Interpose
