import Interpose.Proofs.Machine.Watch
import Interpose.Proofs.Substitution.Publication

/-!
# Rules while code runs

Running code registers no rules and forgets none.  All it does to the rules is to combine what is
registered to a provider, and to publish the call map of a method that has none.  So a call map that
was published stays the one of its method, whatever runs afterwards and whether it succeeds or not.

## Main definitions

* `Rules.Extends` — rules have come to more providers and call maps
* `Run.KeepsRules`, `Step.KeepsRules` — a computation only extends the rules

## Main results

* `keepsRules_step` — so does every instruction
* `keepsRules_runFrom`, `keepsRules_execute`, `keepsRules_invoke` — and every run of code
-/

namespace Interpose

/-- The rules `r'` are those of `r`, with more providers and more call maps. -/
structure Rules.Extends (r r' : Rules) : Prop where
  binders_eq : r'.binders = r.binders
  resolver_eq : r'.resolver = r.resolver
  providers : ∀ (id : Nat) provider, r.providers[id]? = some provider →
    r'.providers[id]? = some provider
  maps : ∀ (id : Nat) map, r.publication.maps[id]? = some map → r'.publication.maps[id]? = some map
  published : ∀ host id, r.publication.get? host = some id → r'.publication.get? host = some id

namespace Rules.Extends

variable {r r' r'' : Rules}

theorem refl (r : Rules) : r.Extends r :=
  ⟨rfl, rfl, fun _ _ => id, fun _ _ => id, fun _ _ => id⟩

theorem trans (h : r.Extends r') (h' : r'.Extends r'') : r.Extends r'' where
  binders_eq := h'.binders_eq.trans h.binders_eq
  resolver_eq := h'.resolver_eq.trans h.resolver_eq
  providers id provider known := h'.providers id provider (h.providers id provider known)
  maps id map known := h'.maps id map (h.maps id map known)
  published host id known := h'.published host id (h.published host id known)

end Rules.Extends

/-- A provider that is added is no rule. -/
theorem Rules.extends_push (r : Rules) (provider : Provider) :
    r.Extends { r with providers := r.providers.push provider } :=
  ⟨rfl, rfl, fun _ _ known => getElem?_push_of_some known provider, fun _ _ => id, fun _ _ => id⟩

/-- A published call map stays the one of its method. -/
theorem Rules.extends_publish (r : Rules) (host : Method) (populate : Nat → Except Error CallMap) :
    r.Extends { r with publication := (r.publication.publish host populate).2 } where
  binders_eq := rfl
  resolver_eq := rfl
  providers _ _ := id
  maps _ _ held := Publication.getElem?_publish held host populate
  published _ _ known := Publication.get?_publish known host populate

/-- The computation only extends the rules, whether it succeeds or fails. -/
def Run.KeepsRules {α : Type} (x : Run α) : Prop :=
  ∀ s : MachineState, s.rules.Extends (x.run.run s).2.rules

/-- The computation of a running method only extends the rules. -/
def Step.KeepsRules {α : Type} (x : Step α) : Prop := ∀ f, Run.KeepsRules (x.run f)

/-- The rules are only extended from one state to the other. -/
private def RulesExtend (s s' : MachineState) : Prop := s.rules.Extends s'.rules

/-- The choice of a provider leaves the rules alone, or adds a combination of what is registered. -/
theorem Rules.chooseProvider_cases (r : Rules) (callingInstance : Value) (declaringType : Ty) :
    ((Intercept.chooseProvider callingInstance declaringType).run.run r).2 = r ∨
      ((Intercept.chooseProvider callingInstance declaringType).run.run r).2 =
        { r with providers := r.providers.push (.composite r.binders) } := by
  unfold Intercept.chooseProvider
  rw [(yields_get.mpr ⟨rfl, rfl⟩ : Yields get r r r).run_bind]
  cases r.resolver.bind fun resolver => resolver callingInstance declaringType with
  | some id => exact .inl rfl
  | none =>
    cases r.binders.isEmpty with
    | true => exact .inl rfl
    | false => exact .inr rfl

private theorem extends_chooseProvider (r : Rules) (callingInstance : Value) (declaringType : Ty) :
    r.Extends ((Intercept.chooseProvider callingInstance declaringType).run.run r).2 := by
  rcases r.chooseProvider_cases callingInstance declaringType with same | added
  · rw [same]
    exact .refl r
  · rw [added]
    exact r.extends_push _

private instance : Lasting RulesExtend where
  refl s := .refl s.rules
  trans := .trans
  store s _ := .refl s.rules
  statics s _ := .refl s.rules
  provider s callingInstance declaringType :=
    extends_chooseProvider s.rules callingInstance declaringType
  callMap s _ caller _ := s.rules.extends_publish caller.host _
  executed s := .refl s.rules
  callStack s _ := .refl s.rules

variable {m : Machine}

/-- An instruction only extends the rules if the methods do that it calls. -/
theorem keepsRules_step {execute : Executor} (keeps : ∀ token method arguments,
    (execute token method arguments).KeepsRules) (i : Instruction) :
    (m.step execute i).KeepsRules :=
  respects_step (P := RulesExtend) keeps i

/-- A run of code only extends the rules. -/
theorem keepsRules_runFrom (fuel : Nat) (code : Code) (position : Nat) :
    (m.runFrom fuel code position).KeepsRules := by
  rw [← Machine.runUnder_unwatched]
  exact respects_runUnder (P := RulesExtend) fuel code position

/-- So does running a method. -/
theorem keepsRules_execute (token : Token) (method : Method) (arguments : List Value) :
    (m.execute token method arguments).KeepsRules :=
  respects_enter (P := RulesExtend) (fun code => keepsRules_runFrom _ code 0) token method arguments

/-- So does invoking one. -/
theorem keepsRules_invoke (token : Token) (receiver : Option Value) (arguments : List Value) :
    (m.invoke token receiver arguments).KeepsRules := by
  unfold Machine.invoke
  have runs (method : Method) : Run.Respects RulesExtend (do
      modify fun s => { s with executed := 0, callStack := [] }
      m.execute token method (Machine.withReceiver method receiver
        (arguments.zipWith Value.adaptTo method.parameters))) :=
    .bind (fun s => Rules.Extends.refl s.rules) fun _ => keepsRules_execute token method _
  show Run.Respects RulesExtend _
  exact (Run.Respects.of_result _).bind fun method => .ite (.bind (.fault _) fun _ => runs method)
    (runs method)

end Interpose
