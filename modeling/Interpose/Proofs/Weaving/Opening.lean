import Interpose.Proofs.Substitution.Population
import Interpose.Proofs.Weaving.Placement
import Mathlib.Data.List.Induction
import Mathlib.Data.List.Nodup
import Mathlib.Data.List.Perm.Subperm

/-!
# The beginning of woven methods

A woven method starts by asking for its call map.  If nothing is registered there is no provider, and
control comes to the code of the first instruction with the frame as it was.  If rules are
registered, a combination of them becomes the provider, and the call map is the published one of the
method, or else one that the provider makes for the methods that are called.

## Main definitions

* `Rules.Quiet` — nothing is registered
* `Frame.callees` — the methods that are called, as they are meant in a frame
* `Rules.publishFor` — what is published when a method asks for its call map
* `Frame.withMap` — a frame in which a call map is held

## Main results

* `yields_chooseProvider` — there is no provider if nothing is registered
* `Weave.leads_opening` — the prologue then does nothing
* `Weave.leads_prologue` — with rules, the prologue leaves the published call map
-/

namespace Interpose

/-- Nothing is registered that could supply a provider. -/
structure Rules.Quiet (r : Rules) : Prop where
  binders_eq : r.binders = []
  resolver_eq : r.resolver = none

section Prologue

variable {m : Machine} {imports : Imports} {host : Host} {f : Frame} {s : MachineState}

/-- There is no provider if nothing is registered. -/
theorem yields_chooseProvider (quiet : s.rules.Quiet) (callingInstance : Value) (type : Ty) :
    Yields (Machine.chooseProvider callingInstance (.handle (.type type))) s .null s := by
  have chosen : Yields (Intercept.chooseProvider callingInstance type) s.rules none s.rules := by
    unfold Intercept.chooseProvider
    rw [yields_get_bind, quiet.resolver_eq, quiet.binders_eq]
    exact yields_pure.mpr ⟨rfl, rfl⟩
  unfold Machine.chooseProvider
  exact (yields_intercept.mpr ⟨s.rules, chosen, rfl⟩).bind (yields_pure.mpr ⟨rfl, rfl⟩)

/-- The object whose method runs, and the type that declares the method, are loaded. -/
def loadOwner (imports : Imports) (host : Host) : List ListingItem :=
  [host.loadSelf] ++ ([.withToken .ldtoken host.owner] ++ [imports.call .getTypeFromHandle])

theorem passes_loadOwner (resolve : imports.Resolve m.module)
    {owner : TypeDef} (owned : m.module.typeDefAt host.owner = .ok owner)
    (self : host.hasThis = true → 0 < f.arguments.size) (room : f.stack.length + 1 < f.maxStack) :
    Passes m (loadOwner imports host) f s
      { f with stack := .handle (.type (f.close owner.type)) :: host.self f :: f.stack }
      (· = s.store) := by
  obtain ⟨inside, -⟩ := Module.row_eq_ok_iff.mp owned
  have known : m.module.typeAt host.owner = .ok owner.type :=
    Module.typeAt_eq_ok_iff.mpr (.inl ⟨owner, owned, rfl⟩)
  let handle : Value := .handle (.type (f.close owner.type))
  unfold loadOwner
  refine (passes_loadSelf self (by omega)).append fun s₁ like₁ store₁ => ?_
  refine (passes_ldtoken_type inside known (by simpa using room)).append fun s₂ like₂ store₂ => ?_
  have handsOver (s₃ : MachineState) (same : s₃.store = s₂.store) : ∃ s',
      Yields (m.intrinsic .getTypeFromHandle none [handle]) s₃ handle s' ∧
        s'.executed = s₃.executed ∧ s₃.Like s' ∧ s'.store = s.store :=
    ⟨s₃, yields_pure.mpr ⟨rfl, rfl⟩, rfl, .refl s₃, by rw [same, store₂, store₁]⟩
  have typed : handle :: host.self f :: f.stack =
      [handle].reverse ++ ((none : Option Value).toList ++ host.self f :: f.stack) := rfl
  exact passes_intrinsic (Q := (· = s.store)) resolve .getTypeFromHandle (.inl rfl) none [handle]
    typed rfl rfl (by simpa using room) rfl rfl fun s₃ _ same => handsOver s₃ same

/-- The prologue asks for the provider of the object whose method runs. -/
def askProvider (imports : Imports) (host : Host) : List ListingItem :=
  loadOwner imports host ++ ([imports.call .getProvider] ++ [.plain .dup])

theorem passes_askProvider (resolve : imports.Resolve m.module) (quiet : s.rules.Quiet)
    {owner : TypeDef} (owned : m.module.typeDefAt host.owner = .ok owner)
    (self : host.hasThis = true → 0 < f.arguments.size) (room : f.stack.length + 1 < f.maxStack) :
    Passes m (askProvider imports host) f s { f with stack := .null :: .null :: f.stack }
      (· = s.store) := by
  let handle : Value := .handle (.type (f.close owner.type))
  unfold askProvider
  refine (passes_loadOwner resolve owned self room).append fun s₃ like₃ store₃ => ?_
  have noProvider (s₄ : MachineState) (like₄ : s₃.Like s₄) (same : s₄.store = s₃.store) : ∃ s',
      Yields (m.intrinsic .getProvider none [host.self f, handle]) s₄ .null s' ∧
        s'.executed = s₄.executed ∧ s₄.Like s' ∧ s'.store = s.store := by
    refine ⟨s₄, yields_chooseProvider ?_ _ _, rfl, .refl s₄, same.trans store₃⟩
    rw [(like₃.trans like₄).rules]
    exact quiet
  have asked : handle :: host.self f :: f.stack =
      [host.self f, handle].reverse ++ ((none : Option Value).toList ++ f.stack) := rfl
  refine (passes_intrinsic (Q := (· = s.store)) resolve .getProvider (.inl rfl) none
    [host.self f, handle] asked rfl rfl (by simp; omega) rfl rfl noProvider).append
    fun s₄ like₄ store₄ => ?_
  rw [← store₄]
  exact passes_dup rfl (by simpa using room)

end Prologue

namespace Weave

variable {m : Machine} {imports : Imports} {token : Token} {d : MethodDef} {body woven : Body}
  {c : Code} {f : Frame} {s : MachineState}

/-- If nothing is registered, the prologue does nothing. -/
theorem leads_opening (w : Weave m.module imports token d body woven)
    (loaded : Code.ofBody woven = .ok (some c)) (resolve : imports.Resolve m.module)
    (quiet : s.rules.Quiet) {owner : TypeDef} (owned : m.module.typeDefAt d.owner = .ok owner)
    (self : d.hasThis = true → 0 < f.arguments.size) (room : f.stack.length + 1 < f.maxStack) :
    ∃ path s', Leads m c path ⟨0, f, s⟩ ⟨w.start 0, f, s'⟩ ∧ s.Like s' ∧ s'.store = s.store := by
  let host := hostOf token d body
  obtain ⟨middle, opening⟩ : ∃ middle, w.opening = askProvider imports host ++
      (.branch .brfalse noProviderLabel :: (middle ++
        .label noProviderLabel :: [.plain .pop, .label bodyLabel])) :=
    ⟨host.loadSelf :: (imports.quoteMethod host.token ++ makeArray imports.methodBase
      ((calledTokens (w.entries.filterMap Prod.snd)).map imports.quoteMethod) ++
      [imports.call .captureStackTrace, imports.call .getMap, .stloc host.mapLocal,
        .branch .br bodyLabel]), by simp [Weave.opening, prologue, askProvider, loadOwner, host]⟩
  let asked := askProvider imports host ++ .branch .brfalse noProviderLabel :: middle
  have items : w.items = asked ++ (.label noProviderLabel :: .plain .pop ::
      .label bodyLabel :: w.parts.flatten) := by
    rw [Weave.items, ← Weave.opening, opening]
    simp [asked]
  have holds := w.holds loaded
  rw [items] at holds
  -- Without a provider control goes behind the part that makes a call map.
  obtain ⟨known, behind⟩ := holds.right.label
  have popping : c.Holds w.label? _ _
      ([.plain .pop] ++ .label bodyLabel :: w.parts.flatten) := behind
  have found := behind.indexOf? (w.ordered loaded) (by simp [ListingItem.isLabel])
  have front : c.Holds w.label? 0 0 (askProvider imports host ++ (.branch .brfalse noProviderLabel ::
      (middle ++ .label noProviderLabel :: .plain .pop :: .label bodyLabel :: w.parts.flatten))) := by
    simpa [asked] using holds
  obtain ⟨s₁, offset₁, leads₁, like₁, store₁, holds₁⟩ :=
    (passes_askProvider resolve quiet owned self room).leads front
  have leads₂ := leads_brfalse (m := m) holds₁ known found f (.null :: f.stack)
    (rfl : Value.null.takesBranch = false) s₁
  obtain ⟨s₃, offset₃, leads₃, like₃, store₃, -⟩ :=
    (passes_pop (m := m) (f := { f with stack := .null :: f.stack })
      (s := s₁.tick offset₁) rfl).leads popping
  have start : 0 + instructionCount asked + instructionCount [.plain .pop] = w.start 0 := by
    rw [Weave.start, opening]
    simp [asked, ListingItem.isLabel]
    omega
  rw [start] at leads₃
  refine ⟨_, s₃, (leads₁.trans leads₂).trans leads₃, (like₁.trans (.tick s₁ offset₁)).trans like₃, ?_⟩
  rw [store₃, MachineState.tick_store, store₁]

end Weave

/-- Rules are registered, and no resolver comes before them. -/
structure Rules.Registered (r : Rules) : Prop where
  binders_ne : r.binders ≠ []
  resolver_eq : r.resolver = none

/-- The rules with one more provider, which combines what is registered. -/
def Rules.combined (r : Rules) : Rules :=
  { r with providers := r.providers.push (.composite r.binders) }

/-- The number of the call map of a method, and the published call maps, after the method has asked
for its call map. -/
def Rules.publishFor (r : Rules) (hierarchy : Hierarchy) (host : Method) (calls : List Method) :
    Except Error Nat × Publication :=
  r.publication.publish host (Intercept.populated (.composite r.binders)
    { callingInstance := .null, host, intercepted := calls, stackTrace := [] } hierarchy)

/-- The methods that tokens stand for, as they are meant in a frame. -/
def Frame.callees (f : Frame) (m : Module) (tokens : List Token) : List Method :=
  tokens.filterMap fun token => (m.methodAt token).toOption.map (f.callee token)

/-- The frame with a value in the local variable for the call map. -/
def Frame.withMap (f : Frame) (index : Nat) (value : Value) : Frame :=
  { f with locals := f.locals.setIfInBounds index value }

section Registered

variable {m : Machine} {imports : Imports} {host : Host} {f : Frame} {s : MachineState}

/-- What is registered becomes the provider. -/
theorem yields_chooseProvider_registered (registered : s.rules.Registered) (callingInstance : Value)
    (type : Ty) : Yields (Machine.chooseProvider callingInstance (.handle (.type type))) s
      (.handle (.provider s.rules.providers.size)) { s with rules := s.rules.combined } := by
  have chosen : Yields (Intercept.chooseProvider callingInstance type) s.rules
      (some s.rules.providers.size) s.rules.combined := by
    have some : s.rules.binders.isEmpty = false := by
      simpa using registered.binders_ne
    unfold Intercept.chooseProvider
    rw [yields_get_bind]
    simp only [registered.resolver_eq, Option.bind_none, some]
    exact yields_set_bind.mpr (yields_pure.mpr ⟨rfl, by rw [Rules.combined, registered.resolver_eq]⟩)
  unfold Machine.chooseProvider
  exact (yields_intercept.mpr ⟨_, chosen, rfl⟩).bind (yields_pure.mpr ⟨rfl, rfl⟩)

private theorem yields_methodOf_handles (i : Intrinsic) (methods : List Method) (s : MachineState) :
    Yields ((methods.map fun method => Value.handle (.method method)).mapM (Run.methodOf i)) s
      methods s := by
  induction methods with
  | nil => exact yields_mapM_nil.mpr ⟨rfl, rfl⟩
  | cons method rest ih =>
    exact yields_mapM_cons.mpr ⟨method, s, rest, yields_pure.mpr ⟨rfl, rfl⟩, ih, rfl⟩

/-- A method that asks for its call map gets the published one. -/
theorem yields_callMapFor {provider ref trace id : Nat} {host : Method} {calls : List Method}
    {element : Ty} {stackTrace : StackTrace} {publication : Publication} (callingInstance : Value)
    (combines : s.rules.providers[provider]? = some (.composite s.rules.binders))
    (array : s.store.objects[ref]? = some (.array element
      (calls.map fun method => Value.handle (.method method)).toArray))
    (traced : s.store.traces[trace]? = some stackTrace)
    (publishes : s.rules.publishFor m.module.hierarchy host calls = (.ok id, publication)) :
    Yields (m.callMapFor (.handle (.provider provider)) callingInstance (.handle (.method host))
      (.object ref) (.handle (.stackTrace trace))) s (.handle (.callMap id))
      { s with rules := { s.rules with publication } } := by
  let caller : Caller := { callingInstance, host, intercepted := calls, stackTrace }
  let handles : Array Value := (calls.map fun method => Value.handle (.method method)).toArray
  have elements : Yields (Run.elementsOf .getMap (.object ref)) s
      (calls.map fun method => Value.handle (.method method)) s := by
    unfold Run.elementsOf
    refine yields_bind.mpr ⟨.array element handles, s, yields_act.mpr ⟨s.store, ?_, rfl⟩,
      yields_liftM.mpr ⟨rfl, rfl⟩⟩
    unfold Act.object
    rw [yields_get_bind, array]
    exact yields_pure.mpr ⟨rfl, rfl⟩
  have trace : Yields (Run.traceOf .getMap (.handle (.stackTrace trace))) s stackTrace s := by
    unfold Run.traceOf
    rw [yields_get_bind, traced]
    exact yields_pure.mpr ⟨rfl, rfl⟩
  -- Rules look at the calls alone, so whoever asks for the map gets what any other one would.
  have published : Yields (Intercept.publishedMap provider caller m.module.hierarchy) s.rules id
      { s.rules with publication } := by
    let asker : Caller := { callingInstance := .null, host, intercepted := calls, stackTrace := [] }
    have calledAlike : caller.intercepted = asker.intercepted := rfl
    have same : Intercept.populated (.composite s.rules.binders) caller m.module.hierarchy =
        Intercept.populated (.composite s.rules.binders) asker m.module.hierarchy :=
      funext fun id => Intercept.populated_congr calledAlike _ _ id
    have made : s.rules.publication.publish caller.host (Intercept.populated
        (.composite s.rules.binders) caller m.module.hierarchy) = (.ok id, publication) := by
      rw [same]
      exact publishes
    unfold Intercept.publishedMap
    rw [yields_get_bind, combines, Option.getD_some]
    simp only [made]
    exact yields_set_bind.mpr (yields_liftM.mpr ⟨rfl, rfl⟩)
  unfold Machine.callMapFor
  refine (yields_pure.mpr ⟨rfl, rfl⟩ : Yields (Run.methodOf .getMap _) s host s).bind ?_
  refine elements.bind ((yields_methodOf_handles .getMap calls s).bind (trace.bind ?_))
  exact (yields_intercept.mpr ⟨_, published, rfl⟩).bind (yields_pure.mpr ⟨rfl, rfl⟩)

end Registered

section Called

variable {m : Machine} {sites : List CallSite} {token : Token}

private theorem calledTokens_concat (sites : List CallSite) (site : CallSite) :
    calledTokens (sites ++ [site]) =
      if site.token ∈ calledTokens sites then calledTokens sites
      else calledTokens sites ++ [site.token] := by
  rw [calledTokens, List.foldl_concat]
  rfl

theorem mem_calledTokens : token ∈ calledTokens sites ↔ ∃ site ∈ sites, site.token = token := by
  induction sites using List.reverseRecOn with
  | nil => simp [calledTokens]
  | append_singleton sites site ih =>
    have more : (∃ other ∈ sites ++ [site], other.token = token) ↔
        token ∈ calledTokens sites ∨ site.token = token := by
      rw [ih]
      simp only [List.mem_append, List.mem_singleton, or_and_right, exists_or, exists_eq_left]
    rw [calledTokens_concat, more]
    split
    case isTrue known =>
      constructor
      · exact .inl
      · rintro (member | rfl)
        · exact member
        · exact known
    case isFalse => rw [List.mem_append, List.mem_singleton, eq_comm (a := token)]

theorem nodup_calledTokens (sites : List CallSite) : (calledTokens sites).Nodup := by
  induction sites using List.reverseRecOn with
  | nil => exact List.nodup_nil
  | append_singleton sites site ih =>
    rw [calledTokens_concat]
    split
    case isTrue => exact ih
    case isFalse fresh => exact List.nodup_append_comm.mp (List.nodup_cons.mpr ⟨fresh, ih⟩)

/-- Tables have small numbers, and so have the tokens of their rows. -/
theorem Token.value_lt_of_table? {id : Table} (h : token.table? = some id) :
    token.value.toNat < 0x71000000 := by
  have whole := token.value.toNat_lt
  unfold Token.table? Table.ofNumber? at h
  have found := List.find?_some h
  have same : id.number = token.tableNumber := of_decide_eq_true found
  have small : id.number.toNat < 0x71 := by cases id <;> decide
  rw [same, Token.tableNumber, UInt8.toNat_ofNat'] at small
  omega

/-- Tokens that name a table are fewer than an array can have elements. -/
theorem length_calledTokens_lt (named : ∀ token ∈ calledTokens sites, ∃ id, token.table? = some id) :
    (calledTokens sites).length < 0x80000000 := by
  let values := (calledTokens sites).map fun token => token.value.toNat
  have distinct : values.Nodup := by
    refine List.Nodup.map (fun token other same => ?_) (nodup_calledTokens sites)
    cases token
    cases other
    exact congrArg Token.mk (UInt32.toNat_inj.mp same)
  have inside : values ⊆ List.range 0x71000000 := by
    intro value member
    obtain ⟨token, called, rfl⟩ := List.mem_map.mp member
    obtain ⟨id, table⟩ := named token called
    exact List.mem_range.mpr (Token.value_lt_of_table? table)
  have few := (List.subperm_of_subset distinct inside).length_le
  rw [List.length_map, List.length_range] at few
  omega

end Called

namespace Weave

variable {m : Module} {imports : Imports} {token : Token} {d : MethodDef} {body woven : Body}

/-- The tokens of the methods that are called. -/
def called (w : Weave m imports token d body woven) : List Token :=
  calledTokens (w.entries.filterMap Prod.snd)

/-- Every method that is called is known. -/
theorem exists_methodAt_of_called (w : Weave m imports token d body woven) :
    ∀ token ∈ w.called, ∃ method, m.methodAt token = .ok method := by
  intro token member
  obtain ⟨site, inside, rfl⟩ := mem_calledTokens.mp member
  obtain ⟨⟨i, other⟩, entry, same⟩ := List.mem_filterMap.mp inside
  obtain rfl : other = some site := same
  obtain ⟨method, found, -⟩ := (w.sites i site entry).target_eq
  exact ⟨method, found⟩

/-- There are not too many methods to be called for an array of them. -/
theorem length_called_lt (w : Weave m imports token d body woven) :
    w.called.length < 0x80000000 := length_calledTokens_lt fun token member => by
  obtain ⟨method, known⟩ := w.exists_methodAt_of_called token member
  rcases Module.table?_of_methodAt known with table | table | table <;> exact ⟨_, table⟩

end Weave

section Prologue

variable {m : Machine} {imports : Imports} {host : Host} {caller : Method} {f : Frame}
  {s : MachineState} {called : List Token}

/-- The prologue names the method that runs and those that are called, and takes a stack trace. -/
def askMap (imports : Imports) (host : Host) (called : List Token) : List ListingItem :=
  [host.loadSelf] ++ (imports.quoteMethod host.token ++
    (makeArray imports.methodBase (called.map imports.quoteMethod) ++
      [imports.call .captureStackTrace]))

/-- The methods that are called become the elements of an array. -/
private theorem loads_callees (resolve : imports.Resolve m.module)
    (known : ∀ token ∈ called, ∃ method, m.module.methodAt token = .ok method) :
    List.Forall₂ (Loads m f) (called.map imports.quoteMethod)
      ((f.callees m.module called).map fun method => .handle (.method method)) := by
  induction called with
  | nil => exact .nil
  | cons token rest ih =>
    obtain ⟨⟨method, stands⟩, others⟩ := List.forall_mem_cons.mp known
    have first : f.callees m.module (token :: rest) =
        f.callee token method :: f.callees m.module rest := by
      rw [Frame.callees, List.filterMap_cons, stands]
      rfl
    rw [first]
    exact .cons (fun stack s room => passes_quoteMethod (f := { f with stack }) resolve stands room)
      (ih others)

theorem passes_askMap (resolve : imports.Resolve m.module)
    (nameable : m.module.types.size ≤ Edit.rowLimit)
    (stands : m.module.methodAt host.token = .ok caller)
    (known : ∀ token ∈ called, ∃ method, m.module.methodAt token = .ok method)
    (few : called.length < 0x80000000) (self : host.hasThis = true → 0 < f.arguments.size)
    (room : f.stack.length + 5 < f.maxStack) :
    Passes m (askMap imports host called) f s
      { f with stack := .handle (.stackTrace s.store.traces.size) ::
        .object s.store.objects.size :: .handle (.method (f.callee host.token caller)) ::
        host.self f :: f.stack }
      (fun store => ∃ element trace, store.traces[s.store.traces.size]? = some trace ∧
        store.objects[s.store.objects.size]? = some (.array element ((f.callees m.module called).map
          fun method => .handle (.method method)).toArray)) := by
  unfold askMap
  refine (passes_loadSelf self (by omega)).append fun s₁ like₁ store₁ => ?_
  refine (passes_quoteMethod resolve stands (by simp; omega)).append fun s₂ like₂ store₂ => ?_
  have element := resolve.methodBase nameable
  refine (passes_makeArray (f := f) element (loads_callees resolve known) (by simpa using few)
    (by simp; omega)).append fun s₃ like₃ store₃ => ?_
  have same : s₂.store = s.store := store₂.trans store₁
  rw [same] at store₃ ⊢
  refine passes_intrinsic resolve .captureStackTrace (.inl rfl) none [] rfl rfl rfl
    (by simp; omega) rfl rfl fun s₄ like₄ store₄ => ?_
  have traces : s₄.store.traces.size = s.store.traces.size := by rw [store₄, store₃]
  rw [← traces]
  refine ⟨_, yields_captureStackTrace s₄, rfl, ⟨rfl, rfl, rfl⟩,
    f.close (m.module.namedType Intrinsic.methodBaseType), s₄.callStack, ?_, ?_⟩
  · simp
  · simp only [store₄, store₃]
    simp

end Prologue

section Parts

variable {m : Machine} {imports : Imports} {host : Host} {caller : Method} {f : Frame}
  {s : MachineState} {called : List Token} {c : Code} {labels : String → Option Nat}
  {position offset : Nat} {name : String} {rest : List ListingItem}

/-- What is registered is combined to a provider, with which control comes behind the first branch. -/
private theorem leads_provider (resolve : imports.Resolve m.module)
    (registered : s.rules.Registered) {owner : TypeDef}
    (owned : m.module.typeDefAt host.owner = .ok owner)
    (self : host.hasThis = true → 0 < f.arguments.size) (room : f.stack.length + 1 < f.maxStack)
    (holds : c.Holds labels position offset (loadOwner imports host ++
      (imports.call .getProvider :: ([.plain .dup] ++ (.branch .brfalse name :: rest))))) :
    ∃ path s' offset', Leads m c path ⟨position, f, s⟩
        ⟨position + instructionCount (loadOwner imports host) + 3,
          { f with stack := .handle (.provider s.rules.providers.size) :: f.stack }, s'⟩ ∧
      s'.rules = s.rules.combined ∧
      c.Holds labels (position + instructionCount (loadOwner imports host) + 3) offset' rest := by
  obtain ⟨s₁, offset₁, leads₁, like₁, -, holds₁⟩ :=
    (passes_loadOwner resolve owned self room).leads holds
  let provider : Value := .handle (.provider s.rules.providers.size)
  let s₂ : MachineState := { s₁.tick offset₁ with rules := s.rules.combined }
  -- To find the type of the running method changes no rules.
  have chosen : Yields (m.intrinsic .getProvider none
      [host.self f, .handle (.type (f.close owner.type))]) (s₁.tick offset₁) provider s₂ := by
    have same : (s₁.tick offset₁).rules = s.rules := by rw [MachineState.tick_rules, like₁.rules]
    have combines := yields_chooseProvider_registered (s := s₁.tick offset₁) (same ▸ registered)
      (host.self f) (f.close owner.type)
    rw [same] at combines
    exact combines
  have free : f.stack.length < f.maxStack := by omega
  have leads₂ := leads_intrinsic (f := f) resolve holds₁
    [host.self f, .handle (.type (f.close owner.type))] rfl rfl free rfl rfl chosen rfl
  obtain ⟨s₃, offset₃, leads₃, like₃, -, holds₃⟩ := (passes_dup (m := m)
    (f := { f with stack := provider :: f.stack }) (s := s₂) rfl (by simpa using room)).leads
    (holds₁.tail rfl)
  have leads₄ := leads_past_brfalse (m := m) holds₃ f (provider :: f.stack)
    (rfl : provider.takesBranch = true) s₃
  refine ⟨_, s₃.tick offset₃, _, ((leads₁.trans leads₂).trans leads₃).trans leads₄, ?_,
    holds₃.tail rfl⟩
  rw [MachineState.tick_rules, like₃.rules]

/-- A provider that combines what is registered is asked for the call map of the running method,
which is kept in the local variable for it. -/
private theorem leads_callMap (resolve : imports.Resolve m.module)
    (nameable : m.module.types.size ≤ Edit.rowLimit)
    (stands : m.module.methodAt host.token = .ok caller)
    (known : ∀ token ∈ called, ∃ method, m.module.methodAt token = .ok method)
    (few : called.length < 0x80000000) (self : host.hasThis = true → 0 < f.arguments.size)
    (room : f.stack.length + 6 < f.maxStack) (inside : host.mapLocal.toNat < f.locals.size)
    {provider id : Nat} {publication : Publication}
    (combines : s.rules.providers[provider]? = some (.composite s.rules.binders))
    (publishes : s.rules.publishFor m.module.hierarchy (f.callee host.token caller)
      (f.callees m.module called) = (.ok id, publication))
    (holds : c.Holds labels position offset (askMap imports host called ++
      (imports.call .getMap :: ([.stloc host.mapLocal] ++ rest)))) :
    ∃ path s' offset', Leads m c path
        ⟨position, { f with stack := .handle (.provider provider) :: f.stack }, s⟩
        ⟨position + instructionCount (askMap imports host called) + 2,
          f.withMap host.mapLocal.toNat (.handle (.callMap id)), s'⟩ ∧
      s'.rules = { s.rules with publication } ∧
      c.Holds labels (position + instructionCount (askMap imports host called) + 2) offset' rest := by
  obtain ⟨s₁, offset₁, leads₁, like₁, ⟨element, trace, traced, array⟩, holds₁⟩ := (passes_askMap
    (f := { f with stack := .handle (.provider provider) :: f.stack }) (s := s) resolve nameable
    stands known few self (by simp; omega)).leads holds
  have same : (s₁.tick offset₁).rules = s.rules := by rw [MachineState.tick_rules, like₁.rules]
  -- The calls are in the array that was made last, and the trace is the last one captured.
  have published : Yields (m.intrinsic .getMap none [.handle (.provider provider), host.self f,
      .handle (.method (f.callee host.token caller)), .object s.store.objects.size,
      .handle (.stackTrace s.store.traces.size)]) (s₁.tick offset₁) (.handle (.callMap id))
      { s₁.tick offset₁ with rules := { (s₁.tick offset₁).rules with publication } } := by
    refine yields_callMapFor (host.self f) ?_ array traced ?_
    · rw [same]
      exact combines
    · rw [same]
      exact publishes
  have free : f.stack.length < f.maxStack := by omega
  have leads₂ := leads_intrinsic (f := f) resolve holds₁
    [.handle (.provider provider), host.self f, .handle (.method (f.callee host.token caller)),
      .object s.store.objects.size, .handle (.stackTrace s.store.traces.size)] rfl rfl free
    rfl rfl published rfl
  obtain ⟨s₃, offset₃, leads₃, like₃, -, holds₃⟩ := (passes_stloc (m := m)
    (f := { f with stack := .handle (.callMap id) :: f.stack }) rfl inside).leads (holds₁.tail rfl)
  refine ⟨_, s₃, offset₃, (leads₁.trans leads₂).trans leads₃, ?_, holds₃⟩
  rw [like₃.rules]
  show { (s₁.tick offset₁).rules with publication } = _
  rw [same]

end Parts

namespace Weave

variable {m : Machine} {imports : Imports} {token : Token} {d : MethodDef} {body woven : Body}
  {c : Code} {f : Frame} {s : MachineState} {caller : Method}

/-- There is room for the values of a scaffold on the stack of a woven method. -/
theorem scaffoldDepth_le (w : Weave m.module imports token d body woven)
    (loaded : Code.ofBody woven = .ok (some c)) (runs : f.Runs d c) : scaffoldDepth ≤ f.maxStack := by
  obtain ⟨-, -, -, maxStack⟩ := Code.ofBody_eq_ok_iff.mp loaded
  rw [runs.maxStack, maxStack, w.maxStack_eq, wovenStack, UInt16.toNat_ofNat', scaffoldDepth]
  omega

/-- The local variable for the call map holds nothing from the start. -/
theorem getElem?_locals_start (w : Weave m.module imports token d body woven)
    (loaded : Code.ofBody woven = .ok (some c)) (method : Method) (arguments : List Value) :
    (Frame.start method arguments c).locals[body.locals.length]? = some .null := by
  obtain ⟨-, -, locals, -⟩ := Code.ofBody_eq_ok_iff.mp loaded
  simp only [Frame.start, locals, w.locals_eq, List.map_append, List.map_cons,
    List.getElem?_toArray]
  rw [List.getElem?_append_right (by simp)]
  simp [Intrinsic.callMapType, Ty.instantiate, Value.default]

/-- With rules, the prologue leaves the published call map of the method in its local variable. -/
theorem leads_prologue (w : Weave m.module imports token d body woven) (calls : w.entries ≠ [])
    (loaded : Code.ofBody woven = .ok (some c)) (resolve : imports.Resolve m.module)
    (nameable : m.module.types.size ≤ Edit.rowLimit) (registered : s.rules.Registered)
    {owner : TypeDef} (owned : m.module.typeDefAt d.owner = .ok owner)
    (stands : m.module.methodAt token = .ok caller) (runs : f.Runs d c) (empty : f.stack = [])
    {id : Nat} {publication : Publication}
    (publishes : s.rules.publishFor m.module.hierarchy (f.callee token caller)
      (f.callees m.module w.called) = (.ok id, publication)) :
    ∃ path s', Leads m c path ⟨0, f, s⟩
      ⟨w.start 0, f.withMap body.locals.length (.handle (.callMap id)), s'⟩ ∧
      s'.rules = { s.rules.combined with publication } := by
  let host := hostOf token d body
  have room := w.scaffoldDepth_le loaded runs
  unfold scaffoldDepth at room
  have below : f.stack.length + 6 < f.maxStack := by
    rw [empty, List.length_nil]
    omega
  have mapLocal : host.mapLocal.toNat = body.locals.length := by
    simp only [host, hostOf, UInt16.toNat_ofNat', Nat.mod_eq_of_lt w.mapLocal_lt]
  have inside : host.mapLocal.toNat < f.locals.size := by
    obtain ⟨-, -, locals, -⟩ := Code.ofBody_eq_ok_iff.mp loaded
    rw [mapLocal, runs.locals, locals, w.locals_eq]
    simp
  let behind := [ListingItem.label noProviderLabel, .plain .pop]
  have opening : w.opening = loadOwner imports host ++ (imports.call .getProvider ::
      ([.plain .dup] ++ (.branch .brfalse noProviderLabel :: (askMap imports host w.called ++
        (imports.call .getMap :: ([.stloc host.mapLocal] ++ (.branch .br bodyLabel ::
          (behind ++ [.label bodyLabel])))))))) := by
    simp [Weave.opening, prologue, loadOwner, askMap, called, host, behind]
  have holds := w.holds loaded
  rw [Weave.items, ← Weave.opening, opening] at holds
  simp only [List.append_assoc, List.cons_append] at holds
  obtain ⟨path₁, s₁, offset₁, leads₁, rules₁, holds₁⟩ :=
    leads_provider resolve registered owned runs.self (by omega) holds
  -- The provider makes the call map, unless it was published before.
  have combines : s₁.rules.providers[s.rules.providers.size]? =
      some (.composite s₁.rules.binders) := by
    rw [rules₁]
    simp [Rules.combined]
  obtain ⟨path₂, s₂, offset₂, leads₂, rules₂, holds₂⟩ := leads_callMap resolve nameable stands
    w.exists_methodAt_of_called w.length_called_lt runs.self below inside combines
    (by rw [rules₁]; exact publishes) holds₁
  -- Control goes to the code of the first instruction.
  have target : c.Holds w.label? _ _ (behind ++ .label bodyLabel :: w.parts.flatten) :=
    holds₂.tail rfl
  obtain ⟨known, body'⟩ := target.right.label
  have found := body'.indexOf? (w.ordered loaded) (w.instructionCount_parts_pos calls)
  have leads₃ := leads_br (m := m) holds₂ known found
    (f.withMap host.mapLocal.toNat (.handle (.callMap id))) s₂
  have start : 0 + instructionCount (loadOwner imports host) + 3 +
      instructionCount (askMap imports host w.called) + 2 + 1 + instructionCount behind =
      w.start 0 := by
    rw [Weave.start, opening]
    simp [behind, ListingItem.isLabel, Imports.call]
    omega
  rw [← mapLocal, ← start]
  exact ⟨_, s₂.tick offset₂, (leads₁.trans leads₂).trans leads₃, by
    rw [MachineState.tick_rules, rules₂, rules₁]⟩

end Weave

end Interpose
