import Interpose.Proofs.Weaving.Scaffold

/-!
# Intercepted calls

Every call site of woven code does one of two things.  If the call map has no substitute for the
method that is called, control comes to the instruction that was there before, with the values of
the call back on the stack.  Otherwise the substitute is run once, with a context that tells all
about the call, and control comes behind the instruction.

## Main definitions

* `CallSite.context` — the context of a call
* `Store.withCall` — the store after the context was made
* `SiteLayout.Ready` — a frame in which the values of a call are on the stack
-/

namespace Interpose

section Runtime

variable {m : Machine} {s : MachineState} {id : Nat} {map : CallMap} {target : Method}

theorem yields_containsMapping (known : s.rules.publication.maps[id]? = some map) :
    Yields (Machine.containsMapping (some (.handle (.callMap id))) (.handle (.method target))) s
      (.bool (map.contains target)) s := by
  unfold Machine.containsMapping
  refine yields_bind.mpr ⟨(id, map), s, ?_, yields_pure.mpr ⟨rfl, rfl⟩⟩
  unfold Run.callMapOf
  rw [yields_get_bind, known]
  exact yields_pure.mpr ⟨rfl, rfl⟩

theorem yields_substituteFor {position : Nat} {entry : CallEntry}
    (known : s.rules.publication.maps[id]? = some map) (found : map.find? target = some position)
    (here : map.entries[position]? = some entry) :
    Yields (Machine.substituteFor (some (.handle (.callMap id))) (.handle (.method target))) s
      (.handle (.substitute id position entry.substitute.identity)) s := by
  unfold Machine.substituteFor
  refine yields_bind.mpr ⟨(id, map), s, ?_, ?_⟩
  · unfold Run.callMapOf
    rw [yields_get_bind, known]
    exact yields_pure.mpr ⟨rfl, rfl⟩
  · refine yields_bind.mpr ⟨target, s, yields_pure.mpr ⟨rfl, rfl⟩, ?_⟩
    rw [found]
    simp only [here]
    exact yields_pure.mpr ⟨rfl, rfl⟩

theorem yields_captureStackTrace (s : MachineState) :
    Yields Machine.captureStackTrace s (.handle (.stackTrace s.store.traces.size))
      { s with store := { s.store with traces := s.store.traces.push s.callStack } } := by
  unfold Machine.captureStackTrace
  rw [yields_get_bind]
  exact yields_act.mpr ⟨_, rfl, rfl⟩

theorem yields_newContext {context : CallContext} {trace ref : Nat}
    (traced : s.store.traces[trace]? = some context.stackTrace)
    (array : s.store.objects[ref]? = some (.array .object context.arguments.toArray)) :
    Yields (Machine.newContext context.target context.callingInstance
      (.handle (.method context.callingMethod)) (.handle (.method context.targetMethod))
      (.handle (.stackTrace trace)) (.object ref)) s (.handle (.context s.store.contexts.size))
      { s with store :=
        { s.store with contexts := s.store.contexts.push (context, s.store.callText context) } } := by
  unfold Machine.newContext
  refine yields_bind.mpr ⟨context.callingMethod, s, yields_pure.mpr ⟨rfl, rfl⟩, ?_⟩
  refine yields_bind.mpr ⟨context.targetMethod, s, yields_pure.mpr ⟨rfl, rfl⟩, ?_⟩
  refine yields_bind.mpr ⟨context.stackTrace, s, ?_, ?_⟩
  · unfold Run.traceOf
    rw [yields_get_bind, traced]
    exact yields_pure.mpr ⟨rfl, rfl⟩
  refine yields_bind.mpr ⟨context.arguments, s, ?_, yields_act.mpr ⟨_, rfl, rfl⟩⟩
  unfold Run.elementsOf
  refine yields_bind.mpr ⟨.array .object context.arguments.toArray, s, yields_act.mpr
    ⟨s.store, ?_, rfl⟩, yields_liftM_bind.mpr ⟨context.arguments, rfl, yields_pure.mpr ⟨rfl, rfl⟩⟩⟩
  unfold Act.object
  rw [yields_get_bind, array]
  exact yields_pure.mpr ⟨rfl, rfl⟩

end Runtime

/-- The context of a call in a frame.  `caller` is the method that is woven, and `called` the one
that the call site names; both are meant as they are in the frame. -/
def CallSite.context (site : CallSite) (m : Module) (host : Host) (caller called : Method)
    (f : Frame) (receiver : Option Value) (arguments : List Value) (stackTrace : StackTrace) :
    CallContext where
  target :=
    match receiver with
    | some value => f.wrap m site.target.declaringType value
    | none => .null
  callingInstance := host.self f
  callingMethod := f.callee host.token caller
  targetMethod := f.callee site.token called
  stackTrace
  arguments := List.zipWith (f.passOn m) site.target.parameters arguments

/-- The store after the context of a call was made. -/
def Store.withCall (s : Store) (context : CallContext) : Store :=
  let made : Store :=
    { s with
      traces := s.traces.push context.stackTrace
      objects := s.objects.push (.array .object context.arguments.toArray) }
  { made with contexts := made.contexts.push (context, made.callText context) }

theorem Store.contexts_withCall (s : Store) (context : CallContext) : ∃ text,
    (s.withCall context).contexts[s.contexts.size]? = some (context, text) := by
  simp [Store.withCall]

/-- What the scaffold of a call site refers to is what it is meant to be. -/
structure SiteLayout.Sound (m : Module) (imports : Imports) (host : Host) (caller called : Method)
    (site : CallSite) (s : SiteLayout) : Prop where
  resolve : imports.Resolve m
  reserved : ∃ first, host.mapLocal.toNat < first ∧ s.Reserved first site
  caller_eq : m.methodAt host.token = .ok caller
  called_eq : m.methodAt site.token = .ok called

/-- The values of a call are in the local variables of its call site, and there is room for what a
scaffold needs. -/
structure SiteLayout.Spilled (s : SiteLayout) (host : Host) (f : Frame) (receiver : Option Value)
    (arguments : List Value) : Prop where
  receiver_holds : f.HoldsIn s.receiver.toList receiver.toList
  arguments_hold : f.HoldsIn s.arguments arguments
  self : host.hasThis = true → 0 < f.arguments.size
  room : f.stack.length + scaffoldDepth ≤ f.maxStack

section Context

variable {m : Machine} {imports : Imports} {host : Host} {caller called : Method} {site : CallSite}
  {layout : SiteLayout} {f : Frame} {s : MachineState} {receiver : Option Value}
  {arguments : List Value}

theorem passes_loadTarget (sound : layout.Sound m.module imports host caller called site)
    (named : layout.Named m.module) (spilled : layout.Spilled host f receiver arguments) {stack : List Value}
    (room : stack.length < f.maxStack) :
    Passes m layout.loadTarget { f with stack } s
      { f with stack := (site.context m.module host caller called f receiver arguments []).target ::
        stack } (· = s.store) := by
  obtain ⟨first, -, reserved⟩ := sound.reserved
  unfold SiteLayout.loadTarget CallSite.context
  have holds := spilled.receiver_holds
  have types := reserved.receiver_types
  have boxes := named.boxes
  unfold SiteLayout.slots at boxes
  cases present : layout.receiver with
  | none =>
    rw [present] at holds
    cases receiver with
    | none => exact passes_ldnull room
    | some value => cases holds
  | some slot =>
    rw [present] at holds types boxes
    cases receiver with
    | none => cases holds
    | some value =>
      obtain ⟨known, -⟩ := List.forall₂_cons.mp holds
      -- The slot of a receiver holds values of the type that declares the called method.
      have declared : slot.type = site.target.declaringType := by
        split at types
        case isTrue => exact (List.cons.inj types).1
        case isFalse => cases types
      rw [← declared]
      exact passes_loadObject (boxes slot (by simp)) known room

private theorem loads_of_holdsIn {slots : List Slot} {values : List Value}
    (boxes : ∀ slot ∈ slots, slot.Boxes m.module) (holds : f.HoldsIn slots values) :
    List.Forall₂ (Loads m f) (slots.map Slot.loadArgument)
      (List.zipWith (f.passOn m.module) (slots.map Slot.type) values) := by
  unfold Frame.HoldsIn at holds
  induction holds with
  | nil => exact .nil
  | @cons slot value slots values known holds ih =>
    obtain ⟨first, others⟩ := List.forall_mem_cons.mp boxes
    exact .cons (fun stack s room => passes_loadArgument first known room) (ih others)

/-- The arguments of a call become the elements of an array. -/
theorem passes_loadArguments (sound : layout.Sound m.module imports host caller called site)
    (named : layout.Named m.module) (spilled : layout.Spilled host f receiver arguments)
    (small : layout.arguments.length < 0x80000000)
    {stack : List Value} (room : stack.length + 3 < f.maxStack) :
    Passes m (makeArray imports.object (layout.arguments.map Slot.loadArgument))
      { f with stack } s { f with stack := .object s.store.objects.size :: stack }
      (· = { s.store with objects := s.store.objects.push (.array .object
        (site.context m.module host caller called f receiver arguments []).arguments.toArray) }) := by
  obtain ⟨first, -, reserved⟩ := sound.reserved
  have boxes : ∀ slot ∈ layout.arguments, slot.Boxes m.module := fun slot member =>
    named.boxes slot (List.mem_append_right _ member)
  have loads := loads_of_holdsIn boxes spilled.arguments_hold
  rw [reserved.argument_types] at loads
  exact passes_makeArray sound.resolve.object loads (by simpa using small) room

/-- The context of a call is made.  Its stack trace names the methods that are running. -/
theorem passes_makeContext (sound : layout.Sound m.module imports host caller called site)
    (named : layout.Named m.module) (spilled : layout.Spilled host f receiver arguments)
    (small : layout.arguments.length < 0x80000000)
    (stack : List Value) (room : stack.length + 8 < f.maxStack) :
    Passes m (layout.makeContext imports host) { f with stack } s
      { f with stack := .handle (.context s.store.contexts.size) :: stack }
      (fun store => ∃ trace, trace.map TraceEntry.method = s.callStack.map TraceEntry.method ∧
        store = s.store.withCall
          (site.context m.module host caller called f receiver arguments trace)) := by
  obtain ⟨first, -, reserved⟩ := sound.reserved
  let context (trace : StackTrace) : CallContext :=
    site.context m.module host caller called f receiver arguments trace
  unfold SiteLayout.makeContext
  rw [reserved.site_eq]
  simp only [List.append_assoc]
  refine (passes_loadTarget sound named spilled (by omega)).append fun s₁ like₁ store₁ => ?_
  refine (passes_loadSelf (f := { f with stack := _ :: stack }) spilled.self
    (by simp; omega)).append fun s₂ like₂ store₂ => ?_
  refine (passes_quoteMethod sound.resolve sound.caller_eq (by simp; omega)).append
    fun s₃ like₃ store₃ => ?_
  refine (passes_quoteMethod sound.resolve sound.called_eq (by simp; omega)).append
    fun s₄ like₄ store₄ => ?_
  have store : s₄.store = s.store := by rw [store₄, store₃, store₂, store₁]
  have like : s.Like s₄ := ((like₁.trans like₂).trans like₃).trans like₄
  let Traced (store : Store) : Prop :=
    ∃ trace, trace.map TraceEntry.method = s.callStack.map TraceEntry.method ∧
      store = { s.store with traces := s.store.traces.push trace }
  have captures (s₅ : MachineState) (like₅ : s₄.Like s₅) (store₅ : s₅.store = s₄.store) : ∃ s',
      Yields (m.intrinsic .captureStackTrace none []) s₅
        (.handle (.stackTrace s.store.traces.size)) s' ∧ s'.executed = s₅.executed ∧ s₅.Like s' ∧
      Traced s'.store := by
    -- The trace has the offset at which it is taken, so only its methods are known beforehand.
    rw [← store, ← store₅]
    exact ⟨_, yields_captureStackTrace s₅, rfl, ⟨rfl, rfl, rfl⟩, s₅.callStack,
      (like.trans like₅).callStack, by rw [← store, ← store₅]⟩
  refine (passes_intrinsic (Q := Traced) sound.resolve .captureStackTrace (.inl rfl) none [] rfl rfl
    rfl (by simp; omega) rfl rfl captures).append fun s₅ like₅ traced => ?_
  obtain ⟨trace, same, store₅⟩ := traced
  refine (passes_loadArguments sound named spilled small (by simp; omega)).append fun s₆ like₆ store₆ => ?_
  have arguments : s₆.store.objects[s₅.store.objects.size]? =
      some (.array .object (context trace).arguments.toArray) := by
    rw [store₆]
    simp [context, CallSite.context]
  have traces : s₆.store.traces[s.store.traces.size]? = some (context trace).stackTrace := by
    rw [store₆, store₅]
    simp [context, CallSite.context]
  refine passes_newContext sound.resolve [(context trace).target, host.self f,
    .handle (.method (f.callee host.token caller)), .handle (.method (f.callee site.token called)),
    .handle (.stackTrace s.store.traces.size), .object s₅.store.objects.size] rfl rfl
    (by simp; omega) fun s₇ like₇ store₇ => ?_
  rw [← store₇] at arguments traces
  have contexts : s.store.contexts.size = s₇.store.contexts.size := by
    rw [store₇, store₆, store₅]
  rw [contexts]
  refine ⟨_, yields_newContext traces arguments, rfl, ⟨rfl, rfl, rfl⟩, trace, same, ?_⟩
  simp only [store₇, store₆, store₅]
  rfl

end Context

/-- The values of a call are on the stack, over others that stay there, and there is room for what
a scaffold needs. -/
structure SiteLayout.Ready (s : SiteLayout) (host : Host) (f : Frame) (receiver : Option Value)
    (arguments rest : List Value) : Prop where
  stack : f.stack = arguments.reverse ++ (receiver.toList ++ rest)
  receiver_arity : s.receiver.isSome = receiver.isSome
  arguments_arity : s.arguments.length = arguments.length
  inside : ∀ slot ∈ s.slots, slot.number.toNat < f.locals.size
  self : host.hasThis = true → 0 < f.arguments.size
  room : rest.length + scaffoldDepth ≤ f.maxStack
  fits : f.stack.length ≤ f.maxStack

/-- There are as many local variables for the values of a call as there are values. -/
theorem SiteLayout.Ready.length_slots {s : SiteLayout} {host : Host} {f : Frame}
    {receiver : Option Value} {arguments rest : List Value}
    (ready : s.Ready host f receiver arguments rest) :
    s.slots.length = receiver.toList.length + arguments.length := by
  have same : s.receiver.toList.length = receiver.toList.length := by
    have present := ready.receiver_arity
    revert present
    cases s.receiver <;> cases receiver <;> simp
  rw [SiteLayout.slots, List.length_append, same, ready.arguments_arity]

/-- A frame differs from another one in local variables behind a number only. -/
def Frame.SameBelow (limit : Nat) (f f' : Frame) : Prop :=
  f' = { f with locals := f'.locals } ∧ f'.locals.size = f.locals.size ∧
    ∀ k < limit, f'.locals[k]? = f.locals[k]?

theorem Frame.SameBelow.mono {limit limit' : Nat} {f f' : Frame} (h : f.SameBelow limit f')
    (lower : limit' ≤ limit) : f.SameBelow limit' f' :=
  ⟨h.1, h.2.1, fun k below => h.2.2 k (Nat.lt_of_lt_of_le below lower)⟩

namespace SiteLayout

variable {m : Machine} {host : Host} {layout : SiteLayout} {site : CallSite} {f : Frame}
  {receiver : Option Value} {arguments rest : List Value} {first : Nat}

private theorem holdsIn_split {f : Frame} {receiverSlot : Option Slot} {slots : List Slot}
    {values : List Value} (arity : receiverSlot.isSome = receiver.isSome)
    (holds : f.HoldsIn (receiverSlot.toList ++ slots) (receiver.toList ++ values)) :
    f.HoldsIn receiverSlot.toList receiver.toList ∧ f.HoldsIn slots values := by
  cases receiverSlot with
  | none =>
    cases receiver with
    | none => exact ⟨.nil, holds⟩
    | some value => cases arity
  | some slot =>
    cases receiver with
    | none => cases arity
    | some value =>
      obtain ⟨known, holds⟩ := List.forall₂_cons.mp holds
      exact ⟨.cons known .nil, holds⟩

theorem spills_eq (layout : SiteLayout) : layout.spills = layout.slots.reverse.map Slot.spill := by
  rw [spills, slots, List.reverse_append, List.map_append]
  cases layout.receiver <;> rfl

theorem reloads_eq (layout : SiteLayout) : layout.reloads = layout.slots.map Slot.reload := by
  rw [reloads, slots, List.map_append]

/-- The values of a call are moved to the local variables that were reserved for them. -/
theorem passes_spills (reserved : layout.Reserved first site)
    (ready : layout.Ready host f receiver arguments rest) : ∃ locals,
      (∀ s, Passes m layout.spills f s { f with stack := rest, locals } (· = s.store)) ∧
      layout.Spilled host { f with stack := rest, locals } receiver arguments ∧
      Frame.SameBelow first { f with stack := rest } { f with stack := rest, locals } := by
  have numbers := reserved.numbers
  have distinct : (layout.slots.reverse.map (·.number.toNat)).Nodup := by
    rw [List.map_reverse, numbers]
    exact List.pairwise_reverse.mpr ((List.nodup_range' 1).imp Ne.symm)
  have arity : layout.slots.reverse.length = (receiver.toList ++ arguments).reverse.length := by
    rw [List.length_reverse, List.length_reverse, List.length_append, ready.length_slots]
  have stack : f.stack = (receiver.toList ++ arguments).reverse ++ rest := by
    rw [ready.stack]
    cases receiver <;> simp
  obtain ⟨locals, passes, holds, size, below⟩ := passes_spill (m := m) distinct
    (fun slot member => ready.inside slot (List.mem_reverse.mp member)) arity stack
  have kept := List.forall₂_reverse_iff.mp holds
  obtain ⟨own, others⟩ := holdsIn_split ready.receiver_arity kept
  refine ⟨locals, ?_, ⟨own, others, ready.self, ready.room⟩, rfl, size, fun k lower => below k ?_⟩
  · rw [spills_eq]
    exact passes
  · rw [List.map_reverse, List.mem_reverse, numbers, List.mem_range']
    omega

/-- The values of a call are put back on the stack. -/
theorem passes_reloads {f : Frame} (spilled : layout.Spilled host f receiver arguments)
    (fits : f.stack.length + layout.slots.length ≤ f.maxStack) (s : MachineState) :
    Passes m layout.reloads f s
      { f with stack := arguments.reverse ++ (receiver.toList ++ f.stack) } (· = s.store) := by
  have holds : f.HoldsIn layout.slots (receiver.toList ++ arguments) :=
    List.rel_append spilled.receiver_holds spilled.arguments_hold
  have passes := passes_reload (m := m) (s := s) holds fits
  have stack : (receiver.toList ++ arguments).reverse ++ f.stack =
      arguments.reverse ++ (receiver.toList ++ f.stack) := by
    cases receiver <;> simp
  rw [reloads_eq, ← stack]
  exact passes

section Places

variable (imports : Imports) (host : Host) (s : SiteLayout)

/-- The code that makes the context of a call and finds its substitute. -/
def preparation : List ListingItem :=
  [.ldloc host.mapLocal] ++ imports.quoteMethod s.site.token ++ [imports.callOn .getSubstitute] ++
    s.makeContext imports host

/-- The instruction that runs the substitute, counted from the beginning of a scaffold. -/
def invokeIndex : Nat :=
  instructionCount (s.spills ++ s.choice imports host ++ s.preparation imports host)

/-- The first instruction of the fallback, counted from the beginning of a scaffold. -/
def fallbackIndex : Nat :=
  instructionCount (s.spills ++ s.choice imports host ++ s.substitution imports host)

/-- The instruction that was there before, counted from the beginning of a scaffold. -/
def originalIndex : Nat := s.fallbackIndex imports host + instructionCount s.reloads

/-- A scaffold is found at a position of code, with an instruction somewhere behind it. -/
structure IsAt (c : Code) (position : Nat) (labels : String → Option Nat) (offset : Nat)
    (rest : List ListingItem) : Prop where
  ordered : c.Ordered
  continues : 0 < instructionCount rest
  holds : c.Holds labels position offset (s.listing imports host ++ rest)

end Places

section Parts

variable {imports : Imports} {host : Host} {s : SiteLayout} {c : Code} {position offset : Nat}
  {labels : String → Option Nat} {rest : List ListingItem}

theorem invokeIndex_eq (imports : Imports) (host : Host) (s : SiteLayout) :
    s.invokeIndex imports host = instructionCount s.spills +
      instructionCount (s.choice imports host) + instructionCount (s.preparation imports host) := by
  rw [invokeIndex, instructionCount_append, instructionCount_append]

theorem invokeIndex_lt_fallbackIndex (imports : Imports) (host : Host) (s : SiteLayout) :
    s.invokeIndex imports host + 2 < s.fallbackIndex imports host := by
  have label : s.takeResult.isLabel = false := by
    unfold takeResult
    cases s.result <;> rfl
  simp only [invokeIndex, fallbackIndex, substitution, preparation, instructionCount_append,
    instructionCount_cons, instructionCount_nil, label]
  simp [ListingItem.isLabel, Imports.callOn]
  omega

theorem IsAt.fallback (h : s.IsAt imports host c position labels offset rest) : ∃ target,
    labels s.fallbackLabel = some target ∧
      c.indexOf? target = some (position + s.fallbackIndex imports host) ∧
      c.Holds labels (position + s.fallbackIndex imports host) target
        (s.reloads ++ ([.decoded s.site.instruction, .label s.doneLabel] ++ rest)) := by
  have holds := h.holds
  rw [listing] at holds
  simp only [List.append_assoc] at holds
  rw [← List.append_assoc, ← List.append_assoc] at holds
  have behind := holds.right
  obtain ⟨named, behind⟩ := behind.label
  have original : 0 < instructionCount [.decoded s.site.instruction, .label s.doneLabel] :=
    Nat.one_pos
  have some : 0 < instructionCount
      (s.reloads ++ ([.decoded s.site.instruction, .label s.doneLabel] ++ rest)) := by
    rw [instructionCount_append, instructionCount_append]
    omega
  exact ⟨_, named, behind.indexOf? h.ordered some, behind⟩

theorem IsAt.original (h : s.IsAt imports host c position labels offset rest) : ∃ target,
    c.Holds labels (position + s.originalIndex imports host) target
      ([.decoded s.site.instruction, .label s.doneLabel] ++ rest) := by
  obtain ⟨target, -, -, behind⟩ := h.fallback
  rw [originalIndex, ← Nat.add_assoc]
  exact ⟨_, behind.right⟩

theorem IsAt.done (h : s.IsAt imports host c position labels offset rest) : ∃ target,
    labels s.doneLabel = some target ∧
      c.indexOf? target = some (position + s.originalIndex imports host + 1) := by
  obtain ⟨target, behind⟩ := h.original
  have behind := behind.tail rfl
  obtain ⟨named, behind⟩ := behind.label
  exact ⟨_, named, behind.indexOf? h.ordered h.continues⟩

/-- A path through a scaffold that neither runs the substitute nor the instruction that was there
before. -/
def Skirts (imports : Imports) (host : Host) (s : SiteLayout) (position : Nat) (path : List Nat) :
    Prop :=
  ∀ x ∈ path, position ≤ x ∧ x < position + s.originalIndex imports host ∧
    x ≠ position + s.invokeIndex imports host

end Parts

end SiteLayout

/-- What the local variable for the call map may hold: nothing, or a call map that was published. -/
inductive Rules.MapHeld (r : Rules) : Value → Option CallMap → Prop
  | none : r.MapHeld .null none
  | some {id : Nat} {map : CallMap} : r.publication.maps[id]? = .some map →
      r.MapHeld (.handle (.callMap id)) (some map)

/-- What a substitute returns, as the object that it is to running code. -/
def Value.returned (result : Value) : Value :=
  match result with
  | .void => .null
  | result => result.toObject

/-- What a substitute returned, as the result of a call: nothing if the call has none, and otherwise
a value of the type of the result. -/
def CallSite.Returns (site : CallSite) (m : Module) (f : Frame) (s : Store) (value : Value)
    (results : List Value) : Prop :=
  if site.resultType = .void then results = [] else ∃ result,
    Yields (value.extractAs (f.close (m.namedType site.resultType)) m.hierarchy) s result s ∧
      results = [result]

section Invoke

variable {m : Machine} {imports : Imports} {f : Frame} {s : MachineState} {rest : List Value}
  {id place number : Nat} {identity : SubstituteId} {map : CallMap} {entry : CallEntry}
  {context : CallContext} {text : String}

/-- Running a substitute is running it on the context, and nothing else. -/
theorem invokeSubstitute_eq (identity : SubstituteId) (known : s.rules.publication.maps[id]? = some map)
    (here : map.entries[place]? = some entry)
    (made : s.store.contexts[number]? = some (context, text)) :
    (Machine.invokeSubstitute (some (.handle (.substitute id place identity)))
      (.handle (.context number))).run.run s =
    (Value.returned <$> Run.act (entry.substitute.invoke context)).run.run s := by
  have found : Yields (Machine.entryOf (some (.handle (.substitute id place identity)))) s entry s := by
    unfold Machine.entryOf
    rw [yields_get_bind, known]
    simp only [Option.bind_some, here]
    exact yields_pure.mpr ⟨rfl, rfl⟩
  have taken : Yields (Machine.contextOf (.handle (.context number))) s context s := by
    unfold Machine.contextOf
    rw [yields_get_bind, made]
    exact yields_pure.mpr ⟨rfl, rfl⟩
  unfold Machine.invokeSubstitute
  rw [found.run_bind, taken.run_bind, map_eq_pure_bind]
  refine congrArg (fun rest : Value → Run Value =>
    (Run.act (entry.substitute.invoke context) >>= rest).run.run s) (funext fun result => ?_)
  cases result <;> rfl

/-- The instruction that runs a substitute runs it on the context, once, and puts what it returns
on the stack. -/
theorem step_invoke (resolve : imports.Resolve m.module)
    (known : s.rules.publication.maps[id]? = some map) (here : map.entries[place]? = some entry)
    (made : s.store.contexts[number]? = some (context, text)) (execute : Executor) (offset : Nat) :
    ((m.step execute ⟨offset, .callvirt, .token (imports.intrinsic .invoke)⟩).run
      { f with stack := .handle (.context number) ::
          .handle (.substitute id place identity) :: rest }).run.run s =
    ((do
      let result ← Step.act (entry.substitute.invoke context)
      Step.push result.returned
      return Control.next : Step Control).run { f with stack := rest }).run.run s := by
  let g : Frame := { f with stack := rest }
  have called := run_call_intrinsic (m := m) (s := s)
    (f := { f with
      stack := .handle (.context number) :: .handle (.substitute id place identity) :: rest })
    resolve .invoke (some (.handle (.substitute id place identity))) [.handle (.context number)] rfl
    rfl rfl execute offset .callvirt true
  have invoked : ((liftM (m.intrinsic .invoke (some (.handle (.substitute id place identity)))
      [.handle (.context number)]) : Step Value).run g).run.run s =
      ((liftM (Value.returned <$> Run.act (entry.substitute.invoke context)) : Step Value).run
        g).run.run s := run_bind_congr (invokeSubstitute_eq identity known here made)
  have same : (((liftM (Value.returned <$> Run.act (entry.substitute.invoke context)) : Step Value) >>=
      Step.push) >>= fun _ => pure Control.next) = (do
        let result ← Step.act (entry.substitute.invoke context)
        Step.push result.returned
        return Control.next) := by
    rw [bind_assoc, liftM_map, bind_map_left]
    rfl
  exact (run_bind_congr (called.trans (run_bind_congr invoked))).trans
    (congrArg (fun x : Step Control => (x.run g).run.run s) same)

end Invoke

namespace SiteLayout

section Choice

variable {m : Machine} {imports : Imports} {host : Host} {caller called : Method} {site : CallSite}
  {layout : SiteLayout} {c : Code} {position offset start : Nat} {labels : String → Option Nat}
  {tail items : List ListingItem} {f : Frame} {s : MachineState} {value : Value}

/-- The call map is asked something about the method that is called. -/
private theorem passes_query (sound : layout.Sound m.module imports host caller called site)
    {id : Nat} (held : f.locals[host.mapLocal.toNat]? = some (.handle (.callMap id)))
    (room : f.stack.length + 1 < f.maxStack) (i : Intrinsic) (answer : Value)
    (arity : i.method.parameters.length = 1) (this : i.method.hasThis = true)
    (returns : (i.method.returnType ≠ .void && !i.method.isConstructor) = true)
    (adapts : answer.adaptTo i.method.returnType = answer)
    (answers : ∀ s', s.Like s' → Yields (m.intrinsic i (some (.handle (.callMap id)))
      [.handle (.method (f.callee site.token called))]) s' answer s') :
    Passes m ([.ldloc host.mapLocal] ++ imports.quoteMethod site.token ++ [imports.callOn i]) f s
      { f with stack := answer :: f.stack } (· = s.store) := by
  rw [List.append_assoc]
  refine (passes_ldloc held (by omega)).append fun s₁ like₁ store₁ => ?_
  refine (passes_quoteMethod sound.resolve sound.called_eq (by simpa using room)).append
    fun s₂ like₂ store₂ => ?_
  refine passes_intrinsic sound.resolve i (.inr rfl) (some (.handle (.callMap id)))
    [.handle (.method (f.callee site.token called))] rfl arity.symm this.symm (by simp; omega)
    returns adapts fun s₃ like₃ store₃ => ?_
  exact ⟨s₃, answers s₃ ((like₁.trans like₂).trans like₃), rfl, .refl s₃,
    by rw [store₃, store₂, store₁]⟩

/-- The call map is asked for a substitute. -/
theorem passes_containsMapping (sound : layout.Sound m.module imports host caller called site)
    {id : Nat} {map : CallMap} (known : s.rules.publication.maps[id]? = some map)
    (held : f.locals[host.mapLocal.toNat]? = some (.handle (.callMap id)))
    (room : f.stack.length + 1 < f.maxStack) :
    Passes m ([.ldloc host.mapLocal] ++ imports.quoteMethod site.token ++
        [imports.callOn .containsMapping]) f s
      { f with stack := .bool (map.contains (f.callee site.token called)) :: f.stack }
      (· = s.store) :=
  passes_query sound held room .containsMapping _ rfl rfl rfl rfl fun s' like =>
    yields_containsMapping (by rw [like.rules]; exact known)

/-- The call map is asked for the substitute. -/
theorem passes_getSubstitute (sound : layout.Sound m.module imports host caller called site)
    {id place : Nat} {map : CallMap} {entry : CallEntry}
    (known : s.rules.publication.maps[id]? = some map)
    (found : map.find? (f.callee site.token called) = some place)
    (here : map.entries[place]? = some entry)
    (held : f.locals[host.mapLocal.toNat]? = some (.handle (.callMap id)))
    (room : f.stack.length + 1 < f.maxStack) :
    Passes m ([.ldloc host.mapLocal] ++ imports.quoteMethod site.token ++
        [imports.callOn .getSubstitute]) f s
      { f with stack := .handle (.substitute id place entry.substitute.identity) :: f.stack }
      (· = s.store) :=
  passes_query sound held room .getSubstitute _ rfl rfl rfl rfl fun s' like =>
    yields_substituteFor (by rw [like.rules]; exact known) found here

theorem choice_eq (reserved : layout.site = site) : layout.choice imports host =
    [.ldloc host.mapLocal] ++ ([.branch .brfalse layout.fallbackLabel] ++
      ([.ldloc host.mapLocal] ++ imports.quoteMethod site.token ++ [imports.callOn .containsMapping] ++
        [.branch .brfalse layout.fallbackLabel])) := by
  rw [choice, reserved]
  simp

/-- If there is a call map, control comes to the second branch of the choice with the answer of the
map on the stack. -/
private theorem leads_question (sound : layout.Sound m.module imports host caller called site)
    (holds : c.Holds labels start offset (layout.choice imports host ++ items))
    {id : Nat} {map : CallMap} (known : s.rules.publication.maps[id]? = some map)
    (held : f.locals[host.mapLocal.toNat]? = some (.handle (.callMap id)))
    (room : f.stack.length + 1 < f.maxStack) : ∃ s' offset',
      Leads m c (List.range' start 6) ⟨start, f, s⟩ ⟨start + 6,
        { f with stack := .bool (map.contains (f.callee site.token called)) :: f.stack }, s'⟩ ∧
      s.Like s' ∧ s'.store = s.store ∧ c.Holds labels (start + 6) offset'
        ([.branch .brfalse layout.fallbackLabel] ++ items) := by
  obtain ⟨first, -, reserved⟩ := sound.reserved
  rw [choice_eq reserved.site_eq, List.append_assoc, List.append_assoc, List.append_assoc] at holds
  obtain ⟨s₁, offset₁, leads₁, like₁, store₁, holds₁⟩ :=
    (passes_ldloc held (by omega)).leads holds
  have leads₂ := leads_past_brfalse (m := m) holds₁ f f.stack
    (rfl : (Value.handle (.callMap id)).takesBranch = true) s₁
  have holds₂ := holds₁.tail rfl
  have known₂ : (s₁.tick offset₁).rules.publication.maps[id]? = some map := by
    rw [MachineState.tick_rules, like₁.rules]
    exact known
  obtain ⟨s₃, offset₃, leads₃, like₃, store₃, holds₃⟩ :=
    (passes_containsMapping sound known₂ held room).leads holds₂
  refine ⟨s₃, offset₃, (leads₁.trans leads₂).trans leads₃,
    (like₁.trans (.tick s₁ offset₁)).trans like₃, ?_, holds₃⟩
  rw [store₃, MachineState.tick_store, store₁]

/-- Without a substitute control goes from the choice to the fallback. -/
theorem leads_choice_fallback (sound : layout.Sound m.module imports host caller called site)
    (placed : layout.IsAt imports host c position labels offset tail)
    {offset₁ : Nat} (holds : c.Holds labels start offset₁ (layout.choice imports host ++ items))
    {map : Option CallMap} (content : s.rules.MapHeld value map)
    (held : f.locals[host.mapLocal.toNat]? = some value)
    (unmapped : map.bind (·.substitute? (f.callee site.token called)) = none)
    (room : f.stack.length + 1 < f.maxStack) : ∃ path s',
      Leads m c path ⟨start, f, s⟩ ⟨position + layout.fallbackIndex imports host, f, s'⟩ ∧
      (∀ x ∈ path, start ≤ x ∧ x < start + instructionCount (layout.choice imports host)) ∧
      s.Like s' ∧ s'.store = s.store := by
  obtain ⟨first, -, reserved⟩ := sound.reserved
  obtain ⟨target, named, found, -⟩ := placed.fallback
  have length : instructionCount (layout.choice imports host) = 7 := by
    rw [choice_eq reserved.site_eq]
    rfl
  -- There is no map at all, or there is one and it does not have the method.
  cases content with
  | none =>
    rw [choice_eq reserved.site_eq, List.append_assoc, List.append_assoc] at holds
    obtain ⟨s₁, offset₁, leads₁, like₁, store₁, holds₁⟩ :=
      (passes_ldloc held (by omega)).leads holds
    have leads₂ := leads_brfalse (m := m) holds₁ named found f f.stack
      (rfl : Value.null.takesBranch = false) s₁
    refine ⟨_, _, leads₁.trans leads₂, fun x member => ?_, like₁.trans (.tick s₁ offset₁), store₁⟩
    simp [instructionCount, ListingItem.isLabel] at member
    omega
  | @some id map known =>
    obtain ⟨s₁, offset₁, leads₁, like₁, store₁, holds₁⟩ :=
      leads_question sound holds known held room
    have answer : map.contains (f.callee site.token called) = false := by
      rw [CallMap.contains, Option.isSome_eq_false_iff, Option.isNone_iff_eq_none]
      exact unmapped
    rw [answer] at leads₁
    have leads₂ := leads_brfalse (m := m) holds₁ named found f f.stack
      (rfl : (Value.bool false).takesBranch = false) s₁
    refine ⟨_, _, leads₁.trans leads₂, fun x member => ?_, like₁.trans (.tick s₁ offset₁), store₁⟩
    rw [List.mem_append, List.mem_range'_1, List.mem_singleton] at member
    omega

/-- With a substitute control goes behind the choice. -/
theorem leads_choice_past (sound : layout.Sound m.module imports host caller called site)
    (holds : c.Holds labels start offset (layout.choice imports host ++ items))
    {id : Nat} {map : CallMap} (known : s.rules.publication.maps[id]? = some map)
    (held : f.locals[host.mapLocal.toNat]? = some (.handle (.callMap id)))
    (mapped : map.contains (f.callee site.token called) = true)
    (room : f.stack.length + 1 < f.maxStack) : ∃ s' offset',
      Leads m c (List.range' start (instructionCount (layout.choice imports host))) ⟨start, f, s⟩
        ⟨start + instructionCount (layout.choice imports host), f, s'⟩ ∧
      s.Like s' ∧ s'.store = s.store ∧
      c.Holds labels (start + instructionCount (layout.choice imports host)) offset' items := by
  obtain ⟨first, -, reserved⟩ := sound.reserved
  have length : instructionCount (layout.choice imports host) = 7 := by
    rw [choice_eq reserved.site_eq]
    rfl
  obtain ⟨s₁, offset₁, leads₁, like₁, store₁, holds₁⟩ := leads_question sound holds known held room
  rw [mapped] at leads₁
  have leads₂ := leads_past_brfalse (m := m) holds₁ f f.stack
    (rfl : (Value.bool true).takesBranch = true) s₁
  rw [length]
  exact ⟨_, _, leads₁.trans leads₂, like₁.trans (.tick s₁ offset₁), store₁, holds₁.tail rfl⟩

end Choice

section Site

variable {m : Machine} {imports : Imports} {host : Host} {caller called : Method} {site : CallSite}
  {layout : SiteLayout} {c : Code} {position offset start offset₁ first : Nat}
  {labels : String → Option Nat} {tail : List ListingItem} {f : Frame} {s : MachineState}
  {value : Value} {receiver : Option Value} {arguments rest : List Value}

/-- The parts of a scaffold in front of the fallback. -/
theorem IsAt.front (placed : layout.IsAt imports host c position labels offset tail) :
    c.Holds labels position offset (layout.spills ++ (layout.choice imports host ++
      (layout.preparation imports host ++ ([imports.callOn .invoke, layout.takeResult,
        .branch .br layout.doneLabel] ++ ([.label layout.fallbackLabel] ++ (layout.reloads ++
          ([.decoded layout.site.instruction, .label layout.doneLabel] ++ tail))))))) := by
  have holds := placed.holds
  simp only [listing, substitution, List.append_assoc] at holds
  simpa only [preparation, List.append_assoc] using holds

/-- The instruction that runs a substitute, with the instructions behind it. -/
theorem IsAt.invoke (placed : layout.IsAt imports host c position labels offset tail) : ∃ offset',
    c.Holds labels (position + layout.invokeIndex imports host) offset' ([imports.callOn .invoke,
      layout.takeResult, .branch .br layout.doneLabel] ++ ([.label layout.fallbackLabel] ++
        (layout.reloads ++ ([.decoded layout.site.instruction, .label layout.doneLabel] ++ tail)))) := by
  have holds := placed.front
  rw [← List.append_assoc, ← List.append_assoc] at holds
  exact ⟨_, holds.right⟩

/-- Without a substitute control comes to the instruction that was there before, and the values of
the call are back on the stack. -/
theorem leads_to_original (sound : layout.Sound m.module imports host caller called site)
    (placed : layout.IsAt imports host c position labels offset tail)
    (reserved : layout.Reserved first site) (mapFirst : host.mapLocal.toNat < first)
    (ready : layout.Ready host f receiver arguments rest) {map : Option CallMap}
    (content : s.rules.MapHeld value map) (held : f.locals[host.mapLocal.toNat]? = some value)
    (unmapped : map.bind (·.substitute? (f.callee site.token called)) = none) : ∃ path f' s',
      Leads m c path ⟨position, f, s⟩ ⟨position + layout.originalIndex imports host, f', s'⟩ ∧
      layout.Skirts imports host position path ∧ f.SameBelow first f' ∧ s.Like s' ∧
      s'.store = s.store := by
  have room := ready.room
  unfold scaffoldDepth at room
  obtain ⟨locals, passes, spilled, -, size, below⟩ := passes_spills (m := m) reserved ready
  obtain ⟨s₁, offset₁, leads₁, like₁, store₁, holds₁⟩ := (passes s).leads placed.front
  -- The values of the call are in local variables now.  The choice leads to the fallback, which loads
  -- them again.
  have content₁ : s₁.rules.MapHeld value map := by
    rw [like₁.rules]
    exact content
  have held₁ : locals[host.mapLocal.toNat]? = some value := (below _ mapFirst).trans held
  obtain ⟨path, s₂, leads₂, inside, like₂, store₂⟩ :=
    leads_choice_fallback (f := { f with stack := rest, locals }) sound placed holds₁ content₁ held₁
      unmapped (by simp; omega)
  obtain ⟨target, -, -, behind⟩ := placed.fallback
  have fits := ready.fits
  rw [ready.stack] at fits
  simp only [List.length_append, List.length_reverse] at fits
  obtain ⟨s₃, -, leads₃, like₃, store₃, -⟩ :=
    (passes_reloads (m := m) spilled (by simp only [ready.length_slots]; omega) s₂).leads behind
  rw [show position + layout.fallbackIndex imports host + instructionCount layout.reloads =
    position + layout.originalIndex imports host from Nat.add_assoc ..] at leads₃
  refine ⟨_, _, s₃, (leads₁.trans leads₂).trans leads₃, fun x member => ?_, ?_,
    (like₁.trans like₂).trans like₃, by rw [store₃, store₂, store₁]⟩
  · have later := layout.invokeIndex_lt_fallbackIndex imports host
    simp only [originalIndex, invokeIndex, instructionCount_append] at later ⊢
    rcases List.mem_append.mp member with before | behind
    · rcases List.mem_append.mp before with spill | choice
      · rw [List.mem_range'_1] at spill
        omega
      · have := inside x choice
        omega
    · rw [List.mem_range'_1] at behind
      omega
  · rw [← ready.stack]
    exact ⟨rfl, size, below⟩

/-- The substitute is found, and the context of the call is made above it. -/
private theorem passes_preparation (sound : layout.Sound m.module imports host caller called site)
    (named : layout.Named m.module) (site_eq : layout.site = site)
    (spilled : layout.Spilled host f receiver arguments)
    (small : layout.arguments.length < 0x80000000)
    {id place : Nat} {map : CallMap} {entry : CallEntry}
    (known : s.rules.publication.maps[id]? = some map)
    (held : f.locals[host.mapLocal.toNat]? = some (.handle (.callMap id)))
    (found : map.find? (f.callee site.token called) = some place)
    (here : map.entries[place]? = some entry) :
    Passes m (layout.preparation imports host) f s
      { f with
        stack := .handle (.context s.store.contexts.size) ::
          .handle (.substitute id place entry.substitute.identity) :: f.stack }
      (fun store => ∃ trace, trace.map TraceEntry.method = s.callStack.map TraceEntry.method ∧
        store = s.store.withCall
          (site.context m.module host caller called f receiver arguments trace)) := by
  have room := spilled.room
  unfold scaffoldDepth at room
  rw [preparation, site_eq]
  refine (passes_getSubstitute sound known found here held (by omega)).append
    fun s₁ like₁ store₁ => ?_
  have made := passes_makeContext (s := s₁) sound named spilled small
    (.handle (.substitute id place entry.substitute.identity) :: f.stack) (by simp; omega)
  rw [store₁, like₁.callStack] at made
  exact made

/-- With a substitute control comes to the instruction that runs it, and the context of the call is
on the stack above the substitute. -/
theorem leads_to_invoke (sound : layout.Sound m.module imports host caller called site)
    (named : layout.Named m.module)
    (placed : layout.IsAt imports host c position labels offset tail)
    (reserved : layout.Reserved first site) (mapFirst : host.mapLocal.toNat < first)
    (ready : layout.Ready host f receiver arguments rest) (small : arguments.length < 0x80000000)
    {id place : Nat} {map : CallMap} {entry : CallEntry}
    (known : s.rules.publication.maps[id]? = some map)
    (held : f.locals[host.mapLocal.toNat]? = some (.handle (.callMap id)))
    (found : map.find? (f.callee site.token called) = some place)
    (here : map.entries[place]? = some entry) : ∃ locals s' trace offset',
      let context := site.context m.module host caller called f receiver arguments trace
      Leads m c (List.range' position (layout.invokeIndex imports host)) ⟨position, f, s⟩
        ⟨position + layout.invokeIndex imports host,
          { f with
            stack := .handle (.context s.store.contexts.size) ::
              .handle (.substitute id place entry.substitute.identity) :: rest
            locals }, s'⟩ ∧
      Frame.SameBelow first { f with stack := rest } { f with stack := rest, locals } ∧
      trace.map TraceEntry.method = s.callStack.map TraceEntry.method ∧ s.Like s' ∧
      s'.store = s.store.withCall context ∧
      c.Holds labels (position + layout.invokeIndex imports host) offset'
        ([imports.callOn .invoke, layout.takeResult, .branch .br layout.doneLabel] ++
          ([.label layout.fallbackLabel] ++ (layout.reloads ++
            ([.decoded layout.site.instruction, .label layout.doneLabel] ++ tail)))) := by
  have room := ready.room
  unfold scaffoldDepth at room
  obtain ⟨locals, passes, spilled, below⟩ := passes_spills (m := m) reserved ready
  obtain ⟨s₁, offset₁, leads₁, like₁, store₁, holds₁⟩ := (passes s).leads placed.front
  have held₁ : locals[host.mapLocal.toNat]? = some (.handle (.callMap id)) :=
    (below.2.2 _ mapFirst).trans held
  have known₁ : s₁.rules.publication.maps[id]? = some map := by rwa [like₁.rules]
  -- The choice finds the substitute, so control falls into the substitution and not to the fallback.
  have mapped : map.contains (f.callee site.token called) = true := by
    rw [CallMap.contains, CallMap.substitute?, found]
    simp [here]
  let f₁ : Frame := { f with stack := rest, locals }
  obtain ⟨s₂, offset₂, leads₂, like₂, store₂, holds₂⟩ :=
    leads_choice_past (f := f₁) sound holds₁ known₁ held₁ mapped (by simp [f₁]; omega)
  have known₂ : s₂.rules.publication.maps[id]? = some map := by rwa [like₂.rules]
  have arity : layout.arguments.length < 0x80000000 := by rwa [ready.arguments_arity]
  have prepares := passes_preparation sound named reserved.site_eq spilled arity known₂ held₁ found here
  rw [show s₂.store = s.store by rw [store₂, store₁], (like₁.trans like₂).callStack] at prepares
  obtain ⟨s₃, offset₃, leads₃, like₃, ⟨trace, same, store₃⟩, holds₃⟩ := prepares.leads holds₂
  have index : position + instructionCount layout.spills +
      instructionCount (layout.choice imports host) +
      instructionCount (layout.preparation imports host) =
      position + layout.invokeIndex imports host := by
    rw [invokeIndex_eq]
    omega
  rw [index] at leads₃ holds₃
  have path : List.range' position (layout.invokeIndex imports host) =
      List.range' position (instructionCount layout.spills) ++
        List.range' (position + instructionCount layout.spills)
          (instructionCount (layout.choice imports host)) ++
        List.range' (position + instructionCount layout.spills +
          instructionCount (layout.choice imports host))
          (instructionCount (layout.preparation imports host)) := by
    rw [invokeIndex_eq, Nat.add_assoc position, List.range'_append_1, List.range'_append_1]
  rw [path]
  exact ⟨locals, s₃, trace, offset₃, (leads₁.trans leads₂).trans leads₃, below, same,
    (like₁.trans like₂).trans like₃, store₃, holds₃⟩

/-- What a substitute returned becomes the result of the call. -/
theorem passes_takeResult (site_eq : layout.site = site) (named : layout.Named m.module)
    (top : f.stack = value :: rest) (room : rest.length < f.maxStack) {results : List Value}
    (returns : site.Returns m.module f s.store value results) :
    Passes m [layout.takeResult] f s { f with stack := results ++ rest } (· = s.store) := by
  have result := named.result
  rw [site_eq] at result
  unfold CallSite.Returns at returns
  unfold takeResult
  -- A result that nobody expects is dropped; any other is unboxed as its type.
  by_cases none : site.resultType = .void
  · rw [if_pos none] at result returns
    rw [result, returns]
    exact passes_pop top
  · rw [if_neg none] at result returns
    obtain ⟨token, known, stands⟩ := result
    obtain ⟨extracted, yields, rfl⟩ := returns
    rw [known]
    refine .of_step rfl fun labels offset i read => ⟨s.tick offset, fun execute => ?_, rfl,
      .tick s offset, rfl⟩
    have operand : YieldsWith (m.typeOperand ⟨offset, .unboxAny, .token token⟩) f (s.tick offset)
        (f.close (m.module.namedType site.resultType)) f (s.tick offset) :=
      YieldsWith.bind (k := m.typeFor) (yieldsWith_pure.mpr ⟨rfl, rfl, rfl⟩)
        (yieldsWith_typeFor.mpr ⟨_, stands, rfl, rfl, rfl⟩)
    have taken : YieldsWith Step.pop f (s.tick offset) value { f with stack := rest }
        (s.tick offset) := yieldsWith_pop.mpr ⟨top, rfl, rfl⟩
    have extracts : YieldsWith (Step.act (value.extractAs
        (f.close (m.module.namedType site.resultType)) m.module.hierarchy)) { f with stack := rest }
        (s.tick offset) extracted { f with stack := rest } (s.tick offset) :=
      yieldsWith_act.mpr ⟨s.store, yields, rfl, rfl⟩
    have unboxed : YieldsWith (m.unbox ⟨offset, .unboxAny, .token token⟩) f (s.tick offset) ()
        { f with stack := [extracted] ++ rest } (s.tick offset) :=
      operand.bind (taken.bind (extracts.bind (yieldsWith_push.mpr ⟨room, rfl, rfl⟩)))
    cases read
    exact unboxed.bind (yieldsWith_pure.mpr ⟨rfl, rfl, rfl⟩)

/-- Behind the instruction that runs a substitute control comes to the end of the scaffold, with the
result of the call on the stack. -/
theorem leads_behind (placed : layout.IsAt imports host c position labels offset tail)
    (site_eq : layout.site = site) (named : layout.Named m.module) {items : List ListingItem}
    (holds : c.Holds labels start offset₁ ([layout.takeResult, .branch .br layout.doneLabel] ++ items))
    (top : f.stack = value :: rest) (room : rest.length < f.maxStack) {results : List Value}
    (returns : site.Returns m.module f s.store value results) : ∃ s',
      Leads m c [start, start + 1] ⟨start, f, s⟩ ⟨position + layout.originalIndex imports host + 1,
        { f with stack := results ++ rest }, s'⟩ ∧ s.Like s' ∧ s'.store = s.store := by
  have length : instructionCount [layout.takeResult] = 1 := by
    unfold takeResult
    cases layout.result <;> rfl
  obtain ⟨target, known, found⟩ := placed.done
  rw [List.cons_append] at holds
  obtain ⟨s₁, offset₂, leads₁, like₁, store₁, holds₁⟩ :=
    (passes_takeResult site_eq named top room returns).leads holds
  rw [length] at leads₁ holds₁
  have leads₂ := leads_br (m := m) holds₁ known found { f with stack := results ++ rest } s₁
  exact ⟨_, leads₁.trans leads₂, like₁.trans (.tick s₁ offset₂), store₁⟩

end Site

end SiteLayout

end Interpose
