import Interpose.Proofs.Machine.Errors
import Interpose.Proofs.Machine.Mirror
import Interpose.Proofs.Machine.Origins
import Interpose.Proofs.Machine.StackUse

/-!
# What instructions leave of a frame, and what they fail with

Whatever an instruction does to the frame of the running method, the number of arguments and of local
variables stays, and so does the room on the stack, which is never exceeded.  The height of the stack
changes as `Machine.stackUse` says.  And what an instruction fails with is an error of the machine for
which the code is not to blame, or that of a stack that is full when a value is put on it, unless it
comes from a method, a native method or a substitute that it runs.

## Main definitions

* `Run.Sound` — what a computation leaves if it succeeds, and what it fails with
* `Frame.Changes`, `Frame.Overflows` — a frame with a stack that was used, and one that is too small
* `Step.SoundIn` — what a computation leaves of a frame, given how it uses the stack
* `Machine.GuestsRaise` — native methods and substitutes fail only with some errors

## Main results

* `soundIn_push`, `soundIn_pop`, `soundIn_loadLocal` and others — the stack and the variables
* `sound_intrinsic`, `sound_dispatch` — calls
* `soundIn_step` — instructions
-/

namespace Interpose

/-- A property of states holds behind a computation if it does before. -/
def Keeps (G : MachineState → Prop) (s s' : MachineState) : Prop := G s → G s'

/-- Where a property of states holds, a computation keeps it and leaves a result that has the property
`Q`, or it fails with one of some errors. -/
structure Run.Sound (G : MachineState → Prop) (A : Error → Prop) {α : Type} (Q : α → Prop)
    (x : Run α) : Prop where
  yields : ∀ {s a s'}, G s → Yields x s a s' → G s' ∧ Q a
  fails : ∀ {s e s'}, G s → Fails x s e s' → A e

/-- What a frame becomes when values are taken from its stack and others are put on it. -/
structure Frame.Changes (f : Frame) (takes puts : Nat) (f' : Frame) : Prop extends f.Becomes f' where
  enough : takes ≤ f.stack.length
  height : f'.stack.length + takes = f.stack.length + puts

/-- The stack of a frame is full when values were taken from it and another is put on it. -/
structure Frame.Overflows (f : Frame) (takes puts : Nat) (e : Error) : Prop where
  error_eq : e = .fault (.stackOverflow f.maxStack)
  puts_pos : 0 < puts
  full : f.maxStack + takes ≤ f.stack.length

/-- Where a property of states holds, a computation of a running method keeps it together with the
form of the frame, and uses the stack as it is said to, or it fails because the stack is full or with
one of some errors. -/
def Step.SoundIn (G : MachineState → Prop) (A : Error → Prop) {α : Type} (f : Frame)
    (takes puts : Nat) (x : Step α) : Prop :=
  Run.Sound G (fun e => A e ∨ f.Overflows takes puts e) (fun out => f.Changes takes puts out.2)
    (x.run f)

variable {G : MachineState → Prop} {A : Error → Prop}

namespace Run.Sound

variable {α β : Type} {Q : α → Prop} {R : β → Prop} {x y : Run α} {k : α → Run β} {k' : β → Run α}

theorem mono {Q' : α → Prop} (h : Sound G A Q x) (sub : ∀ a, Q a → Q' a) : Sound G A Q' x :=
  ⟨fun good yields => (h.yields good yields).imp_right (sub _), h.fails⟩

theorem mono_errors {B : Error → Prop} (h : Sound G A Q x) (sub : ∀ e, A e → B e) :
    Sound G B Q x := ⟨h.yields, fun good fails => sub _ (h.fails good fails)⟩

/-- What is known of every result is known of those that are left. -/
theorem and (h : Sound G A Q x) {R : α → Prop} (h' : ∀ {s a s'}, Yields x s a s' → R a) :
    Sound G A (fun a => Q a ∧ R a) x :=
  ⟨fun good yields => ⟨(h.yields good yields).1, (h.yields good yields).2, h' yields⟩, h.fails⟩

theorem pure {a : α} (h : Q a) : Sound G A Q (pure a) where
  yields good yields := by
    obtain ⟨rfl, rfl⟩ := yields_pure.mp yields
    exact ⟨good, h⟩
  fails _ fails := absurd fails not_fails_pure

theorem bind (h : Sound G A Q x) (h' : ∀ a, Q a → Sound G A R (k a)) : Sound G A R (x >>= k) where
  yields good yields := by
    obtain ⟨a, s₁, first, second⟩ := yields_bind.mp yields
    obtain ⟨good₁, known⟩ := h.yields good first
    exact (h' a known).yields good₁ second
  fails good fails := by
    rcases fails_bind.mp fails with first | ⟨a, s₁, first, second⟩
    · exact h.fails good first
    · obtain ⟨good₁, known⟩ := h.yields good first
      exact (h' a known).fails good₁ second

theorem get_bind {k : MachineState → Run β} (h : ∀ s, G s → Sound G A R (k s)) :
    Sound G A R (get >>= k) where
  yields {s} _ _ good yields := (h s good).yields good yields
  fails {s} _ _ good fails := (h s good).fails good fails

theorem throw {e : Error} (h : A e) : Sound G A Q (throw e) where
  yields _ yields := (yields_throw.mp yields).elim
  fails _ fails := (fails_throw.mp fails).1 ▸ h

theorem of_result {known : Except Error α} (h : ErrsOnly A known) :
    Sound G A (fun _ => True) (liftM known) where
  yields good yields := by
    obtain ⟨-, rfl⟩ := yields_liftM.mp yields
    exact ⟨good, trivial⟩
  fails _ fails := h _ (fails_liftM.mp fails).1

/-- A computation on the store, which fails where the property holds only with some errors. -/
theorem act [Indifferent (Keeps G)] {x : Act α} (h : RaisesOnly A x) :
    Sound G A (fun _ => True) (Run.act x) where
  yields good yields := by
    obtain ⟨store, -, rfl⟩ := yields_act.mp yields
    exact ⟨Indifferent.store (P := Keeps G) _ store good, trivial⟩
  fails {s e s'} _ fails := by
    have same : ((x.run.run s.store).1, { s with store := (x.run.run s.store).2 }) =
      ((.error e, s') : Except Error α × MachineState) := fails
    exact h s.store e (x.run.run s.store).2 (Prod.ext (congrArg Prod.fst same :) rfl)

/-- A computation on the rules. -/
theorem intercept {x : Intercept α} (h : RaisesOnly A x)
    (h' : ∀ s, Keeps G s { s with rules := (x.run.run s.rules).2 }) :
    Sound G A (fun _ => True) (Run.intercept x) where
  yields {s a s'} good yields := by
    obtain ⟨rules, done, rfl⟩ := yields_intercept.mp yields
    have reached := h' s good
    rw [show x.run.run s.rules = (.ok a, rules) from done] at reached
    exact ⟨reached, trivial⟩
  fails {s e s'} _ fails := by
    have same : ((x.run.run s.rules).1, { s with rules := (x.run.run s.rules).2 }) =
      ((.error e, s') : Except Error α × MachineState) := fails
    exact h s.rules e (x.run.run s.rules).2 (Prod.ext (congrArg Prod.fst same :) rfl)

theorem ite {c : Prop} [Decidable c] (h : Sound G A Q x) (h' : Sound G A Q y) :
    Sound G A Q (if c then x else y) := by
  split
  · exact h
  · exact h'

/-- A computation that goes on only if a condition fails. -/
theorem guard {c : Prop} [Decidable c] {cause : Fault} (h : A (.fault cause))
    (h' : ¬ c → Sound G A Q y) :
    Sound G A Q (if c then (Run.fault cause : Run β) >>= k' else y) := by
  split
  case isTrue =>
    -- What is behind a fault does not matter.
    have same : (Run.fault cause : Run β) >>= k' = Run.fault cause := rfl
    exact same ▸ throw h
  case isFalse free => exact h' free

/-- A computation with one more method on the call stack. -/
theorem within [Lasting (Keeps G)] {method : Method} (h : Sound G A Q x) :
    Sound G A Q (Run.within method x) where
  yields {s a s'} good yields := by
    obtain ⟨inner, ran, rfl⟩ := yields_within.mp yields
    obtain ⟨good', known⟩ := h.yields (Lasting.callStack (P := Keeps G) s _ good) ran
    exact ⟨Lasting.callStack (P := Keeps G) inner _ good', known⟩
  fails {s e s'} good fails := by
    let entered : MachineState := { s with callStack := ⟨method, 0⟩ :: s.callStack }
    have same : ((x.run.run entered).1, { (x.run.run entered).2 with
        callStack := (x.run.run entered).2.callStack.tail }) =
      ((.error e, s') : Except Error α × MachineState) := fails
    exact h.fails (Lasting.callStack (P := Keeps G) s _ good)
      (Prod.ext (congrArg Prod.fst same :) rfl : x.run.run entered = (.error e, (x.run.run entered).2))

theorem mapM {f : β → Run α} (h : ∀ b, Sound G A (fun _ => True) (f b)) (list : List β) :
    Sound G A (fun _ => True) (list.mapM f) := by
  induction list with
  | nil =>
    rw [List.mapM_nil]
    exact .pure trivial
  | cons b rest ih =>
    rw [List.mapM_cons]
    exact (h b).bind fun _ _ => ih.bind fun _ _ => .pure trivial

end Run.Sound

namespace Frame.Changes

variable {f f' f'' : Frame} {takes puts : Nat}

theorem refl (f : Frame) : f.Changes 0 0 f := ⟨.refl f, Nat.zero_le _, rfl⟩

/-- Values are taken one after the other. -/
theorem trans {before : Nat} (h : f.Changes before 0 f') (h' : f'.Changes takes puts f'') :
    f.Changes (takes + before) puts f'' where
  toBecomes := h.toBecomes.trans h'.toBecomes
  enough := by
    have := h.height
    have := h'.enough
    omega
  height := by
    have := h.height
    have := h'.height
    omega

/-- Nothing else happens to the stack. -/
theorem trans_refl (h : f.Changes takes puts f') (h' : f'.Changes 0 0 f'') :
    f.Changes takes puts f'' where
  toBecomes := h.toBecomes.trans h'.toBecomes
  enough := h.enough
  height := by
    have := h.height
    have := h'.height
    omega

/-- Another stack that lacks the topmost values. -/
theorem of_stack {stack : List Value} (h : stack.length + takes = f.stack.length) :
    f.Changes takes 0 { f with stack } := ⟨.of_stack (by omega), by omega, h⟩

end Frame.Changes

theorem Frame.not_overflows_zero {f : Frame} {takes : Nat} {e : Error} : ¬ f.Overflows takes 0 e :=
  fun h => Nat.lt_irrefl 0 h.puts_pos

namespace Step.SoundIn

variable {α β : Type} {f : Frame} {takes puts : Nat} {x y : Step α} {k : α → Step β}

/-- A computation that puts nothing on the stack does not fail because the stack is full. -/
theorem sound (h : SoundIn G A f takes 0 x) :
    Run.Sound G A (fun out => f.Changes takes 0 out.2) (x.run f) :=
  h.mono_errors fun _ => Or.rec id fun full => absurd full Frame.not_overflows_zero

theorem of_sound {Q : α × Frame → Prop} (h : Run.Sound G A Q (x.run f))
    (sub : ∀ out, Q out → f.Changes takes puts out.2) : SoundIn G A f takes puts x :=
  (h.mono sub).mono_errors fun _ => .inl

/-- First values are taken, then the rest is done. -/
theorem bind_of_yields {before : Nat} (h : SoundIn G A f before 0 x)
    (h' : ∀ {s a f' s'}, YieldsWith x f s a f' s' → SoundIn G A f' takes puts (k a)) :
    SoundIn G A f (takes + before) puts (x >>= k) := by
  have known := (h.sound.mono_errors (B := fun e => A e ∨ f.Overflows (takes + before) puts e)
    fun _ => .inl).and (R := fun out => SoundIn G A out.2 takes puts (k out.1)) h'
  refine Run.Sound.bind known fun out ⟨changes, rest⟩ => ?_
  refine Run.Sound.mono_errors (rest.mono fun _ => changes.trans) fun e => ?_
  -- The stack is as full for the rest as it is when the values have been taken.
  refine Or.imp_right fun full => ⟨?_, full.puts_pos, ?_⟩
  · rw [full.error_eq, changes.maxStack_eq]
  · have := full.full
    have := changes.height
    rw [changes.maxStack_eq] at *
    omega

theorem bind {before : Nat} (h : SoundIn G A f before 0 x)
    (h' : ∀ a f', SoundIn G A f' takes puts (k a)) :
    SoundIn G A f (takes + before) puts (x >>= k) := h.bind_of_yields fun _ => h' _ _

/-- First the stack is used, then the rest is done. -/
theorem bind_rest (h : SoundIn G A f takes puts x) (h' : ∀ a f', SoundIn G A f' 0 0 (k a)) :
    SoundIn G A f takes puts (x >>= k) := by
  refine Run.Sound.bind h fun out changes => ?_
  have rest : SoundIn G A out.2 0 0 (k out.1) := h' out.1 out.2
  exact (rest.sound.mono fun _ => changes.trans_refl).mono_errors fun _ => .inl

theorem pure (a : α) : SoundIn G A f 0 0 (pure a) := Run.Sound.pure (.refl f)

theorem map (h : SoundIn G A f takes puts x) (g : α → β) : SoundIn G A f takes puts (g <$> x) := by
  rw [map_eq_pure_bind]
  exact h.bind_rest fun _ _ => .pure _

theorem get_bind {k : Frame → Step β} (h : SoundIn G A f takes puts (k f)) :
    SoundIn G A f takes puts (get >>= k) := h

theorem set {f' : Frame} (h : f.Changes takes puts f') : SoundIn G A f takes puts (set f') :=
  Run.Sound.pure h

theorem fault {cause : Fault} (h : A (.fault cause)) :
    SoundIn G A f takes puts (Step.fault cause : Step α) := Run.Sound.throw (.inl h)

theorem lift {Q : α → Prop} {x : Run α} (h : Run.Sound G A Q x) : SoundIn G A f 0 0 (liftM x) :=
  of_sound (Run.Sound.bind h fun _ _ => .pure (.refl f)) fun _ => id

theorem of_result {known : Except Error α} (h : ErrsOnly A known) :
    SoundIn G A f 0 0 (liftM known) := by
  cases known with
  | ok a => exact pure a
  | error e => exact Run.Sound.throw (.inl (h e rfl))

theorem act [Indifferent (Keeps G)] {x : Act α} (h : RaisesOnly A x) :
    SoundIn G A f 0 0 (Step.act x) := lift (.act h)

theorem ite {c : Prop} [Decidable c] (h : SoundIn G A f takes puts x)
    (h' : SoundIn G A f takes puts y) : SoundIn G A f takes puts (if c then x else y) := by
  split
  · exact h
  · exact h'

/-- A computation that goes on only if a condition fails. -/
theorem guard {c : Prop} [Decidable c] {cause : Fault} {k : α → Step β} {y : Step β}
    (h : c → SoundIn G A f takes puts (Step.fault cause : Step β))
    (h' : ¬ c → SoundIn G A f takes puts y) :
    SoundIn G A f takes puts (if c then (Step.fault cause : Step α) >>= k else y) := by
  split
  case isTrue stops =>
    -- What is behind a fault does not matter.
    have same : (Step.fault cause : Step α) >>= k = Step.fault cause := rfl
    exact same ▸ h stops
  case isFalse free => exact h' free

end Step.SoundIn

section Variables

variable [StackErrors A] {f : Frame}

omit [StackErrors A] in
theorem soundIn_push (value : Value) : Step.SoundIn G A f 0 1 (Step.push value) :=
  .get_bind (.guard (fun full => Run.Sound.throw (.inr ⟨rfl, Nat.one_pos, full⟩)) fun room =>
    .set ⟨⟨rfl, rfl, rfl, rfl, fun _ => Nat.lt_of_not_le room⟩, Nat.zero_le _, rfl⟩)

theorem soundIn_pop : Step.SoundIn G A f 1 0 Step.pop := by
  refine .get_bind ?_
  split
  case h_1 value stack top =>
    refine .bind_rest (.set (.of_stack ?_)) fun _ _ => .pure value
    simp [top]
  case h_2 => exact .fault StackErrors.underflow

theorem soundIn_peek : Step.SoundIn G A f 0 0 Step.peek := by
  refine .get_bind ?_
  split
  · exact .pure _
  · exact .fault StackErrors.underflow

theorem soundIn_popMany (count : Nat) : Step.SoundIn G A f count 0 (Step.popMany count) :=
  .get_bind (.guard (fun _ => .fault StackErrors.underflow) fun enough =>
    .bind_rest (.set (.of_stack (by simp; omega))) fun _ _ => .pure _)

theorem soundIn_loadArgument (index : Nat) : Step.SoundIn G A f 0 1 (Step.loadArgument index) := by
  refine .get_bind ?_
  split
  · exact soundIn_push _
  · exact .fault (StackErrors.argument _ _)

theorem soundIn_storeArgument (index : Nat) : Step.SoundIn G A f 1 0 (Step.storeArgument index) :=
  soundIn_pop.bind fun _ _ => .get_bind (.ite
    (.set ⟨⟨rfl, Array.size_setIfInBounds, rfl, rfl, id⟩, Nat.zero_le _, rfl⟩)
    (.fault (StackErrors.argument _ _)))

theorem soundIn_loadLocal (index : Nat) : Step.SoundIn G A f 0 1 (Step.loadLocal index) := by
  refine .get_bind ?_
  split
  · exact soundIn_push _
  · exact .fault (StackErrors.localVar _ _)

theorem soundIn_storeLocal (index : Nat) : Step.SoundIn G A f 1 0 (Step.storeLocal index) :=
  soundIn_pop.bind fun _ _ => .get_bind (.ite
    (.set ⟨⟨rfl, rfl, Array.size_setIfInBounds, rfl, id⟩, Nat.zero_le _, rfl⟩)
    (.fault (StackErrors.localVar _ _)))

omit [StackErrors A] in
theorem soundIn_debugText (value : Value) : Step.SoundIn G A f 0 0 (Step.debugText value) :=
  .lift (Q := fun _ => True) (.get_bind fun _ _ => .pure trivial)

theorem soundIn_comparison (c : Comparison) : Step.SoundIn G A f 2 0 (Step.comparison c) := by
  refine soundIn_pop.bind fun right f₁ => soundIn_pop.bind fun left f₂ => ?_
  split
  · exact .pure _
  · exact (soundIn_debugText _).bind fun _ _ => (soundIn_debugText _).bind fun _ _ =>
      .fault (StackErrors.comparison _)

end Variables

section Instructions

variable [MachineErrors A] {f : Frame} {i : Instruction}

theorem soundIn_mismatch {α : Type} {takes puts : Nat} (operation found : String) :
    Step.SoundIn G A f takes puts (Step.mismatch operation found : Step α) :=
  .fault (MachineErrors.fault _ rfl)

theorem soundIn_expecting {α : Type} (expected : String) (found : Option α) :
    Step.SoundIn G A f 0 0 (Step.expecting i expected found) := by
  unfold Step.expecting
  split
  · exact .pure _
  · exact soundIn_mismatch _ _

theorem soundIn_tokenOf : Step.SoundIn G A f 0 0 (Step.tokenOf i) := soundIn_expecting _ _

theorem soundIn_referent (value : Value) : Step.SoundIn G A f 0 0 (Step.referent value) := by
  unfold Step.referent
  split
  · exact .pure _
  · exact .fault (MachineErrors.fault _ rfl)
  · exact (soundIn_debugText _).bind fun _ _ => soundIn_mismatch _ _

theorem soundIn_popIndex : Step.SoundIn G A f 1 0 Step.popIndex := by
  refine soundIn_pop.bind fun value _ => ?_
  split
  · exact .pure _
  · exact (soundIn_debugText _).bind fun _ _ => soundIn_mismatch _ _

theorem soundIn_jumpIf (condition : Bool) : Step.SoundIn G A f 0 0 (Step.jumpIf i condition) :=
  .ite ((soundIn_expecting _ _).bind fun _ _ => .pure _) (.pure _)

theorem soundIn_arithmetic (op : BinaryOperation) : Step.SoundIn G A f 2 1 (Step.arithmetic op) := by
  refine soundIn_pop.bind fun right _ => soundIn_pop.bind fun left _ => ?_
  split
  · exact soundIn_push _
  · exact .fault (MachineErrors.fault _ rfl)
  · exact (soundIn_debugText _).bind fun _ _ => (soundIn_debugText _).bind fun _ _ =>
      soundIn_mismatch _ _

theorem soundIn_unary (operation : Value → Option Value) :
    Step.SoundIn G A f 1 1 (Step.unary i operation) := by
  refine soundIn_pop.bind fun value _ => ?_
  split
  · exact soundIn_push _
  · exact (soundIn_debugText _).bind fun _ _ => soundIn_mismatch _ _

theorem soundIn_finish : Step.SoundIn G A f f.method.returnUse.takes 0 Step.finish := by
  refine .get_bind ?_
  unfold Method.returnUse
  split
  · exact .pure _
  · exact soundIn_pop.bind fun _ _ => .pure _

theorem soundIn_loadConstant : Step.SoundIn G A f 0 1 (Machine.loadConstant i) := by
  unfold Machine.loadConstant
  split
  · exact soundIn_push _
  · exact soundIn_mismatch _ _
  · exact soundIn_push _
  · exact soundIn_mismatch _ _
  · exact (soundIn_expecting _ _).bind fun _ _ => soundIn_push _

variable (m : Machine)

theorem soundIn_methodFor (token : Token) : Step.SoundIn G A f 0 0 (m.methodFor token) :=
  Step.SoundIn.bind (.of_result (errsOnly_methodAt _ _)) fun _ _ =>
    .get_bind (.ite (.pure _) (.pure _))

theorem soundIn_typeFor (token : Token) : Step.SoundIn G A f 0 0 (m.typeFor token) :=
  Step.SoundIn.bind (.of_result (errsOnly_typeAt _ _)) fun _ _ => .get_bind (.pure _)

theorem soundIn_typeOperand : Step.SoundIn G A f 0 0 (m.typeOperand i) :=
  soundIn_tokenOf.bind fun _ _ => soundIn_typeFor m _

theorem soundIn_fieldOperand : Step.SoundIn G A f 0 0 (m.fieldOperand i) :=
  soundIn_tokenOf.bind fun _ _ => .ite
    (.bind (.of_result (errsOnly_fieldDefAt _ _)) fun _ _ => .pure _) (soundIn_mismatch _ _)

theorem soundIn_popArguments (method : Method) :
    Step.SoundIn G A f method.parameters.length 0 (Machine.popArguments method) :=
  (soundIn_popMany _).bind_rest fun _ _ => .pure _

theorem soundIn_cast {otherwise : Value → Ty → Step Value}
    (h : ∀ f value type, Step.SoundIn G A f 0 0 (otherwise value type)) :
    Step.SoundIn G A f 1 1 (m.cast i otherwise) :=
  (soundIn_typeOperand m).bind fun _ _ => soundIn_pop.bind fun _ _ =>
    .bind (.lift (Q := fun _ => True) (.get_bind fun _ _ => .pure trivial)) fun _ _ =>
      .ite (soundIn_push _) ((h _ _ _).bind fun _ _ => soundIn_push _)

theorem soundIn_loadToken : Step.SoundIn G A f 0 1 (m.loadToken i) := by
  refine soundIn_tokenOf.bind fun token _ => ?_
  split
  · exact (soundIn_typeFor m token).bind fun _ _ => soundIn_push _
  · exact (soundIn_typeFor m token).bind fun _ _ => soundIn_push _
  · exact (soundIn_methodFor m token).bind fun _ _ => soundIn_push _
  · exact (soundIn_methodFor m token).bind fun _ _ => soundIn_push _
  · exact (soundIn_methodFor m token).bind fun _ _ => soundIn_push _
  · exact soundIn_mismatch _ _

theorem soundIn_loadString :
    Step.SoundIn G A f 0 1 (do Step.push (.string (← m.module.stringAt (← Step.tokenOf i)))) :=
  soundIn_tokenOf.bind fun _ _ => .bind (.of_result (errsOnly_stringAt _ _)) fun _ _ =>
    soundIn_push _

theorem soundIn_loadStatic : Step.SoundIn G A f 0 1 (m.loadStatic i) :=
  (soundIn_fieldOperand m).bind fun _ _ =>
    .bind (.lift (Q := fun _ => True) (.get_bind fun _ _ => .pure trivial)) fun _ _ =>
      soundIn_push _

theorem soundIn_box : Step.SoundIn G A f 1 1 (m.box i) :=
  (soundIn_typeOperand m).bind fun _ _ => soundIn_pop.bind fun _ _ => soundIn_push _

end Instructions

section Objects

variable [MachineErrors A] [Indifferent (Keeps G)] {f : Frame} {i : Instruction} (m : Machine)

theorem soundIn_object (ref : Nat) : Step.SoundIn G A f 0 0 (Step.act (Act.object ref)) :=
  .act (raisesOnly_object ref)

theorem soundIn_throwTop : Step.SoundIn G A f 1 0 Step.throwTop := by
  refine soundIn_pop.bind fun value _ => ?_
  split
  · exact .fault (MachineErrors.fault _ rfl)
  · exact (soundIn_object _).bind fun _ _ => .bind (.of_result (errsOnly_field? _)) fun _ _ =>
      .fault (MachineErrors.fault _ rfl)
  · exact .bind (.lift (Q := fun _ => True) (.get_bind fun _ _ => .pure trivial)) fun _ _ =>
      .fault (MachineErrors.fault _ rfl)

theorem soundIn_loadLength : Step.SoundIn G A f 1 1 Step.loadLength :=
  soundIn_pop.bind fun _ _ => (soundIn_referent _).bind fun _ _ => (soundIn_object _).bind
    fun _ _ => .bind (.of_result errsOnly_length) fun _ _ => soundIn_push _

theorem soundIn_loadElement : Step.SoundIn G A f 2 1 Step.loadElement :=
  soundIn_popIndex.bind fun _ _ => soundIn_pop.bind fun _ _ => (soundIn_referent _).bind
    fun _ _ => (soundIn_object _).bind fun _ _ => .bind (.of_result (errsOnly_element _))
      fun _ _ => soundIn_push _

theorem soundIn_storeElement : Step.SoundIn G A f 3 0 Step.storeElement :=
  soundIn_pop.bind fun _ _ => soundIn_popIndex.bind fun _ _ => soundIn_pop.bind fun _ _ =>
    (soundIn_referent _).bind fun _ _ =>
      .act (raisesOnly_modifyObject fun _ => errsOnly_setElement _ _)

theorem soundIn_loadField : Step.SoundIn G A f 1 1 (m.loadField i) :=
  (soundIn_fieldOperand m).bind fun _ _ => soundIn_pop.bind fun _ _ =>
    (soundIn_referent _).bind fun _ _ => (soundIn_object _).bind fun _ _ =>
      .bind (.of_result (errsOnly_field? _)) fun _ _ => .get_bind (soundIn_push _)

theorem soundIn_storeField : Step.SoundIn G A f 2 0 (m.storeField i) :=
  (soundIn_fieldOperand m).bind fun _ _ => soundIn_pop.bind fun _ _ =>
    soundIn_pop.bind fun _ _ => .get_bind ((soundIn_referent _).bind fun _ _ =>
      .act (raisesOnly_modifyObject fun _ => errsOnly_setField _ _))

theorem soundIn_storeStatic : Step.SoundIn G A f 1 0 (m.storeStatic i) :=
  (soundIn_fieldOperand m).bind fun _ _ => soundIn_pop.bind fun _ _ =>
    .lift (Q := fun _ => True) ⟨fun {s} _ _ good yields => by
      obtain rfl := yields_modify.mp yields
      exact ⟨Indifferent.statics (P := Keeps G) s _ good, trivial⟩,
      fun _ fails => absurd fails not_fails_modify⟩

theorem soundIn_unbox : Step.SoundIn G A f 1 1 (m.unbox i) :=
  (soundIn_typeOperand m).bind fun _ _ => soundIn_pop.bind fun _ _ =>
    (Step.SoundIn.act (raisesOnly_extractAs _ _ _)).bind fun _ _ => soundIn_push _

theorem soundIn_newArray : Step.SoundIn G A f 1 1 (m.newArray i) := by
  refine (soundIn_typeOperand m).bind fun _ _ => soundIn_pop.bind fun length _ => ?_
  split
  · exact .ite ((Step.SoundIn.act (raisesOnly_newObject _)).bind fun _ _ => soundIn_push _)
      ((soundIn_debugText _).bind fun _ _ => soundIn_mismatch _ _)
  · exact (soundIn_debugText _).bind fun _ _ => soundIn_mismatch _ _

end Objects

/-- Native methods fail only with some errors, and so do substitutes where a property of states
holds. -/
structure Machine.GuestsRaise (m : Machine) (G : MachineState → Prop) (A : Error → Prop) : Prop where
  natives : ∀ method native, m.natives.get? method = some native → ∀ call, RaisesOnly A (native call)
  substitutes : ∀ s, G s → ∀ invoke, s.rules.Supplies invoke → ∀ context,
    RaisesOnly A (invoke context)

section Intrinsics

variable [MachineErrors A]

/-- A computation whose result does not matter. -/
abbrev Run.SoundOnly (G : MachineState → Prop) (A : Error → Prop) {α : Type} (x : Run α) : Prop :=
  Run.Sound G A (fun _ => True) x

theorem sound_fault {α : Type} {Q : α → Prop} {cause : Fault} (h : cause.blamesCode = false) :
    Run.Sound G A Q (Run.fault cause) := .throw (MachineErrors.fault cause h)

theorem sound_unexpected {α : Type} {Q : α → Prop} (i : Intrinsic) (found : Value) :
    Run.Sound G A Q (Run.unexpected i found) :=
  .bind (Q := fun _ => True) (.get_bind fun _ _ => .pure trivial) fun _ _ => sound_fault rfl

theorem sound_methodOf (i : Intrinsic) (value : Value) :
    Run.SoundOnly G A (Run.methodOf i value) := by
  unfold Run.methodOf
  split
  · exact .pure trivial
  · exact sound_unexpected i _

theorem sound_traceOf (i : Intrinsic) (value : Value) : Run.SoundOnly G A (Run.traceOf i value) := by
  unfold Run.traceOf
  split
  · exact .get_bind fun _ _ => .pure trivial
  · exact .pure trivial
  · exact sound_unexpected i _

theorem sound_callMapOf (i : Intrinsic) (receiver : Option Value) :
    Run.SoundOnly G A (Run.callMapOf i receiver) := by
  unfold Run.callMapOf
  split
  · refine .get_bind fun s _ => ?_
    split
    · exact .pure trivial
    · exact sound_fault rfl
  · exact sound_fault rfl
  · exact sound_fault rfl
  · exact sound_unexpected i _

theorem sound_containsMapping (receiver : Option Value) (target : Value) :
    Run.SoundOnly G A (Machine.containsMapping receiver target) :=
  (sound_callMapOf _ _).bind fun _ _ => (sound_methodOf _ _).bind fun _ _ => .pure trivial

theorem sound_substituteFor (receiver : Option Value) (target : Value) :
    Run.SoundOnly G A (Machine.substituteFor receiver target) := by
  refine (sound_callMapOf _ _).bind fun _ _ => (sound_methodOf _ _).bind fun _ _ => ?_
  split
  · split
    · exact .pure trivial
    · exact .pure trivial
  · exact .pure trivial

theorem sound_contextOf (value : Value) : Run.SoundOnly G A (Machine.contextOf value) := by
  unfold Machine.contextOf
  split
  · refine .get_bind fun s _ => ?_
    split
    · exact .pure trivial
    · exact sound_fault rfl
  · exact sound_unexpected _ _

variable [Indifferent (Keeps G)] {m : Machine}

theorem sound_elementsOf (i : Intrinsic) (value : Value) :
    Run.SoundOnly G A (Run.elementsOf i value) := by
  unfold Run.elementsOf
  split
  · exact (Run.Sound.act (raisesOnly_object _)).bind fun _ _ => .of_result errsOnly_elements
  · exact .pure trivial
  · exact sound_unexpected i _

theorem sound_chooseProvider (callingInstance type : Value) :
    Run.SoundOnly G A (Machine.chooseProvider callingInstance type) := by
  unfold Machine.chooseProvider
  split
  · refine (Run.Sound.intercept (raisesOnly_chooseProvider _ _)
      fun s => Indifferent.provider s _ _).bind fun found _ => ?_
    split
    · exact .pure trivial
    · exact .pure trivial
  · exact sound_unexpected _ _

theorem sound_callMapFor (provider callingInstance host intercepted trace : Value) :
    Run.SoundOnly G A (m.callMapFor provider callingInstance host intercepted trace) := by
  unfold Machine.callMapFor
  split
  · exact (sound_methodOf _ _).bind fun _ _ => (sound_elementsOf _ _).bind fun _ _ =>
      (Run.Sound.mapM (sound_methodOf _) _).bind fun _ _ => (sound_traceOf _ _).bind fun _ _ =>
        (Run.Sound.intercept (raisesOnly_publishedMap _ _ _)
          fun s => Indifferent.callMap s _ _ _).bind fun _ _ => .pure trivial
  · exact .pure trivial
  · exact sound_unexpected _ _

theorem sound_newContext (target callingInstance callingMethod targetMethod trace arguments : Value) :
    Run.SoundOnly G A
      (Machine.newContext target callingInstance callingMethod targetMethod trace arguments) :=
  (sound_methodOf _ _).bind fun _ _ => (sound_methodOf _ _).bind fun _ _ =>
    (sound_traceOf _ _).bind fun _ _ => (sound_elementsOf _ _).bind fun _ _ =>
      .act (raisesOnly_newContext _)

variable (guests : m.GuestsRaise G A)

include guests

theorem sound_invokeSubstitute (receiver : Option Value) (context : Value) :
    Run.SoundOnly G A (Machine.invokeSubstitute receiver context) := by
  have entry : Run.Sound G A (fun entry => ∀ context, RaisesOnly A (entry.substitute.invoke context))
      (Machine.entryOf receiver) := by
    unfold Machine.entryOf
    split
    · refine .get_bind fun s good => ?_
      split
      case h_1 map number _ entry found =>
        obtain ⟨map, known, listed⟩ := Option.bind_eq_some_iff.mp found
        exact .pure (guests.substitutes s good _ (.map (Array.mem_of_getElem? known)
          ⟨entry, Array.mem_of_getElem? listed, rfl⟩))
      case h_2 => exact sound_fault rfl
    · exact sound_fault rfl
    · exact sound_fault rfl
    · exact sound_unexpected _ _
  refine entry.bind fun entry raises => (sound_contextOf _).bind fun context _ =>
    (Run.Sound.act (raises context)).bind fun result _ => ?_
  split
  · exact .pure trivial
  · exact .pure trivial

/-- Intrinsics fail with errors of their own, or with those of substitutes. -/
theorem sound_intrinsic (i : Intrinsic) (receiver : Option Value) (arguments : List Value) :
    Run.SoundOnly G A (m.intrinsic i receiver arguments) := by
  unfold Machine.intrinsic
  split
  · exact sound_chooseProvider _ _
  · exact sound_callMapFor _ _ _ _ _
  · exact .get_bind fun _ _ => .act (raisesOnly_newTrace _)
  · exact sound_containsMapping _ _
  · exact sound_substituteFor _ _
  · exact sound_invokeSubstitute guests _ _
  · exact sound_newContext _ _ _ _ _ _
  · exact .pure trivial
  · exact .pure trivial
  · exact sound_fault rfl

end Intrinsics

section Calls

variable [MachineErrors A] [Indifferent (Keeps G)] {m : Machine} {execute : Executor} {f : Frame}
  {i : Instruction} (guests : m.GuestsRaise G A)
  (agree : ∀ token method arguments, Run.SoundOnly G A (execute token method arguments))

include guests agree

/-- Calls fail with errors of the machine, or with those of what they run. -/
theorem sound_dispatch (method : Method) (receiver : Option Value) (arguments : List Value)
    (isVirtual : Bool) :
    Run.SoundOnly G A (m.dispatch execute method receiver arguments isVirtual) := by
  have start : Run.SoundOnly G A (m.startType method receiver isVirtual) := by
    unfold Machine.startType
    split
    · exact .ite (sound_fault rfl) (.ite (.get_bind fun _ _ => .pure trivial) (.pure trivial))
    · exact .pure trivial
  unfold Machine.dispatch
  split
  · exact sound_intrinsic guests _ _ _
  · refine start.bind fun type _ => ?_
    split
    · exact Run.Sound.bind (.of_result ((errsOnly_definedMethod _ _).bind fun _ => .pure _))
        fun _ _ => agree _ _ _
    · split
      case h_1 native found => exact .act (guests.natives _ _ found _)
      case h_2 => exact sound_fault rfl

omit [Indifferent (Keeps G)] guests agree in
/-- What an instruction does that calls a method, given what it does with the method. -/
theorem soundIn_bind_called {α : Type} {use : StackUse} {usesOf : Method → StackUse}
    {k : Method → Step α}
    (h : ∀ method, Step.SoundIn G A f (usesOf method).takes (usesOf method).puts (k method))
    (used : ((m.called? f i).map usesOf).getD ⟨0, 0⟩ = use) :
    Step.SoundIn G A f use.takes use.puts (Step.tokenOf i >>= fun token => m.methodFor token >>= k) := by
  refine soundIn_tokenOf.bind_of_yields fun {s token f₁ s₁} operand =>
    (soundIn_methodFor m token).bind_of_yields fun {s₂ method f₂ s₃} found => ?_
  obtain ⟨known, stands, rfl, rfl, rfl⟩ := yieldsWith_methodFor.mp found
  obtain ⟨named, rfl, rfl⟩ : i.token? = some token ∧ f = f₁ ∧ s = s₁ := by
    unfold Step.tokenOf Step.expecting at operand
    split at operand
    case h_1 named =>
      obtain ⟨rfl, rfl, rfl⟩ := yieldsWith_pure.mp operand
      exact ⟨named, rfl, rfl⟩
    case h_2 => exact (yieldsWith_fault.mp operand).elim
  have called : m.called? f i = some (f.callee token known) := by
    rw [Machine.called?, named, Option.bind_some, stands]
    rfl
  rw [called] at used
  obtain rfl := used
  exact h _

theorem soundIn_call (isVirtual : Bool) : Step.SoundIn G A f
    (((m.called? f i).map Method.callUse).getD ⟨0, 0⟩).takes
    (((m.called? f i).map Method.callUse).getD ⟨0, 0⟩).puts (m.call execute i isVirtual) := by
  refine soundIn_bind_called (fun method => ?_) rfl
  have last (receiver : Option Value) (arguments : List Value) (f : Frame) :
      Step.SoundIn G A f 0 method.callUse.puts
        (liftM (m.dispatch execute method receiver arguments isVirtual) >>= fun result =>
          if method.returnType ≠ .void && !method.isConstructor then
            Step.push (result.adaptTo method.returnType) else pure ()) := by
    refine (Step.SoundIn.lift (sound_dispatch guests agree _ _ _ _)).bind fun _ _ => ?_
    unfold Method.callUse
    dsimp only
    split
    · exact soundIn_push _
    · exact .pure _
  refine (soundIn_popArguments method).bind fun arguments f₁ => ?_
  dsimp only
  split
  · exact (soundIn_pop.map some).bind fun _ _ => last _ _ _
  · exact (Step.SoundIn.pure none).bind fun _ _ => last _ _ _

theorem soundIn_construct : Step.SoundIn G A f
    (((m.called? f i).map Method.creationUse).getD ⟨0, 0⟩).takes
    (((m.called? f i).map Method.creationUse).getD ⟨0, 0⟩).puts (m.construct execute i) := by
  refine soundIn_bind_called (fun method => ?_) rfl
  have last (arguments : List Value) (f : Frame) : Step.SoundIn G A f 0 1
      (if Intrinsic.ofMethod? method = some .newContext then do
        Step.push (← m.intrinsic .newContext none arguments)
      else do
        let object ← Step.act (Act.newInstance method.declaringType)
        let _ ← m.dispatch execute method (some object) arguments false
        Step.push object) := by
    refine .ite ?_ ?_
    · exact (Step.SoundIn.lift (sound_intrinsic guests _ _ _)).bind fun _ _ => soundIn_push _
    · exact (Step.SoundIn.act (raisesOnly_newObject _)).bind fun _ _ =>
        (Step.SoundIn.lift (sound_dispatch guests agree _ _ _ _)).bind fun _ _ => soundIn_push _
  have taken := (soundIn_popArguments (f := f) method).bind fun arguments f₁ => last arguments f₁
  rwa [Nat.zero_add] at taken

/-- There is a meaning for every instruction that control leaves for the one behind it. -/
theorem soundIn_effect (straight : i.op.isBranch = false) (stays : i.op ≠ .ret)
    (quiet : i.op ≠ .throw) :
    Step.SoundIn G A f (m.stackUse f i).takes (m.stackUse f i).puts (m.effect execute i) := by
  have constant : Step.SoundIn G A f 0 1 (Machine.loadConstant i) := soundIn_loadConstant
  obtain ⟨offset, op, operand⟩ := i
  cases op with
  | nop => exact .pure ()
  | ldarg0 | ldarg1 | ldarg2 | ldarg3 | ldargS | ldarg =>
    exact (soundIn_expecting _ _).bind fun _ _ => soundIn_loadArgument _
  | stargS | starg => exact (soundIn_expecting _ _).bind fun _ _ => soundIn_storeArgument _
  | ldloc0 | ldloc1 | ldloc2 | ldloc3 | ldlocS | ldloc =>
    exact (soundIn_expecting _ _).bind fun _ _ => soundIn_loadLocal _
  | stloc0 | stloc1 | stloc2 | stloc3 | stlocS | stloc =>
    exact (soundIn_expecting _ _).bind fun _ _ => soundIn_storeLocal _
  | ldnull => exact soundIn_push _
  | ldcI4M1 | ldcI40 | ldcI41 | ldcI42 | ldcI43 | ldcI44 | ldcI45 | ldcI46 | ldcI47 | ldcI48
  | ldcI4S | ldcI4 | ldcI8 | ldcR8 => exact constant
  | dup => exact soundIn_peek.bind fun _ _ => soundIn_push _
  | pop => exact soundIn_pop.bind fun _ _ => .pure _
  | call | callvirt => exact soundIn_call guests agree _
  | newobj => exact soundIn_construct guests agree
  | add | sub | mul | div | rem | andOp | orOp | xor => exact soundIn_arithmetic _
  | neg | notOp | convI4 | convI8 | convR8 => exact soundIn_unary _
  | ceq | cgt | clt => exact (soundIn_comparison _).bind fun _ _ => soundIn_push _
  | ldstr => exact soundIn_loadString m
  | castclass => exact soundIn_cast m fun _ _ _ => .act (raisesOnly_invalidCast _ _)
  | isinst => exact soundIn_cast m fun _ _ _ => .pure _
  | ldfld => exact soundIn_loadField m
  | stfld => exact soundIn_storeField m
  | ldsfld => exact soundIn_loadStatic m
  | stsfld => exact soundIn_storeStatic m
  | box => exact soundIn_box m
  | unboxAny => exact soundIn_unbox m
  | newarr => exact soundIn_newArray m
  | ldlen => exact soundIn_loadLength
  | ldelemRef => exact soundIn_loadElement
  | stelemRef => exact soundIn_storeElement
  | ldtoken => exact soundIn_loadToken m
  | br | brS | brfalse | brfalseS | brtrue | brtrueS | beq | beqS | bge | bgeS | bgt | bgtS | ble
  | bleS | blt | bltS | bneUn | bneUnS => cases straight
  | ret => exact absurd rfl stays
  | throw => exact absurd rfl quiet

/-- An instruction keeps the form of the frame, and uses the stack as it is said to.  It fails because
the stack is full where it puts a value on it, and otherwise with no error that the code is to blame
for unless something that it runs does. -/
theorem soundIn_step :
    Step.SoundIn G A f (m.stackUse f i).takes (m.stackUse f i).puts (m.step execute i) := by
  have ordinary (straight : i.op.isBranch = false) (stays : i.op ≠ .ret) (quiet : i.op ≠ .throw) :
      Step.SoundIn G A f (m.stackUse f i).takes (m.stackUse f i).puts
        (m.effect execute i >>= fun _ => pure Control.next) :=
    (soundIn_effect guests agree straight stays quiet).bind_rest fun _ _ => .pure _
  have jumps (c : Comparison) : Step.SoundIn G A f 2 0 (Step.comparison c >>= Step.jumpIf i) :=
    (soundIn_comparison c).bind fun _ _ => soundIn_jumpIf _
  obtain ⟨offset, op, operand⟩ := i
  cases op with
  | br | brS => exact (soundIn_expecting _ _).bind fun _ _ => .pure _
  | brfalse | brfalseS | brtrue | brtrueS => exact soundIn_pop.bind fun _ _ => soundIn_jumpIf _
  | beq | beqS | bge | bgeS | bgt | bgtS | ble | bleS | blt | bltS | bneUn | bneUnS => exact jumps _
  | ret => exact soundIn_finish
  | throw => exact soundIn_throwTop
  | _ => exact ordinary rfl (fun same => nomatch same) fun same => nomatch same

end Calls

end Interpose
