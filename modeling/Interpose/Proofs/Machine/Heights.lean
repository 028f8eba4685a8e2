import Interpose.Proofs.Machine.Trails

/-!
# The height of the stack along a listing

How high the stack is when the code of a listing is run follows from how its items use the stack.
Where code is run from a position on with so many values on the stack, no value is put on a stack that
is too high if none is put on one in front of the next branch, and none from there on.

## Main definitions

* `Machine.StaysBelow` — no value is put on a stack that is too high
* `Machine.SafeFrom` — nor from a position on, given how many values there are
* `ListingItem.Uses` — how an item of a listing uses the stack
* `Rises` — how high the stack is behind a listing without branches

## Main results

* `Machine.SafeFrom.step` — one instruction
* `Machine.SafeFrom.of_mem_trail` — what is assumed of the place where a run begins may be used
* `Machine.SafeFrom.rises`, `Machine.SafeFrom.brfalse`, `Machine.SafeFrom.br` — listings
-/

namespace Interpose

namespace Machine

/-- The instruction at a place puts no value on a stack that holds so many. -/
def StaysBelow (m : Machine) (code : Code) (limit : Nat) (a : Place) : Prop :=
  ∀ i, code.instructions[a.position]? = some i → ¬ m.PushesOnto a.frame i limit

/-- A run of a method that begins at a position with so many values on the stack, and that has less
than the given fuel, puts no value on a stack that holds as many as the limit, as long as every place
on its trail is as assumed. -/
def SafeFrom (m : Machine) (code : Code) (assumed : Place → Prop) (limit : Nat) (method : Method)
    (fuel position height : Nat) : Prop :=
  ∀ less < fuel, ∀ f s, f.method = method → f.stack.length = height →
    (∀ a ∈ m.trail code less ⟨position, f, s⟩, assumed a) →
    ∀ a ∈ m.trail code less ⟨position, f, s⟩, m.StaysBelow code limit a

namespace SafeFrom

variable {m : Machine} {code : Code} {assumed : Place → Prop} {limit fuel position height : Nat}
  {method : Method} {i : Instruction}

theorem zero : m.SafeFrom code assumed limit method 0 position height :=
  fun _ less => absurd less (Nat.not_lt_zero _)

theorem mono {fuel' : Nat} (h : m.SafeFrom code assumed limit method fuel' position height)
    (le : fuel ≤ fuel') : m.SafeFrom code assumed limit method fuel position height :=
  fun less lt => h less (Nat.lt_of_lt_of_le lt le)

/-- What is assumed of the place where a run begins may be used. -/
theorem of_mem_trail (h : ∀ f s, f.method = method → f.stack.length = height →
      assumed ⟨position, f, s⟩ → m.SafeFrom code assumed limit method fuel position height) :
    m.SafeFrom code assumed limit method fuel position height := by
  intro less lt f s same length along
  have begins : m.trail code less ⟨position, f, s⟩ = [] ∨
      ⟨position, f, s⟩ ∈ m.trail code less ⟨position, f, s⟩ := trail_eq_nil_or_mem
  rcases begins with none | here
  · -- Where no instruction is run, nothing is put on a stack.
    rw [none]
    exact fun _ member => nomatch member
  · exact h f s same length (along _ here) less lt f s same length along

/-- A run ends where there is no instruction. -/
theorem of_none (none : code.instructions[position]? = none) :
    m.SafeFrom code assumed limit method fuel position height := by
  intro less _ f s _ _ _ a member
  cases less with
  | zero => cases member
  | succ less =>
    rw [trail] at member
    simp [none] at member

/-- An instruction that puts no value on a stack that is too high, and behind which none is put on one
wherever control may go. -/
theorem step (found : code.instructions[position]? = some i) {takes puts : Nat}
    (use : ∀ f, f.method = method → m.stackUse f i = ⟨takes, puts⟩)
    (room : 0 < puts → height < limit + takes)
    (next : takes ≤ height → ∀ target, code.MayGo i position target →
      m.SafeFrom code assumed limit method fuel target (height - takes + puts)) :
    m.SafeFrom code assumed limit method (fuel + 1) position height := by
  intro less lt f s same length
  cases less with
  | zero => exact fun _ _ member => nomatch member
  | succ less =>
    rw [forall_mem_trail_succ, forall_mem_trail_succ]
    intro along i' found' free
    obtain rfl := Option.some.inj (found.symm.trans found')
    refine ⟨fun i' found' => ?_, fun b leads => ?_⟩
    · obtain rfl := Option.some.inj (found.symm.trans found')
      rintro ⟨puts, full⟩
      rw [use f same] at puts full
      have := room puts
      dsimp only at full
      omega
    · obtain ⟨control, stepped, goes⟩ := next?_eq_some_iff.mp leads
      have changes := changes_of_step stepped
      rw [use f same] at changes
      have enough := changes.enough
      have higher := changes.height
      dsimp only at enough higher
      exact next (length ▸ enough) b.position (mayGo_of_step stepped goes) less
        (Nat.lt_of_succ_lt_succ lt) b.frame b.state (changes.method_eq.trans same) (by omega)
        ((along i found free).2 b leads)

end SafeFrom

end Machine

/-- An item of a listing takes values from the stack and puts others on it, and does not branch. -/
structure ListingItem.Uses (m : Machine) (item : ListingItem) (takes puts : Nat) : Prop where
  isLabel_eq : item.isLabel = false
  use : ∀ {labels offset i}, item.instruction? labels offset = some i →
    i.op.isBranch = false ∧ ∀ f, m.stackUse f i = ⟨takes, puts⟩

/-- Behind a listing without branches the stack is as high as it is said to be if it was as high as is
said in front of it, and no value is put on a stack that is too high. -/
inductive Rises (m : Machine) (limit : Nat) : List ListingItem → (height height' : Nat) → Prop
  | nil (height : Nat) : Rises m limit [] height height
  | cons {item : ListingItem} {items : List ListingItem} {takes puts rest height height' : Nat} :
      item.Uses m takes puts → rest + takes = height → (0 < puts → rest < limit) →
      Rises m limit items (rest + puts) height' → Rises m limit (item :: items) height height'

theorem Rises.append {m : Machine} {limit : Nat} {first second : List ListingItem}
    {height height' height'' : Nat} (h : Rises m limit first height height')
    (h' : Rises m limit second height' height'') :
    Rises m limit (first ++ second) height height'' := by
  induction h with
  | nil => exact h'
  | cons uses enough room _ ih => exact .cons uses enough room (ih h')

namespace Machine.SafeFrom

variable {m : Machine} {code : Code} {assumed : Place → Prop} {limit fuel position offset : Nat}
  {height height' : Nat} {method : Method} {labels : String → Option Nat}
  {items tail : List ListingItem} {i : Instruction}

/-- The only way from an item that does not branch is to the one behind it. -/
theorem uses {item : ListingItem} {takes puts : Nat} (uses : item.Uses m takes puts)
    (held : code.Holds labels position offset (item :: tail)) (room : 0 < puts → height < limit + takes)
    (behind : ∀ rest, height = rest + takes →
      m.SafeFrom code assumed limit method fuel (position + 1) (rest + puts)) :
    m.SafeFrom code assumed limit method (fuel + 1) position height := by
  have isSome := ListingItem.isSome_instruction? labels offset item
  rw [uses.isLabel_eq] at isSome
  obtain ⟨i, read⟩ := Option.isSome_iff_exists.mp isSome
  obtain ⟨straight, use⟩ := uses.use read
  refine step (held.getElem? read) (fun f _ => use f) room fun enough _ goes => ?_
  rcases goes with ⟨rfl, -⟩ | ⟨branches, -⟩
  · exact behind _ (Nat.sub_add_cancel enough).symm
  · exact absurd (straight.symm.trans branches) Bool.false_ne_true

/-- Code that does not branch. -/
theorem rises (h : Rises m limit items height height')
    (held : code.Holds labels position offset (items ++ tail))
    (behind : m.SafeFrom code assumed limit method fuel (position + instructionCount items) height') :
    m.SafeFrom code assumed limit method fuel position height := by
  -- On the listing; what is behind it is reached with the height that the listing leaves.
  induction h generalizing position offset with
  | nil => exact behind
  | @cons item items takes puts rest height height' uses enough room _ ih =>
    subst enough
    have count : instructionCount (item :: items) = 1 + instructionCount items := by
      simp [uses.isLabel_eq, Nat.add_comm]
    rw [count, ← Nat.add_assoc] at behind
    refine (SafeFrom.uses uses held (fun some => by have := room some; omega)
      fun rest' same => ?_).mono (Nat.le_succ fuel)
    rw [Nat.add_right_cancel same.symm]
    exact ih (held.tail uses.isLabel_eq) behind

/-- Code that takes values from the stack.  Nothing is run behind it if there are too few of them. -/
theorem drops (takes : ∀ item ∈ items, item.Uses m 1 0)
    (held : code.Holds labels position offset (items ++ tail))
    (behind : ∀ rest, height = rest + items.length →
      m.SafeFrom code assumed limit method fuel (position + instructionCount items) rest) :
    m.SafeFrom code assumed limit method fuel position height := by
  induction items generalizing position offset height with
  | nil => exact behind height rfl
  | cons item items ih =>
    obtain ⟨first, others⟩ := List.forall_mem_cons.mp takes
    have count : instructionCount (item :: items) = 1 + instructionCount items := by
      simp [first.isLabel_eq, Nat.add_comm]
    rw [count, ← Nat.add_assoc] at behind
    refine (uses first held nofun fun rest same => ?_).mono (Nat.le_succ fuel)
    refine ih others (held.tail first.isLabel_eq) fun rest' fewer => behind rest' ?_
    rw [List.length_cons]
    omega

/-- A branch that depends on the topmost value. -/
theorem brfalse {name : String} {destination target : Nat}
    (held : code.Holds labels position offset (.branch .brfalse name :: tail))
    (named : labels name = some destination) (lands : code.indexOf? destination = some target)
    (past : m.SafeFrom code assumed limit method fuel (position + 1) height)
    (there : m.SafeFrom code assumed limit method fuel target height) :
    m.SafeFrom code assumed limit method (fuel + 1) position (height + 1) := by
  refine step (held.getElem? rfl) (fun _ _ => rfl) nofun fun _ _ goes => ?_
  rcases goes with ⟨rfl, -⟩ | ⟨-, _, same, found⟩
  · exact past
  · rw [named] at same
    obtain rfl := Option.some.inj same
    obtain rfl := Option.some.inj (lands.symm.trans found)
    exact there

/-- A branch that is always taken. -/
theorem br {name : String} {destination target : Nat}
    (held : code.Holds labels position offset (.branch .br name :: tail))
    (named : labels name = some destination) (lands : code.indexOf? destination = some target)
    (there : m.SafeFrom code assumed limit method fuel target height) :
    m.SafeFrom code assumed limit method (fuel + 1) position height := by
  refine step (held.getElem? rfl) (fun _ _ => rfl) nofun fun _ _ goes => ?_
  rcases goes with ⟨-, always, -⟩ | ⟨-, _, same, found⟩
  · exact absurd rfl always
  · rw [named] at same
    obtain rfl := Option.some.inj same
    obtain rfl := Option.some.inj (lands.symm.trans found)
    exact there

end Machine.SafeFrom

end Interpose
