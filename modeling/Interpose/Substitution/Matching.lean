import Interpose.Method
import Interpose.Ty.Assignability

/-!
# Matching methods by signature

Which method of a list can stand in for another one.  A candidate has to meet every requirement; of
those that do, the first with the highest score wins.

## Main definitions

* `Requirements` — what is asked of a candidate
* `Requirements.close?` — a candidate with the type arguments of the call
* `Requirements.accepts`, `Requirements.score` — the requirements, and what counts in favour
* `Requirements.best?` — the winner among candidates
* `Method.canReplace` — whether one method can stand in for another
-/

namespace Interpose

/-- What is asked of a candidate. -/
structure Requirements where
  /-- The name in favour of which it counts to have it. -/
  name : Option String := none
  /-- The types of the arguments; nothing is asked of a parameter without one. -/
  parameters : List (Option Ty) := []
  /-- The type arguments of the call. -/
  typeArguments : List Ty := []
  /-- The type that the result must be able to hold. -/
  returnType : Option Ty := none
deriving DecidableEq, Repr, Inhabited

/-- The winner among candidates. -/
structure Match where
  index : Nat
  candidate : Method
  /-- The candidate with the type arguments of the call. -/
  closed : Method
  score : Nat
deriving DecidableEq, Repr

namespace Requirements

/-- What a call of the given method asks of a candidate. -/
def ofMethod (m : Method) : Requirements where
  name := some m.name
  parameters := m.parameters.map some
  typeArguments := m.typeArguments
  returnType := some m.resultType

/-- The candidate with the type arguments of the call, if it takes so many and has no others. -/
def close? (r : Requirements) (candidate : Method) : Option Method :=
  if r.typeArguments.isEmpty then some candidate
  else if candidate.genericArity.toNat ≠ r.typeArguments.length then none
  else if candidate.isGenericDefinition then some (candidate.instantiate r.typeArguments)
  else if candidate.typeArguments = r.typeArguments then some candidate
  else none

/-- Whether the parameters can take the arguments. -/
def acceptsParameters (h : Hierarchy) :
    (arguments : List (Option Ty)) → (parameters : List Ty) → Bool
  | [], [] => true
  | argument :: arguments, parameter :: parameters =>
    (match argument with
      | some type => parameter.assignableFrom h type
      | none => true) && acceptsParameters h arguments parameters
  | _, _ => false

/-- Whether the result type of a method can hold the type that is asked for. -/
def acceptsResult (h : Hierarchy) (r : Requirements) (method : Method) : Bool :=
  match r.returnType with
  | some expected => method.resultType = expected || method.resultType.assignableFrom h expected
  | none => true

/-- Whether a method with the right type arguments meets every requirement. -/
def accepts (h : Hierarchy) (r : Requirements) (method : Method) : Bool :=
  acceptsParameters h r.parameters method.parameters && r.acceptsResult h method

/-- One point for a method of the name asked for. -/
def score (r : Requirements) (method : Method) : Nat := if r.name = some method.name then 1 else 0

/-- The better of the winner so far and one more candidate. -/
def improve (h : Hierarchy) (r : Requirements) (best : Option Match) (candidate : Method)
    (index : Nat) : Option Match :=
  match r.close? candidate with
  | none => best
  | some closed =>
    if !r.accepts h closed then best
    else
      -- Only a higher score displaces the winner so far, so of equals the first one stays.
      let challenger : Match := ⟨index, candidate, closed, r.score closed⟩
      match best with
      | some current => if current.score < challenger.score then some challenger else best
      | none => some challenger

/-- The winner among candidates: of those that meet every requirement, the first with the highest
score. -/
def best? (h : Hierarchy) (r : Requirements) (candidates : List Method) : Option Match :=
  candidates.zipIdx.foldl (fun best (candidate, index) => r.improve h best candidate index) none

end Requirements

/-- Whether a method can stand in for the target. -/
def Method.canReplace (h : Hierarchy) (candidate target : Method) : Bool :=
  ((Requirements.ofMethod target).best? h [candidate]).isSome

end Interpose
