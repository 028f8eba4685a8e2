import Interpose.Ty.Instantiation

/-!
# Assignability

When a value of one type can be held as one of another.  Types whose definitions are known take part
in a hierarchy of base types and interfaces; type parameters stand for any type.

## Main definitions

* `Hierarchy` — base type and interfaces of each type
* `Hierarchy.ancestors` — what a bounded walk up the hierarchy finds
* `Ty.assignableFrom` — assignability
-/

namespace Interpose

/-- The base type and the interfaces of each type, as far as they are known. -/
structure Hierarchy where
  base : Ty → Option Ty
  interfaces : Ty → List Ty

namespace Hierarchy

/-- The hierarchy in which nothing is known. -/
def unknown : Hierarchy := ⟨fun _ => none, fun _ => []⟩

/-- The types directly above a type: its base type and its interfaces. -/
def parents (h : Hierarchy) (type : Ty) : List Ty :=
  let base :=
    match type with
    | .string | .array _ => some Ty.object
    | _ => h.base type
  base.toList ++ h.interfaces type

/-- A walk goes on only while it has found at most so many types. -/
def ancestorLimit : Nat := 64

/-- Adds a type to those found and to those still to be visited, unless it was found before. -/
def visit (state : List Ty × List Ty) (type : Ty) : List Ty × List Ty :=
  if type ∈ state.1 then state else (state.1 ++ [type], type :: state.2)

/-- Walks up from the types of `pending`, the last one added first, and adds what it meets to
`found`. -/
def walk (h : Hierarchy) : (fuel : Nat) → (found pending : List Ty) → List Ty
  | 0, found, _ => found
  | _ + 1, found, [] => found
  | fuel + 1, found, type :: pending =>
    -- The limit counts what was found, not how far up the walk has come.
    if ancestorLimit < found.length then found
    else
      let next := (h.parents type).foldl visit (found, pending)
      h.walk fuel next.1 next.2

/-- The types above a type.  Every visit but the first is of a type found before it, so a walk that
found at most `ancestorLimit` types has made no more visits than that and one. -/
def ancestors (h : Hierarchy) (type : Ty) : List Ty :=
  h.walk (ancestorLimit + 2) [] [type]

end Hierarchy

namespace Ty

/-- Whether the type is the type of values at all, and not of storage or of nothing. -/
def isValueLike : Ty → Bool
  | void | byRef _ => false
  | _ => true

/-- Whether a value of type `source` can be held as one of type `target`. -/
def assignableFrom (h : Hierarchy) (target source : Ty) : Bool :=
  if target = source then true
  else
    match target with
    | void => false
    | typeParameter _ | methodParameter _ | object => source.isValueLike
    | byRef inner =>
      match source with
      | byRef other => inner.isGenericParameter || other.isGenericParameter || inner = other
      | _ => false
    | array element =>
      match source with
      | array other =>
        !element.isValueType && !other.isValueType && element.assignableFrom h other
      | typeParameter _ | methodParameter _ => true
      | _ => false
    | _ =>
      if source.isGenericParameter then true
      -- Values held in place are never held as one of another type without being wrapped.
      else if target.isValueType || source.isValueType then false
      else (h.ancestors source).any (· = target)

end Ty

end Interpose
