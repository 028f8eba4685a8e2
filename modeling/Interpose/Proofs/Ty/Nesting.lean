import Interpose.Proofs.Ty.Codec

/-!
# How deep types may be nested

Every type whose names and numbers can be written has a written form, however deep it is nested.  The
reader counts levels and gives up below the limit, so a written type is read back just if none of its
parts is too deep.  Types that are read have no such parts, and so they survive being written again.

## Main definitions

* `Ty.PartAt` — the parts of a type with their depths
* `Ty.nestedPairs` — types of any depth

## Main results

* `Ty.PartAt.add_depth_le`, `Ty.exists_partAt_depth` — the depth of a type is that of its deepest part
* `Ty.shallow_iff` — a type is shallow if all its parts are within the limit
* `Ty.reads_back_within_limit` — types are read back up to the limit, and refused beyond it
-/

namespace Interpose.Ty

/-- A type is part of another one.  The whole type is at depth zero, and what a composed type is made of
is one deeper than the type itself. -/
inductive PartAt : Nat → Ty → Ty → Prop
  | whole (type : Ty) : PartAt 0 type type
  | generic {depth : Nat} {part generic : Ty} {arguments : List Ty} (h : PartAt depth part generic) :
    PartAt (depth + 1) part (inst generic arguments)
  | argument {depth : Nat} {part generic argument : Ty} {arguments : List Ty}
    (member : argument ∈ arguments) (h : PartAt depth part argument) :
    PartAt (depth + 1) part (inst generic arguments)
  | target {depth : Nat} {part target : Ty} (h : PartAt depth part target) :
    PartAt (depth + 1) part (byRef target)
  | element {depth : Nat} {part element : Ty} (h : PartAt depth part element) :
    PartAt (depth + 1) part (array element)

variable {type part : Ty} {depth : Nat}

theorem depth_le_depthAll {types : List Ty} (member : type ∈ types) : type.depth ≤ depthAll types :=
  Nat.lt_add_one_iff.mp ((depthAll_lt_iff (Nat.succ_pos _) types).mp (Nat.lt_add_one _) type member)

/-- No part reaches deeper than the type it is part of. -/
theorem PartAt.add_depth_le (h : PartAt depth part type) : depth + part.depth ≤ type.depth := by
  induction h with
  | whole => exact Nat.le_of_eq (Nat.zero_add _)
  | generic _ ih =>
    rw [Ty.depth]
    omega
  | argument member _ ih =>
    have within := depth_le_depthAll member
    rw [Ty.depth]
    omega
  | target _ ih =>
    rw [Ty.depth]
    omega
  | element _ ih =>
    rw [Ty.depth]
    omega

mutual

/-- The depth of a type is that of one of its parts. -/
theorem exists_partAt_depth : (type : Ty) → ∃ part, PartAt type.depth part type
  | builtin _ => ⟨_, .whole _⟩
  | classType _ => ⟨_, .whole _⟩
  | valueType _ => ⟨_, .whole _⟩
  | typeParameter _ => ⟨_, .whole _⟩
  | methodParameter _ => ⟨_, .whole _⟩
  | byRef target =>
    have ⟨part, deepest⟩ := exists_partAt_depth target
    ⟨part, .target deepest⟩
  | array element =>
    have ⟨part, deepest⟩ := exists_partAt_depth element
    ⟨part, .element deepest⟩
  | inst generic arguments => by
    rw [depth]
    -- The deepest part is in the argument list only if that is deeper than the generic type.
    obtain larger | smaller := Nat.le_total (depthAll arguments) generic.depth
    · obtain ⟨part, deepest⟩ := exists_partAt_depth generic
      rw [Nat.max_eq_left larger]
      exact ⟨part, .generic deepest⟩
    · rw [Nat.max_eq_right smaller]
      obtain none | ⟨argument, member, part, deepest⟩ := exists_partAt_depthAll arguments
      · obtain ⟨part, deepest⟩ := exists_partAt_depth generic
        rw [none, Nat.le_zero] at smaller
        rw [none, ← smaller]
        exact ⟨part, .generic deepest⟩
      · exact ⟨part, .argument member deepest⟩

theorem exists_partAt_depthAll : (types : List Ty) → depthAll types = 0 ∨
    ∃ type ∈ types, ∃ part, PartAt (depthAll types) part type
  | [] => .inl rfl
  | type :: rest => by
    rw [depthAll]
    obtain larger | smaller := Nat.le_total (depthAll rest) type.depth
    · obtain ⟨part, deepest⟩ := exists_partAt_depth type
      rw [Nat.max_eq_left larger]
      exact .inr ⟨type, List.mem_cons_self, part, deepest⟩
    · rw [Nat.max_eq_right smaller]
      obtain none | ⟨other, member, part, deepest⟩ := exists_partAt_depthAll rest
      · exact .inl none
      · exact .inr ⟨other, List.mem_cons_of_mem _ member, part, deepest⟩

end

/-- A type is shallow if all its parts are within the limit. -/
theorem shallow_iff : type.Shallow ↔ ∀ depth part, PartAt depth part type → depth ≤ nestingLimit := by
  constructor
  · intro shallow depth part inside
    exact Nat.le_trans (Nat.le_of_add_right_le inside.add_depth_le) shallow
  · intro within
    obtain ⟨part, deepest⟩ := exists_partAt_depth type
    exact within _ part deepest

/-- A type that was written is read back if all its parts are within the limit, and the reader stops right
behind it.  If a part is too deep the reader refuses the type for its nesting.  A type that was read can
be written, and is then read back. -/
theorem reads_back_within_limit :
    (∀ (type : Ty) (bytes tail : List UInt8) (c : Cursor),
      type.encode = .ok bytes → c.Faces (bytes ++ tail) →
        ((∀ depth part, PartAt depth part type → depth ≤ nestingLimit) →
          Yields decode c type (c.skip bytes.length)) ∧
        ((∃ depth part, PartAt depth part type ∧ nestingLimit < depth) →
          ∃ c', Fails decode c (.malformed (.typeNesting nestingLimit)) c')) ∧
    ∀ (type : Ty) (c c' : Cursor), Yields decode c type c' →
      ∃ bytes, type.encode = .ok bytes ∧ ∀ (c : Cursor) (tail : List UInt8),
        c.Faces (bytes ++ tail) → Yields decode c type (c.skip bytes.length) := by
  constructor
  · intro type bytes tail c written faces
    have read := takesOr_decode written
    constructor
    · intro within
      exact read.takes (shallow_iff.mpr within) faces
    · rintro ⟨depth, part, inside, deep⟩
      have notShallow : ¬ type.Shallow := fun shallow =>
        Nat.not_le.mpr deep (shallow_iff.mp shallow depth part inside)
      obtain ⟨e, c', rfl, fails⟩ := read.refuses notShallow faces
      exact ⟨c', fails⟩
  · intro type c c' read
    obtain ⟨⟨bytes, written⟩, shallow⟩ := gives_decode read
    exact ⟨bytes, written, fun _ _ faces => (takesOr_decode written).takes shallow faces⟩

/-- Arrays of arrays, and so on, of pairs of a type parameter and a class. -/
def nestedPairs : (arrays : Nat) → Ty
  | 0 => inst (valueType "Demo.Pair") [typeParameter 1, classType "Demo.Entry"]
  | arrays + 1 => array (nestedPairs arrays)

/-- The pairs have parts at depth one, so there is room for one array less than there are levels. -/
theorem reads_back_within_limit_pairs : ∃ bytes bytes',
    (nestedPairs 31).encode = .ok bytes ∧ (nestedPairs 32).encode = .ok bytes' ∧
      Yields decode (.ofBytes (bytes ++ [0x2A])) (nestedPairs 31)
        ((Cursor.ofBytes (bytes ++ [0x2A])).skip bytes.length) ∧
      (∃ c', Fails decode (.ofBytes (bytes' ++ [0x2A])) (.malformed (.typeNesting nestingLimit)) c') ∧
      ∃ again, (nestedPairs 31).encode = .ok again := by
  obtain ⟨back, rewritten⟩ := reads_back_within_limit
  have deep : ∃ part, PartAt 33 part (nestedPairs 32) := exists_partAt_depth (nestedPairs 32)
  obtain ⟨part, inside⟩ := deep
  have read := (back (nestedPairs 31) _ [0x2A] _ rfl (Cursor.faces_ofBytes _)).1
    (shallow_iff.mp (by decide))
  obtain ⟨again, written, -⟩ := rewritten _ _ _ read
  exact ⟨_, _, rfl, rfl, read,
    (back (nestedPairs 32) _ [0x2A] _ rfl (Cursor.faces_ofBytes _)).2
      ⟨33, part, inside, by decide⟩, again, written⟩

end Interpose.Ty
