import Interpose.Proofs.Substitution.Matching

/-!
# The first best candidate

What wins among candidates, said without the way in which matching goes through them.  A candidate
meets the requirements as the method that it becomes with the type arguments of the call.  Of those
that do, the winner is the first one with the highest score; the others might as well not be there.

## Main definitions

* `Requirements.MeetsAs` — a candidate meets the requirements as a given method
* `Requirements.Wins` — a match is the first best of the candidates
* `Requirements.Leads` — what comparing the candidates one after the other keeps

## Main results

* `acceptsParameters_iff_getElem?`, `close?_eq_some_iff` — what is asked of parameters and of type
  arguments
* `meets_iff` — a candidate meets the requirements just if it does so as some method
* `best?_eq_some_iff`, `best?_eq_none_iff` — the first best candidate wins, and if nothing wins no
  candidate meets the requirements
* `best?_thinned` — candidates that do not meet the requirements do not decide who wins
* `first_best_wins` — all of that
-/

namespace Interpose.Requirements

variable {h : Hierarchy} {r : Requirements} {candidates : List Method} {c closed : Method}
  {winner : Match}

/-- A candidate meets the requirements as the method that it becomes with the type arguments of the
call. -/
structure MeetsAs (h : Hierarchy) (r : Requirements) (c closed : Method) : Prop where
  /-- A call without type arguments takes a candidate as it is. -/
  unchanged : r.typeArguments = [] → closed = c
  /-- Otherwise the candidate has to take so many.  It is given them, or it has the very same. -/
  given : r.typeArguments ≠ [] → c.genericArity.toNat = r.typeArguments.length ∧
    (c.typeArguments = [] ∧ closed = c.instantiate r.typeArguments ∨
      c.typeArguments = r.typeArguments ∧ closed = c)
  /-- It has as many parameters as the call has arguments. -/
  arity : closed.parameters.length = r.parameters.length
  /-- Each parameter can hold the argument at its position, if a type is known for that. -/
  takes (position : Nat) (argument parameter : Ty) :
    r.parameters[position]? = some (some argument) → closed.parameters[position]? = some parameter →
      parameter.assignableFrom h argument = true
  /-- Its result is of the type that is asked for, if any, or can hold one of it. -/
  result (expected : Ty) : r.returnType = some expected →
    closed.resultType = expected ∨ closed.resultType.assignableFrom h expected = true

/-- A match is the first best of the candidates. -/
structure Wins (h : Hierarchy) (r : Requirements) (candidates : List Method) (winner : Match) :
    Prop where
  /-- It is the candidate at its position. -/
  place : candidates[winner.index]? = some winner.candidate
  meetsAs : r.MeetsAs h winner.candidate winner.closed
  /-- A name that is asked for counts one point, and nothing else counts. -/
  scored : winner.score = if r.name = some winner.candidate.name then 1 else 0
  /-- No candidate that meets the requirements has a higher score. -/
  highest (position : Nat) (c closed : Method) : candidates[position]? = some c →
    r.MeetsAs h c closed → (if r.name = some c.name then 1 else 0) ≤ winner.score
  /-- One in front of the winner has a lower score. -/
  first (position : Nat) (c closed : Method) : candidates[position]? = some c →
    r.MeetsAs h c closed → position < winner.index →
      (if r.name = some c.name then 1 else 0) < winner.score

/-- Parameters are compared with arguments position by position. -/
theorem acceptsParameters_iff_getElem? {arguments : List (Option Ty)} {parameters : List Ty} :
    acceptsParameters h arguments parameters = true ↔ parameters.length = arguments.length ∧
      ∀ (position : Nat) (argument parameter : Ty), arguments[position]? = some (some argument) →
        parameters[position]? = some parameter → parameter.assignableFrom h argument = true := by
  induction arguments generalizing parameters with
  | nil => cases parameters <;> simp [acceptsParameters]
  | cons argument arguments ih =>
    cases parameters with
    | nil => simp [acceptsParameters]
    | cons parameter parameters =>
      -- The first position is compared here, and the others are those of the rest.
      simp only [acceptsParameters, Bool.and_eq_true, ih, List.length_cons, Nat.add_right_cancel_iff]
      constructor
      · rintro ⟨first, count, others⟩
        refine ⟨count, fun position => ?_⟩
        cases position with
        | zero =>
          rintro type _ ⟨⟩ ⟨⟩
          exact first
        | succ position => exact others position
      · rintro ⟨count, all⟩
        refine ⟨?_, count, fun position => all (position + 1)⟩
        cases argument with
        | none => rfl
        | some type => exact all 0 type parameter rfl rfl

/-- Type arguments are filled in, or the candidate has the very same already. -/
theorem close?_eq_some_iff : r.close? c = some closed ↔
    (r.typeArguments = [] → closed = c) ∧
      (r.typeArguments ≠ [] → c.genericArity.toNat = r.typeArguments.length ∧
        (c.typeArguments = [] ∧ closed = c.instantiate r.typeArguments ∨
          c.typeArguments = r.typeArguments ∧ closed = c)) := by
  unfold close?
  by_cases plain : r.typeArguments = []
  · simpa [plain] using eq_comm
  by_cases arity : c.genericArity.toNat = r.typeArguments.length
  · -- A method that takes type arguments is a definition just if it has been given none.
    have generic : c.isGenericDefinition = c.typeArguments.isEmpty := by
      have some : 0 < r.typeArguments.length := List.length_pos_iff.mpr plain
      have takes : 0 < c.genericArity := UInt32.lt_iff_toNat_lt.mpr (arity ▸ some)
      rw [Method.isGenericDefinition, decide_eq_true takes, Bool.true_and]
    by_cases given : c.typeArguments = []
    · have other : ¬ [] = r.typeArguments := fun same => plain same.symm
      simpa [plain, arity, generic, given, other] using eq_comm
    · simpa [plain, arity, generic, given] using fun _ => eq_comm
  · simp [plain, arity]

/-- A candidate meets the requirements as a method just if it becomes this method and that is
accepted. -/
theorem meetsAs_iff :
    r.MeetsAs h c closed ↔ r.close? c = some closed ∧ r.accepts h closed = true := by
  have result : r.acceptsResult h closed = true ↔ ∀ expected, r.returnType = some expected →
      closed.resultType = expected ∨ closed.resultType.assignableFrom h expected = true := by
    unfold acceptsResult
    cases r.returnType <;> simp
  rw [close?_eq_some_iff, accepts, Bool.and_eq_true, acceptsParameters_iff_getElem?, result]
  constructor
  · intro met
    exact ⟨⟨met.unchanged, met.given⟩, ⟨met.arity, met.takes⟩, met.result⟩
  · rintro ⟨⟨unchanged, given⟩, ⟨arity, takes⟩, result⟩
    exact ⟨unchanged, given, arity, takes, result⟩

/-- A candidate meets the requirements just if it does so as some method. -/
theorem meets_iff : r.meets h c = true ↔ ∃ closed, r.MeetsAs h c closed := by
  simp only [meets, Option.any_eq_true, meetsAs_iff]

/-- A candidate behind others is one of them or it is the last. -/
private theorem getElem?_concat_eq_some_iff {front : List Method} {last : Method} {position : Nat} :
    (front ++ [last])[position]? = some c ↔
      front[position]? = some c ∨ position = front.length ∧ last = c := by
  obtain inside | outside := Nat.lt_or_ge position front.length
  · rw [List.getElem?_append_left inside]
    have other : position ≠ front.length := Nat.ne_of_lt inside
    simp [other]
  · rw [List.getElem?_append_right outside, List.getElem?_eq_none outside, List.getElem?_singleton]
    have last : position - front.length = 0 ↔ position = front.length := by omega
    simp [last]

/-- What is true of the winner so far, when the given candidates have been compared. -/
def Leads (h : Hierarchy) (r : Requirements) (candidates : List Method) : Option Match → Prop
  | none => ∀ c ∈ candidates, ∀ closed, ¬ r.MeetsAs h c closed
  | some winner => r.Wins h candidates winner

/-- One more candidate does not decide who wins if it does not meet the requirements. -/
theorem Leads.concat_of_not_meets {best : Option Match} (leads : r.Leads h candidates best)
    (fails : r.meets h c = false) : r.Leads h (candidates ++ [c]) best := by
  have strays (closed : Method) : ¬ r.MeetsAs h c closed := fun met =>
    Bool.false_ne_true (fails.symm.trans (meets_iff.mpr ⟨closed, met⟩))
  cases best with
  | none =>
    intro other member
    obtain earlier | last := List.mem_append.mp member
    · exact leads other earlier
    · exact List.mem_singleton.mp last ▸ strays
  | some winner =>
    have wins : r.Wins h candidates winner := leads
    refine ⟨getElem?_concat_eq_some_iff.mpr (.inl wins.place), wins.meetsAs, wins.scored, ?_, ?_⟩
    · intro position other closed there met
      obtain earlier | ⟨-, rfl⟩ := getElem?_concat_eq_some_iff.mp there
      · exact wins.highest position other closed earlier met
      · exact absurd met (strays closed)
    · intro position other closed there met ahead
      obtain earlier | ⟨-, rfl⟩ := getElem?_concat_eq_some_iff.mp there
      · exact wins.first position other closed earlier met ahead
      · exact absurd met (strays closed)

/-- A candidate that meets the requirements wins if all in front of it have lower scores. -/
theorem Wins.challenger (met : r.MeetsAs h c closed)
    (lower : ∀ (position : Nat) (other closed' : Method), candidates[position]? = some other →
      r.MeetsAs h other closed' → (if r.name = some other.name then 1 else 0) < r.score closed) :
    r.Wins h (candidates ++ [c]) ⟨candidates.length, c, closed, r.score closed⟩ := by
  have scored := score_of_close? (meetsAs_iff.mp met).1
  refine ⟨getElem?_concat_eq_some_iff.mpr (.inr ⟨rfl, rfl⟩), met, scored, ?_, ?_⟩
  · intro position other closed' there met'
    obtain earlier | ⟨-, rfl⟩ := getElem?_concat_eq_some_iff.mp there
    · exact Nat.le_of_lt (lower position other closed' earlier met')
    · exact Nat.le_of_eq scored.symm
  · intro position other closed' there met' ahead
    obtain earlier | ⟨last, -⟩ := getElem?_concat_eq_some_iff.mp there
    · exact lower position other closed' earlier met'
    · exact absurd last (Nat.ne_of_lt ahead)

/-- The winner so far stays if the score of one more candidate is not higher. -/
theorem Wins.concat_of_not_lt (wins : r.Wins h candidates winner) (met : r.MeetsAs h c closed)
    (notHigher : ¬ winner.score < r.score closed) : r.Wins h (candidates ++ [c]) winner := by
  have inside : winner.index < candidates.length := (List.getElem?_eq_some_iff.mp wins.place).1
  refine ⟨getElem?_concat_eq_some_iff.mpr (.inl wins.place), wins.meetsAs, wins.scored, ?_, ?_⟩
  · intro position other closed' there met'
    obtain earlier | ⟨-, rfl⟩ := getElem?_concat_eq_some_iff.mp there
    · exact wins.highest position other closed' earlier met'
    · rw [← score_of_close? (meetsAs_iff.mp met).1]
      exact Nat.le_of_not_lt notHigher
  · intro position other closed' there met' ahead
    obtain earlier | ⟨last, -⟩ := getElem?_concat_eq_some_iff.mp there
    · exact wins.first position other closed' earlier met' ahead
    · -- The last candidate is not in front of a winner that was found earlier.
      omega

/-- Comparing one more candidate keeps what is true of the winner so far. -/
theorem Leads.improve {best : Option Match} (leads : r.Leads h candidates best) :
    r.Leads h (candidates ++ [c]) (r.improve h best c candidates.length) := by
  cases does : r.meets h c with
  | false =>
    rw [improve_of_not_meets does]
    exact leads.concat_of_not_meets does
  | true =>
    have meetsAs {method : Method} (closes : r.close? c = some method) : r.MeetsAs h c method := by
      rw [meets, closes, Option.any_some] at does
      exact meetsAs_iff.mpr ⟨closes, does⟩
    cases best with
    | none =>
      obtain ⟨method, closes, improved⟩ := improve_none_of_meets candidates.length does
      rw [improved]
      apply Wins.challenger (meetsAs closes)
      -- Nothing before the candidate meets the requirements, or there would be a winner.
      intro position other closed there met
      exact absurd met (leads other (List.mem_of_getElem? there) closed)
    | some winner =>
      have wins : r.Wins h candidates winner := leads
      obtain ⟨method, closes, improved⟩ := improve_some_of_meets winner candidates.length does
      rw [improved]
      split
      next higher =>
        apply Wins.challenger (meetsAs closes)
        intro position other closed there met
        exact Nat.lt_of_le_of_lt (wins.highest position other closed there met) higher
      next notHigher => exact wins.concat_of_not_lt (meetsAs closes) notHigher

/-- So it is true of the winner in the end. -/
theorem leads_best? (h : Hierarchy) (r : Requirements) (candidates : List Method) :
    r.Leads h candidates (r.best? h candidates) := by
  -- Candidates are compared from the first one on, so the induction is on the last one.
  induction candidates using List.reverseRecOn with
  | nil =>
    intro c member
    cases member
  | append_singleton front c ih =>
    rw [best?_concat]
    exact ih.improve

/-- A candidate becomes one method only. -/
theorem MeetsAs.unique {closed' : Method} (met : r.MeetsAs h c closed)
    (met' : r.MeetsAs h c closed') : closed = closed' :=
  Option.some.inj ((meetsAs_iff.mp met).1.symm.trans (meetsAs_iff.mp met').1)

/-- There is only one first best candidate. -/
theorem Wins.unique {winner' : Match} (wins : r.Wins h candidates winner)
    (wins' : r.Wins h candidates winner') : winner = winner' := by
  -- If one were in front of the other, it would have a lower score and not a lower one.
  have behind {a b : Match} (winsA : r.Wins h candidates a) (winsB : r.Wins h candidates b) :
      a.index ≤ b.index := by
    apply Nat.le_of_not_lt
    intro ahead
    have lower := winsA.first _ _ _ winsB.place winsB.meetsAs ahead
    have atLeast := winsB.highest _ _ _ winsA.place winsA.meetsAs
    rw [← winsB.scored] at lower
    rw [← winsA.scored] at atLeast
    omega
  have index : winner.index = winner'.index := Nat.le_antisymm (behind wins wins') (behind wins' wins)
  have candidate : winner.candidate = winner'.candidate := by
    apply Option.some.inj
    rw [← wins.place, ← wins'.place, index]
  have closed : winner.closed = winner'.closed :=
    wins.meetsAs.unique (candidate ▸ wins'.meetsAs)
  have score : winner.score = winner'.score := by rw [wins.scored, wins'.scored, candidate]
  obtain ⟨_, _, _, _⟩ := winner
  obtain ⟨_, _, _, _⟩ := winner'
  exact Match.mk.injEq .. |>.mpr ⟨index, candidate, closed, score⟩

/-- The first best candidate wins. -/
theorem best?_eq_some_iff : r.best? h candidates = some winner ↔ r.Wins h candidates winner := by
  have leads := leads_best? h r candidates
  cases found : r.best? h candidates with
  | none =>
    rw [found] at leads
    simp only [reduceCtorEq, false_iff]
    intro wins
    exact leads _ (List.mem_of_getElem? wins.place) _ wins.meetsAs
  | some winner' =>
    rw [found] at leads
    rw [Option.some.injEq]
    constructor
    · rintro rfl
      exact leads
    · exact Wins.unique leads

/-- Nothing wins just if no candidate meets the requirements. -/
theorem best?_eq_none_iff : r.best? h candidates = none ↔
    ∀ c ∈ candidates, ∀ closed, ¬ r.MeetsAs h c closed := by
  have leads := leads_best? h r candidates
  cases found : r.best? h candidates with
  | none =>
    rw [found] at leads
    exact iff_of_true rfl leads
  | some winner =>
    rw [found] at leads
    have wins : r.Wins h candidates winner := leads
    apply iff_of_false (Option.some_ne_none _)
    intro strays
    exact strays _ (List.mem_of_getElem? wins.place) _ wins.meetsAs

section Thinned

variable {kept : List (Method × Nat)}

/-- What is kept of the candidates has them in their order. -/
theorem position_lt_of_kept (sublist : kept.Sublist candidates.zipIdx) {i j : Nat}
    {entry other : Method × Nat} (there : kept[i]? = some entry) (behind : kept[j]? = some other)
    (ahead : i < j) : entry.2 < other.2 := by
  have increasing : candidates.zipIdx.Pairwise fun a b => a.2 < b.2 := by
    apply List.pairwise_map.mp
    rw [List.zipIdx_map_snd]
    exact List.pairwise_lt_range'
  obtain ⟨insideI, rfl⟩ := List.getElem?_eq_some_iff.mp there
  obtain ⟨insideJ, rfl⟩ := List.getElem?_eq_some_iff.mp behind
  exact List.pairwise_iff_getElem.mp (increasing.sublist sublist) i j insideI insideJ ahead

/-- The first best candidate is the first best of those that are kept, if all that meet the requirements
are among these. -/
theorem Wins.thinned (sublist : kept.Sublist candidates.zipIdx)
    (all : ∀ entry ∈ candidates.zipIdx, ∀ closed, r.MeetsAs h entry.1 closed → entry ∈ kept)
    (wins : r.Wins h candidates winner) : ∃ position,
      kept[position]? = some (winner.candidate, winner.index) ∧
        r.Wins h (kept.map Prod.fst) { winner with index := position } := by
  have listed : (winner.candidate, winner.index) ∈ kept :=
    all _ (List.mk_mem_zipIdx_iff_getElem?.mpr wins.place) winner.closed wins.meetsAs
  obtain ⟨position, place⟩ := List.mem_iff_getElem?.mp listed
  -- Each candidate that is kept is among all candidates, at the position that was kept with it.
  have original {place : Nat} {c : Method} (there : (kept.map Prod.fst)[place]? = some c) :
      ∃ index, kept[place]? = some (c, index) ∧ candidates[index]? = some c := by
    rw [List.getElem?_map] at there
    obtain ⟨⟨_, index⟩, entry, rfl⟩ := Option.map_eq_some_iff.mp there
    have listed := sublist.mem (List.mem_of_getElem? entry)
    exact ⟨index, entry, List.mk_mem_zipIdx_iff_getElem?.mp listed⟩
  refine ⟨position, place, ?_, wins.meetsAs, wins.scored, ?_, ?_⟩
  · rw [List.getElem?_map, place]
    rfl
  · intro place c closed there met
    obtain ⟨index, -, candidate⟩ := original there
    exact wins.highest index c closed candidate met
  · intro earlier c closed there met ahead
    obtain ⟨index, entry, candidate⟩ := original there
    exact wins.first index c closed candidate met (position_lt_of_kept sublist entry place ahead)

/-- Candidates that do not meet the requirements do not decide who wins. -/
theorem best?_thinned (sublist : kept.Sublist candidates.zipIdx)
    (all : ∀ entry ∈ candidates.zipIdx, ∀ closed, r.MeetsAs h entry.1 closed → entry ∈ kept) :
    (r.best? h (kept.map Prod.fst)).map
        (fun winner => (kept[winner.index]?, winner.closed, winner.score)) =
      (r.best? h candidates).map
        fun winner => (some (winner.candidate, winner.index), winner.closed, winner.score) := by
  cases found : r.best? h candidates with
  | none =>
    have nothing : r.best? h (kept.map Prod.fst) = none := by
      rw [best?_eq_none_iff] at found ⊢
      intro c member
      obtain ⟨entry, inside, rfl⟩ := List.mem_map.mp member
      apply found
      exact List.mem_of_getElem? (List.mem_zipIdx_iff_getElem?.mp (sublist.mem inside))
    rw [nothing]
    rfl
  | some winner =>
    obtain ⟨position, place, wins⟩ := (best?_eq_some_iff.mp found).thinned sublist all
    rw [best?_eq_some_iff.mpr wins, Option.map_some, Option.map_some, place]

end Thinned

/-- Nothing wins just if no candidate meets the requirements.  Otherwise the winner is a candidate that
meets them with the highest score and a higher one than all of those in front of it, and comes with the
type arguments of the call.  If candidates that do not meet the requirements are left out, the same
candidate wins. -/
theorem first_best_wins (h : Hierarchy) (r : Requirements) (candidates : List Method) :
    (r.best? h candidates = none ↔ ∀ c ∈ candidates, ∀ closed, ¬ r.MeetsAs h c closed) ∧
    (∀ winner, r.best? h candidates = some winner ↔ r.Wins h candidates winner) ∧
    ∀ kept : List (Method × Nat), kept.Sublist candidates.zipIdx →
      (∀ entry ∈ candidates.zipIdx, ∀ closed, r.MeetsAs h entry.1 closed → entry ∈ kept) →
      (r.best? h (kept.map Prod.fst)).map
          (fun winner => (kept[winner.index]?, winner.closed, winner.score)) =
        (r.best? h candidates).map
          fun winner => (some (winner.candidate, winner.index), winner.closed, winner.score) :=
  ⟨best?_eq_none_iff, fun _ => best?_eq_some_iff, fun _ => best?_thinned⟩

/-- A method of the given name with one parameter. -/
def printer (name : String) (parameter : Ty) : Method where
  declaringType := .classType "Demo.Console"
  name
  parameters := [parameter]
  flags := .isStatic

/-- Candidates for a call that prints a text.  The second one takes no texts. -/
def printers : List Method :=
  [printer "Print" .object, printer "Write" .int32, printer "Write" .object, printer "Write" .string]

/-- The candidates without the one that takes no texts. -/
def textPrinters : List (Method × Nat) :=
  [(printer "Print" .object, 0), (printer "Write" .object, 2), (printer "Write" .string, 3)]

theorem first_best_wins_printers :
    let r := ofMethod (printer "Write" .string)
    r.Wins .unknown printers ⟨2, printer "Write" .object, printer "Write" .object, 1⟩ ∧
      textPrinters.Sublist printers.zipIdx ∧
      (r.best? .unknown (textPrinters.map Prod.fst)).map
          (fun winner => (textPrinters[winner.index]?, winner.closed, winner.score)) =
        some (some (printer "Write" .object, 2), printer "Write" .object, 1) := by
  intro r
  obtain ⟨-, wins, thinned⟩ := first_best_wins .unknown r printers
  have found : r.best? .unknown printers =
      some ⟨2, printer "Write" .object, printer "Write" .object, 1⟩ := by
    decide
  have sublist : textPrinters.Sublist printers.zipIdx := by decide
  have all : ∀ entry ∈ printers.zipIdx, r.meets .unknown entry.1 = true → entry ∈ textPrinters := by
    decide
  refine ⟨(wins _).mp found, sublist, ?_⟩
  rw [thinned textPrinters sublist fun entry member closed met =>
    all entry member (meets_iff.mpr ⟨closed, met⟩), found]
  rfl

end Interpose.Requirements
