import Interpose.Error

/-!
# Outcomes of computations

Reading, editing, emitting and running are all computations that change a state and may fail.  This
file says when such a computation succeeds, and how the success of a sequence of computations is made
of the successes of its members.

## Main definitions

* `Yields`, `Fails` — a computation succeeds with a value, or fails, and leaves a state
* `YieldsWith` — the same where a second state is carried along

## Main results

* `Yields.unique`, `Yields.not_fails`, `YieldsWith.unique` — a computation has one outcome
* `yields_bind`, `yieldsWith_bind` — a sequence succeeds just if its members do
* `fails_bind` — a sequence fails just if one of its members does
-/

namespace Interpose

variable {σ τ α β : Type}

/-- A computation that is started in the state `s` succeeds with the value `a` in the state `s'`. -/
def Yields (x : ExceptT Error (StateM σ) α) (s : σ) (a : α) (s' : σ) : Prop :=
  x.run.run s = (.ok a, s')

/-- A computation that is started in the state `s` fails with the error `e` in the state `s'`. -/
def Fails (x : ExceptT Error (StateM σ) α) (s : σ) (e : Error) (s' : σ) : Prop :=
  x.run.run s = (.error e, s')

/-- A computation with a second state succeeds. -/
def YieldsWith (x : StateT τ (ExceptT Error (StateM σ)) α) (t : τ) (s : σ) (a : α) (t' : τ)
    (s' : σ) : Prop :=
  Yields (x.run t) s (a, t') s'

section One

variable {x : ExceptT Error (StateM σ) α} {k : α → ExceptT Error (StateM σ) β}
  {s s' s'' : σ} {a a' : α} {b : β}

theorem Yields.unique (h : Yields x s a s') (h' : Yields x s a' s'') : a = a' ∧ s' = s'' := by
  have same : (Except.ok (ε := Error) a, s') = (.ok a', s'') := h.symm.trans h'
  injection same with value state
  exact ⟨Except.ok.inj value, state⟩

theorem Yields.not_fails (h : Yields x s a s') {e : Error} : ¬ Fails x s e s'' := by
  intro fails
  cases h.symm.trans fails

theorem fails_of_error {e : Error} (failed : (x.run.run s).1 = .error e) :
    Fails x s e (x.run.run s).2 := Prod.ext failed rfl

theorem yields_or_fails (x : ExceptT Error (StateM σ) α) (s : σ) :
    (∃ a s', Yields x s a s') ∨ ∃ e s', Fails x s e s' := by
  rcases outcome : x.run.run s with ⟨e | a, s'⟩
  · exact .inr ⟨e, s', outcome⟩
  · exact .inl ⟨a, s', outcome⟩

theorem yields_bind :
    Yields (x >>= k) s b s'' ↔ ∃ a s', Yields x s a s' ∧ Yields (k a) s' b s'' := by
  simp only [Yields, ExceptT.run_bind, StateT.run_bind]
  constructor
  · intro h
    rcases hx : x.run.run s with ⟨result, s₁⟩
    rw [hx] at h
    cases result with
    | ok a => exact ⟨a, s₁, rfl, h⟩
    | error e => cases h
  · rintro ⟨a, s', hx, hk⟩
    rw [hx]
    exact hk

theorem Yields.bind (hx : Yields x s a s') (hk : Yields (k a) s' b s'') : Yields (x >>= k) s b s'' :=
  yields_bind.mpr ⟨a, s', hx, hk⟩

/-- A sequence goes on where its first member ends, whether the rest succeeds or not. -/
theorem Yields.run_bind (h : Yields x s a s') : (x >>= k).run.run s = (k a).run.run s' := by
  have first : x.run.run s = (.ok a, s') := h
  rw [ExceptT.run_bind, StateT.run_bind, first]
  rfl

/-- Sequences that agree in their first member agree. -/
theorem run_bind_congr {y : ExceptT Error (StateM σ) α} (h : x.run.run s = y.run.run s') :
    (x >>= k).run.run s = (y >>= k).run.run s' := by
  rw [ExceptT.run_bind, ExceptT.run_bind, StateT.run_bind, StateT.run_bind, h]

theorem yields_pure : Yields (pure a : ExceptT Error (StateM σ) α) s a' s' ↔ a = a' ∧ s = s' := by
  constructor
  · intro h
    cases h
    exact ⟨rfl, rfl⟩
  · rintro ⟨rfl, rfl⟩
    rfl

theorem yields_map {f : α → β} :
    Yields (f <$> x) s b s' ↔ ∃ a, Yields x s a s' ∧ f a = b := by
  rw [map_eq_pure_bind, yields_bind]
  simp only [yields_pure]
  constructor
  · rintro ⟨a, _, hx, rfl, rfl⟩
    exact ⟨a, hx, rfl⟩
  · rintro ⟨a, hx, rfl⟩
    exact ⟨a, _, hx, rfl, rfl⟩

theorem yields_throw {e : Error} :
    Yields (throw e : ExceptT Error (StateM σ) α) s a s' ↔ False := by
  constructor
  · intro h
    cases h
  · exact False.elim

theorem yields_get {t : σ} :
    Yields (get : ExceptT Error (StateM σ) σ) s t s' ↔ s = t ∧ s = s' := by
  constructor
  · intro h
    cases h
    exact ⟨rfl, rfl⟩
  · rintro ⟨rfl, rfl⟩
    rfl

theorem yields_set {t : σ} {u : PUnit} :
    Yields (set t : ExceptT Error (StateM σ) PUnit) s u s' ↔ t = s' := by
  constructor
  · intro h
    cases h
    rfl
  · rintro rfl
    rfl

theorem yields_of_set (s t : σ) : Yields (set t : ExceptT Error (StateM σ) PUnit) s () t := rfl

theorem yields_modify {f : σ → σ} {u : PUnit} :
    Yields (modify f : ExceptT Error (StateM σ) PUnit) s u s' ↔ f s = s' := by
  constructor
  · intro h
    cases h
    rfl
  · rintro rfl
    rfl

/-- A result that is known already leaves the state alone. -/
theorem yields_liftM {x : Except Error α} :
    Yields (liftM x : ExceptT Error (StateM σ) α) s a s' ↔ x = .ok a ∧ s = s' := by
  constructor
  · intro h
    cases x with
    | ok b =>
      cases h
      exact ⟨rfl, rfl⟩
    | error e => cases h
  · rintro ⟨rfl, rfl⟩
    rfl

theorem yields_get_bind {k : σ → ExceptT Error (StateM σ) β} :
    Yields (get >>= k) s b s'' ↔ Yields (k s) s b s'' := Iff.rfl

theorem yields_set_bind {t : σ} {k : PUnit → ExceptT Error (StateM σ) β} :
    Yields (set t >>= k) s b s'' ↔ Yields (k ()) t b s'' := Iff.rfl

theorem yields_modify_bind {f : σ → σ} {k : PUnit → ExceptT Error (StateM σ) β} :
    Yields (modify f >>= k) s b s'' ↔ Yields (k ()) (f s) b s'' := Iff.rfl

theorem yields_throw_bind {e : Error} :
    Yields ((throw e : ExceptT Error (StateM σ) α) >>= k) s b s'' ↔ False := by
  simp only [yields_bind, yields_throw, false_and, exists_false]

theorem yields_liftM_bind {x : Except Error α} :
    Yields (liftM x >>= k) s b s'' ↔ ∃ a, x = .ok a ∧ Yields (k a) s b s'' := by
  simp only [yields_bind, yields_liftM, and_assoc, exists_and_left, exists_eq_left']

/-- A computation that goes on only if a condition fails. -/
theorem yields_guard {c : Prop} [Decidable c] {e : Error} {y : ExceptT Error (StateM σ) β} :
    Yields (if c then (throw e : ExceptT Error (StateM σ) α) >>= k else y) s b s'' ↔
      ¬ c ∧ Yields y s b s'' := by
  by_cases holds : c
  · rw [if_pos holds, yields_throw_bind]
    exact ⟨False.elim, fun h => h.1 holds⟩
  · rw [if_neg holds]
    exact ⟨fun h => ⟨holds, h⟩, And.right⟩

theorem yields_mapM_nil {f : β → ExceptT Error (StateM σ) α} {as : List α} :
    Yields (List.mapM f []) s as s' ↔ [] = as ∧ s = s' := by
  rw [List.mapM_nil, yields_pure]

theorem yields_mapM_cons {f : β → ExceptT Error (StateM σ) α} {rest : List β} {as : List α} :
    Yields (List.mapM f (b :: rest)) s as s'' ↔ ∃ a s' others,
      Yields (f b) s a s' ∧ Yields (List.mapM f rest) s' others s'' ∧ a :: others = as := by
  simp only [List.mapM_cons, yields_bind, yields_pure]
  constructor
  · rintro ⟨a, s', first, others, _, later, rfl, rfl⟩
    exact ⟨a, s', others, first, later, rfl⟩
  · rintro ⟨a, s', others, first, later, rfl⟩
    exact ⟨a, s', first, others, _, later, rfl, rfl⟩

theorem Yields.mapM_concat {f : β → ExceptT Error (StateM σ) α} {bs : List β} {as : List α}
    (h : Yields (List.mapM f bs) s as s') (last : Yields (f b) s' a s'') :
    Yields (List.mapM f (bs ++ [b])) s (as ++ [a]) s'' := by
  rw [List.mapM_append]
  refine h.bind (Yields.bind (a := [a]) ?_ (yields_pure.mpr ⟨rfl, rfl⟩))
  exact yields_mapM_cons.mpr ⟨a, s'', [], last, yields_mapM_nil.mpr ⟨rfl, rfl⟩, rfl⟩

/-- A sequence fails just if its first member fails, or that succeeds and the rest fails. -/
theorem fails_bind {e : Error} :
    Fails (x >>= k) s e s'' ↔
      Fails x s e s'' ∨ ∃ a s', Yields x s a s' ∧ Fails (k a) s' e s'' := by
  simp only [Fails, Yields, ExceptT.run_bind, StateT.run_bind]
  rcases x.run.run s with ⟨result, s₁⟩
  cases result with
  | ok a =>
    constructor
    · intro fails
      exact .inr ⟨a, s₁, rfl, fails⟩
    · rintro (impossible | ⟨a', s', same, fails⟩)
      · cases impossible
      · cases same
        exact fails
  | error e' =>
    constructor
    · intro fails
      cases fails
      exact .inl rfl
    · rintro (fails | ⟨a', s', impossible, -⟩)
      · cases fails
        rfl
      · cases impossible

theorem not_fails_pure {e : Error} : ¬ Fails (pure a : ExceptT Error (StateM σ) α) s e s' := by
  intro fails
  cases fails

theorem fails_mapM_cons {f : β → ExceptT Error (StateM σ) α} {rest : List β} {e : Error} :
    Fails (List.mapM f (b :: rest)) s e s'' ↔
      Fails (f b) s e s'' ∨ ∃ a s', Yields (f b) s a s' ∧ Fails (List.mapM f rest) s' e s'' := by
  rw [List.mapM_cons, fails_bind]
  simp only [fails_bind, not_fails_pure, and_false, exists_false, or_false]

theorem fails_throw {e e' : Error} :
    Fails (throw e : ExceptT Error (StateM σ) α) s e' s' ↔ e = e' ∧ s = s' := by
  constructor
  · intro fails
    cases fails
    exact ⟨rfl, rfl⟩
  · rintro ⟨rfl, rfl⟩
    rfl

/-- A result that is known already fails where it stands. -/
theorem fails_liftM {x : Except Error α} {e : Error} :
    Fails (liftM x : ExceptT Error (StateM σ) α) s e s' ↔ x = .error e ∧ s = s' := by
  constructor
  · intro fails
    cases x with
    | ok a => cases fails
    | error e' =>
      cases fails
      exact ⟨rfl, rfl⟩
  · rintro ⟨rfl, rfl⟩
    rfl

/-- A computation that goes on only if a condition fails, and fails itself otherwise. -/
theorem fails_guard {c : Prop} [Decidable c] {e e' : Error} {y : ExceptT Error (StateM σ) β} :
    Fails (if c then (throw e : ExceptT Error (StateM σ) α) >>= k else y) s e' s'' ↔
      (c ∧ e = e' ∧ s = s'') ∨ (¬ c ∧ Fails y s e' s'') := by
  by_cases holds : c
  · rw [if_pos holds, fails_bind, fails_throw]
    simp only [yields_throw, holds, false_and, exists_false, or_false, not_true, true_and]
  · rw [if_neg holds]
    simp only [holds, not_false_eq_true, false_and, false_or, true_and]

theorem not_fails_set {t : σ} {e : Error} :
    ¬ Fails (set t : ExceptT Error (StateM σ) PUnit) s e s' := by
  intro fails
  cases fails

theorem not_fails_modify {f : σ → σ} {e : Error} :
    ¬ Fails (modify f : ExceptT Error (StateM σ) PUnit) s e s' := by
  intro fails
  cases fails

theorem fails_get_bind {k : σ → ExceptT Error (StateM σ) β} {e : Error} :
    Fails (get >>= k) s e s'' ↔ Fails (k s) s e s'' := Iff.rfl

theorem fails_modify_bind {f : σ → σ} {k : PUnit → ExceptT Error (StateM σ) β} {e : Error} :
    Fails (modify f >>= k) s e s'' ↔ Fails (k ()) (f s) e s'' := Iff.rfl

theorem fails_liftM_bind {x : Except Error α} {e : Error} :
    Fails (liftM x >>= k) s e s'' ↔
      (x = .error e ∧ s = s'') ∨ ∃ a, x = .ok a ∧ Fails (k a) s e s'' := by
  simp only [fails_bind, fails_liftM, yields_liftM, and_assoc, exists_and_left, exists_eq_left']

end One

section Two

variable {x : StateT τ (ExceptT Error (StateM σ)) α}
  {k : α → StateT τ (ExceptT Error (StateM σ)) β}
  {t t' t'' : τ} {s s' s'' : σ} {a a' : α} {b : β}

theorem YieldsWith.unique (h : YieldsWith x t s a t' s') (h' : YieldsWith x t s a' t'' s'') :
    a = a' ∧ t' = t'' ∧ s' = s'' := by
  obtain ⟨pair, state⟩ := Yields.unique h h'
  injection pair with value second
  exact ⟨value, second, state⟩

theorem yieldsWith_bind :
    YieldsWith (x >>= k) t s b t'' s'' ↔
      ∃ a t' s', YieldsWith x t s a t' s' ∧ YieldsWith (k a) t' s' b t'' s'' := by
  simp only [YieldsWith, StateT.run_bind, yields_bind, Prod.exists]

theorem YieldsWith.bind (hx : YieldsWith x t s a t' s') (hk : YieldsWith (k a) t' s' b t'' s'') :
    YieldsWith (x >>= k) t s b t'' s'' :=
  yieldsWith_bind.mpr ⟨a, t', s', hx, hk⟩

theorem YieldsWith.run_bind (h : YieldsWith x t s a t' s') :
    ((x >>= k).run t).run.run s = ((k a).run t').run.run s' := by
  rw [StateT.run_bind]
  exact Yields.run_bind h

/-- Sequences agree whose second members agree where the first one succeeds. -/
theorem runWith_bind_congr {k' : α → StateT τ (ExceptT Error (StateM σ)) β}
    (h : ∀ a t' s', YieldsWith x t s a t' s' →
      ((k a).run t').run.run s' = ((k' a).run t').run.run s') :
    ((x >>= k).run t).run.run s = ((x >>= k').run t).run.run s := by
  rw [StateT.run_bind, StateT.run_bind, ExceptT.run_bind, ExceptT.run_bind, StateT.run_bind,
    StateT.run_bind]
  rcases first : (x.run t).run.run s with ⟨_ | ⟨a, t'⟩, s'⟩
  · rfl
  · exact h a t' s' first

/-- Sequences agree whose first members know nothing of the second state and agree. -/
theorem runWith_lift_bind_congr {y z : ExceptT Error (StateM σ) α} (h : y.run.run s = z.run.run s') :
    ((liftM y >>= k).run t).run.run s = ((liftM z >>= k).run t).run.run s' := by
  rw [StateT.run_bind, StateT.run_bind]
  exact run_bind_congr (run_bind_congr h)

theorem yieldsWith_pure :
    YieldsWith (pure a : StateT τ (ExceptT Error (StateM σ)) α) t s a' t' s' ↔
      a = a' ∧ t = t' ∧ s = s' := by
  simp only [YieldsWith, StateT.run_pure, yields_pure, Prod.mk.injEq, and_assoc]

theorem yieldsWith_map {f : α → β} :
    YieldsWith (f <$> x) t s b t' s' ↔ ∃ a, YieldsWith x t s a t' s' ∧ f a = b := by
  rw [map_eq_pure_bind, yieldsWith_bind]
  simp only [yieldsWith_pure]
  constructor
  · rintro ⟨a, _, _, hx, rfl, rfl, rfl⟩
    exact ⟨a, hx, rfl⟩
  · rintro ⟨a, hx, rfl⟩
    exact ⟨a, _, _, hx, rfl, rfl, rfl⟩

theorem yieldsWith_throw {e : Error} :
    YieldsWith (throw e : StateT τ (ExceptT Error (StateM σ)) α) t s a t' s' ↔ False := by
  constructor
  · intro h
    cases h
  · exact False.elim

theorem yieldsWith_set {u : τ} {v : PUnit} :
    YieldsWith (set u : StateT τ (ExceptT Error (StateM σ)) PUnit) t s v t' s' ↔
      u = t' ∧ s = s' := by
  constructor
  · intro h
    cases h
    exact ⟨rfl, rfl⟩
  · rintro ⟨rfl, rfl⟩
    rfl

/-- A computation that knows nothing of the second state leaves it alone. -/
theorem yieldsWith_lift {x : ExceptT Error (StateM σ) α} :
    YieldsWith (liftM x : StateT τ (ExceptT Error (StateM σ)) α) t s a t' s' ↔
      Yields x s a s' ∧ t = t' := by
  show Yields (x >>= fun a => pure (a, t)) s (a, t') s' ↔ _
  simp only [yields_bind, yields_pure, Prod.mk.injEq]
  constructor
  · rintro ⟨_, _, hx, ⟨rfl, rfl⟩, rfl⟩
    exact ⟨hx, rfl⟩
  · rintro ⟨hx, rfl⟩
    exact ⟨a, s', hx, ⟨rfl, rfl⟩, rfl⟩

theorem yieldsWith_liftM {x : Except Error α} :
    YieldsWith (liftM x : StateT τ (ExceptT Error (StateM σ)) α) t s a t' s' ↔
      x = .ok a ∧ t = t' ∧ s = s' := by
  constructor
  · intro h
    cases x with
    | ok b =>
      cases h
      exact ⟨rfl, rfl, rfl⟩
    | error e => cases h
  · rintro ⟨rfl, rfl, rfl⟩
    rfl

theorem yieldsWith_get_bind {k : τ → StateT τ (ExceptT Error (StateM σ)) β} :
    YieldsWith (get >>= k) t s b t'' s'' ↔ YieldsWith (k t) t s b t'' s'' := Iff.rfl

theorem yieldsWith_set_bind {u : τ} {k : PUnit → StateT τ (ExceptT Error (StateM σ)) β} :
    YieldsWith (set u >>= k) t s b t'' s'' ↔ YieldsWith (k ()) u s b t'' s'' := Iff.rfl

theorem yieldsWith_throw_bind {e : Error} :
    YieldsWith ((throw e : StateT τ (ExceptT Error (StateM σ)) α) >>= k) t s b t'' s'' ↔ False := by
  simp only [yieldsWith_bind, yieldsWith_throw, false_and, exists_false]

theorem yieldsWith_lift_bind {x : ExceptT Error (StateM σ) α} :
    YieldsWith (liftM x >>= k) t s b t'' s'' ↔
      ∃ a s', Yields x s a s' ∧ YieldsWith (k a) t s' b t'' s'' := by
  simp only [yieldsWith_bind, yieldsWith_lift]
  constructor
  · rintro ⟨a, _, s', ⟨hx, rfl⟩, hk⟩
    exact ⟨a, s', hx, hk⟩
  · rintro ⟨a, s', hx, hk⟩
    exact ⟨a, t, s', ⟨hx, rfl⟩, hk⟩

theorem yieldsWith_liftM_bind {x : Except Error α} :
    YieldsWith (liftM x >>= k) t s b t'' s'' ↔ ∃ a, x = .ok a ∧ YieldsWith (k a) t s b t'' s'' := by
  simp only [yieldsWith_bind, yieldsWith_liftM, and_assoc, exists_and_left, exists_eq_left']

/-- A computation that goes on only if a condition fails. -/
theorem yieldsWith_guard {c : Prop} [Decidable c] {e : Error}
    {y : StateT τ (ExceptT Error (StateM σ)) β} :
    YieldsWith (if c then (throw e : StateT τ (ExceptT Error (StateM σ)) α) >>= k else y)
      t s b t'' s'' ↔ ¬ c ∧ YieldsWith y t s b t'' s'' := by
  by_cases holds : c
  · rw [if_pos holds, yieldsWith_throw_bind]
    exact ⟨False.elim, fun h => h.1 holds⟩
  · rw [if_neg holds]
    exact ⟨fun h => ⟨holds, h⟩, And.right⟩

theorem yieldsWith_mapM_nil {f : β → StateT τ (ExceptT Error (StateM σ)) α} {as : List α} :
    YieldsWith (List.mapM f []) t s as t' s' ↔ [] = as ∧ t = t' ∧ s = s' := by
  rw [List.mapM_nil, yieldsWith_pure]

theorem yieldsWith_mapM_cons {f : β → StateT τ (ExceptT Error (StateM σ)) α} {rest : List β}
    {as : List α} :
    YieldsWith (List.mapM f (b :: rest)) t s as t'' s'' ↔ ∃ a t' s' others,
      YieldsWith (f b) t s a t' s' ∧ YieldsWith (List.mapM f rest) t' s' others t'' s'' ∧
        a :: others = as := by
  simp only [List.mapM_cons, yieldsWith_bind, yieldsWith_pure]
  constructor
  · rintro ⟨a, t', s', first, others, _, _, later, rfl, rfl, rfl⟩
    exact ⟨a, t', s', others, first, later, rfl⟩
  · rintro ⟨a, t', s', others, first, later, rfl⟩
    exact ⟨a, t', s', first, others, _, _, later, rfl, rfl, rfl⟩

end Two

section Results

variable {ε : Type}

theorem toOption_eq_some_iff {x : Except ε α} {a : α} : x.toOption = some a ↔ x = .ok a := by
  cases x with
  | ok b => simp [Except.toOption]
  | error e => simp [Except.toOption]

/-- A result that is only there if a condition fails. -/
theorem guard_eq_ok_iff {c : Prop} [Decidable c] {e : ε} {k : α → Except ε β}
    {y : Except ε β} {b : β} :
    (if c then (throw e : Except ε α) >>= k else y) = .ok b ↔ ¬ c ∧ y = .ok b := by
  by_cases holds : c
  · rw [if_pos holds]
    exact ⟨fun h => (nomatch h), fun h => absurd holds h.1⟩
  · rw [if_neg holds]
    exact ⟨fun h => ⟨holds, h⟩, And.right⟩

/-- A sequence of results succeeds just if both members do. -/
theorem bind_eq_ok_iff {x : Except ε α} {k : α → Except ε β} {b : β} :
    x >>= k = .ok b ↔ ∃ a, x = .ok a ∧ k a = .ok b := by
  cases x with
  | ok a =>
    constructor
    · intro h
      exact ⟨a, rfl, h⟩
    · rintro ⟨a', ha, hk⟩
      cases ha
      exact hk
  | error e =>
    constructor
    · intro h
      cases h
    · rintro ⟨a', ha, _⟩
      cases ha

end Results

end Interpose
