import Mathlib.Data.List.Basic

/-!
# Runs of a partial step function

A system is a function `step : σ → ι → Option (ο × σ)`: in state `s` the action `i`
either is not possible (`none`) or yields an output and the next state. All
nondeterminism (who moves next, what the environment answers) is in the actions,
so a run is just a list of them.

* `runs step s is`: perform `is` one after the other.
* `Guarded step g s is`: at every step of that run, `g` holds of the state before
  it and the action. This is how a side condition on *all* steps is said.
* `EachAfter P done is`: `P` holds of every action, given those before it. This is how a
  condition on a list of actions is said without a state.
* `runs_invariant`: what one step keeps, a run keeps.
* `runs_outputs`, `runs_forall_outputs`: the same for what a run puts out.
* `stepsWith`: how many steps of a run meet a condition; `runs_count`: what grows by one with
  each of these grows by that.
* `runs_refines`: a simulation between a partial system and a total one lifts to
  runs, with equal outputs; `runs_refines_choices`: where the total one has a choice at every
  step. `runs_same_outputs`: the same for two partial systems that get stuck together;
  `runs_bisimilar`: with the states as well.
-/

namespace Nastd.Lib

variable {σ τ ι ο : Type}

/-- Perform the actions in order; `none` as soon as one is not possible. -/
def runs (step : σ → ι → Option (ο × σ)) : σ → List ι → Option (List ο × σ)
  | s, [] => some ([], s)
  | s, i :: is =>
    match step s i with
    | none => none
    | some (o, s') =>
      match runs step s' is with
      | none => none
      | some (os, s'') => some (o :: os, s'')

/-- `g` holds before every step of the run. -/
def Guarded (step : σ → ι → Option (ο × σ)) (g : σ → ι → Prop) : σ → List ι → Prop
  | _, [] => True
  | s, i :: is => g s i ∧ ∀ o s', step s i = some (o, s') → Guarded step g s' is

/-- `p` holds of every action and those before it, `done` first of all. -/
def EachAfter (p : List ι → ι → Prop) : List ι → List ι → Prop
  | _, [] => True
  | done, i :: is => p done i ∧ EachAfter p (done ++ [i]) is

/-- The number of steps of the run before which `p` holds. -/
def stepsWith (step : σ → ι → Option (ο × σ)) (p : σ → ι → Bool) : σ → List ι → Nat
  | _, [] => 0
  | s, i :: is =>
    match step s i with
    | none => 0
    | some (_, s') => stepsWith step p s' is + if p s i then 1 else 0

/-- The runs of a system that can always move. -/
def runsTotal (step : τ → ι → ο × τ) : τ → List ι → List ο × τ
  | t, [] => ([], t)
  | t, i :: is =>
    let r := runsTotal step (step t i).2 is
    ((step t i).1 :: r.1, r.2)

section Rules

variable {step : σ → ι → Option (ο × σ)}

theorem runs_cons {s : σ} {i : ι} {is : List ι} {os : List ο} {s'' : σ} :
    runs step s (i :: is) = some (os, s'') ↔
      ∃ o s' os', step s i = some (o, s') ∧ runs step s' is = some (os', s'') ∧ os = o :: os' := by
  rw [runs]
  constructor
  · intro h
    split at h
    · exact absurd h (by simp)
    · next o s' hs =>
      split at h
      · exact absurd h (by simp)
      · next os' t hr =>
        obtain ⟨rfl, rfl⟩ := Prod.mk.inj (Option.some.inj h)
        exact ⟨o, s', os', hs, hr, rfl⟩
  · intro h
    obtain ⟨o, s', os', hs, hr, rfl⟩ := h
    simp only [hs, hr]

/-- What every guarded step keeps, a guarded run keeps. -/
theorem runs_invariant {g : σ → ι → Prop} {I : σ → Prop}
    (hstep : ∀ s i o s', I s → g s i → step s i = some (o, s') → I s') :
    ∀ {is : List ι} {s : σ} {os : List ο} {s' : σ}, I s → Guarded step g s is →
      runs step s is = some (os, s') → I s' := by
  intro is
  induction is with
  | nil =>
    intro s os s' hI _ hr
    obtain ⟨rfl, rfl⟩ := Prod.mk.inj (Option.some.inj hr)
    exact hI
  | cons i is ih =>
    intro s os s' hI hg hr
    obtain ⟨o, s₁, os', hi, hr', rfl⟩ := runs_cons.mp hr
    exact ih (hstep s i o s₁ hI hg.1 hi) (hg.2 o s₁ hi) hr'

/-- Where the output of a step does not depend on the state, that of a run does not. -/
theorem runs_outputs {f : ι → ο} {I : σ → Prop}
    (hstep : ∀ s i o s', I s → step s i = some (o, s') → o = f i ∧ I s') :
    ∀ {is : List ι} {s : σ} {os : List ο} {s' : σ}, I s → runs step s is = some (os, s') →
      os = is.map f := by
  intro is
  induction is with
  | nil =>
    intro s os s' _ hr
    obtain ⟨rfl, rfl⟩ := Prod.mk.inj (Option.some.inj hr)
    rfl
  | cons i is ih =>
    intro s os s' hI hr
    obtain ⟨o, s₁, os', hi, hr', rfl⟩ := runs_cons.mp hr
    obtain ⟨rfl, hI'⟩ := hstep s i o s₁ hI hi
    exact congrArg (f i :: ·) (ih hI' hr')

/-- What holds of the output of every guarded step holds of every output of a guarded
run. -/
theorem runs_forall_outputs {g : σ → ι → Prop} {I : σ → Prop} {P : ο → Prop}
    (hstep : ∀ s i o s', I s → g s i → step s i = some (o, s') → P o ∧ I s') :
    ∀ {is : List ι} {s : σ} {os : List ο} {s' : σ}, I s → Guarded step g s is →
      runs step s is = some (os, s') → ∀ o ∈ os, P o := by
  intro is
  induction is with
  | nil =>
    intro s os s' _ _ hr o ho
    obtain ⟨rfl, rfl⟩ := Prod.mk.inj (Option.some.inj hr)
    exact absurd ho (by simp)
  | cons i is ih =>
    intro s os s' hI hg hr
    obtain ⟨o, s₁, os', hi, hr', rfl⟩ := runs_cons.mp hr
    obtain ⟨hP, hI'⟩ := hstep s i o s₁ hI hg.1 hi
    intro o' ho'
    rcases List.mem_cons.mp ho' with rfl | ho'
    · exact hP
    · exact ih hI' (hg.2 o s₁ hi) hr' o' ho'

/-- What grows by one with every step that meets `p`, and stays with the others. -/
theorem runs_count {p : σ → ι → Bool} {I : σ → Prop} {m : σ → Int}
    (hstep : ∀ s i o s', I s → step s i = some (o, s') →
      m s' = m s + (if p s i then 1 else 0) ∧ I s') :
    ∀ {is : List ι} {s : σ} {os : List ο} {s' : σ}, I s → runs step s is = some (os, s') →
      m s' = m s + stepsWith step p s is := by
  intro is
  induction is with
  | nil =>
    intro s os s' _ hr
    obtain ⟨rfl, rfl⟩ := Prod.mk.inj (Option.some.inj hr)
    exact (Int.add_zero _).symm
  | cons i is ih =>
    intro s os s' hI hr
    obtain ⟨o, s₁, os', hi, hr', rfl⟩ := runs_cons.mp hr
    obtain ⟨hone, hI₁⟩ := hstep s i o s₁ hI hi
    have hrest := ih hI₁ hr'
    rw [stepsWith, hi]
    dsimp only
    split at hone
    next hp =>
      rw [if_pos hp]
      push_cast
      omega
    next hp =>
      rw [if_neg hp]
      omega

/-- Where a step is possible exactly if `p` holds of the action and those before it, a run is
possible exactly if `p` holds all along, and then the invariant holds at its end. -/
theorem runs_iff_eachAfter {p q : List ι → ι → Prop} {I : List ι → σ → Prop}
    (hstep : ∀ done s i, I done s → q done i → p done i →
      ∃ o s', step s i = some (o, s') ∧ I (done ++ [i]) s')
    (hstuck : ∀ done s i, I done s → q done i → ¬ p done i → step s i = none) :
    ∀ {is done : List ι} {s : σ}, I done s → EachAfter q done is →
      (EachAfter p done is → ∃ os s', runs step s is = some (os, s') ∧ I (done ++ is) s') ∧
        (¬ EachAfter p done is → runs step s is = none) := by
  intro is
  induction is with
  | nil =>
    intro done s hI _
    refine ⟨fun _ => ⟨[], s, rfl, ?_⟩, fun h => absurd trivial h⟩
    rw [List.append_nil]
    exact hI
  | cons i is ih =>
    intro done s hI hq
    by_cases hp : p done i
    · obtain ⟨o, s₁, hi, hI₁⟩ := hstep done s i hI hq.1 hp
      obtain ⟨hrun, hstop⟩ := ih hI₁ hq.2
      constructor
      · intro h
        obtain ⟨os, s', hr, hI'⟩ := hrun h.2
        refine ⟨o :: os, s', runs_cons.mpr ⟨o, s₁, os, hi, hr, rfl⟩, ?_⟩
        rw [List.append_assoc] at hI'
        exact hI'
      · intro h
        rw [runs, hi]
        dsimp only
        rw [hstop fun hrest => h ⟨hp, hrest⟩]
    · refine ⟨fun h => absurd h.1 hp, fun _ => ?_⟩
      rw [runs, hstuck done s i hI hq.1 hp]

/-- A guard that always holds asks nothing. -/
theorem guarded_true : ∀ {is : List ι} {s : σ}, Guarded step (fun _ _ => True) s is := by
  intro is
  induction is with
  | nil => intro s; trivial
  | cons i is ih => intro s; exact ⟨trivial, fun _ _ _ => ih⟩

/-- A step of a guarded run that is known. -/
theorem guarded_cons {g : σ → ι → Prop} {s s' : σ} {i : ι} {is : List ι} {o : ο} (hg : g s i)
    (hi : step s i = some (o, s')) (h : Guarded step g s' is) : Guarded step g s (i :: is) := by
  refine ⟨hg, fun o' s'' hi' => ?_⟩
  obtain ⟨rfl, rfl⟩ := Prod.mk.inj (Option.some.inj (hi.symm.trans hi'))
  exact h

/-- A condition on the actions alone guards every run of them. -/
theorem guarded_of_forall {p : ι → Prop} {is : List ι} :
    ∀ {s : σ}, (∀ i ∈ is, p i) → Guarded step (fun _ i => p i) s is := by
  induction is with
  | nil => intro s _; trivial
  | cons i is ih =>
    intro s h
    exact ⟨h i (List.mem_cons_self ..), fun _ _ _ => ih fun j hj => h j (List.mem_cons_of_mem _ hj)⟩

/-- A step-by-step simulation with equal outputs gives equal outputs of runs. -/
theorem runs_refines {spec : τ → ι → ο × τ} {p : ι → Prop} {R : σ → τ → Prop}
    (hstep : ∀ s t i, p i → R s t →
      ∃ s', step s i = some ((spec t i).1, s') ∧ R s' (spec t i).2) :
    ∀ {is : List ι} {s : σ} {t : τ}, (∀ i ∈ is, p i) → R s t →
      ∃ s', runs step s is = some ((runsTotal spec t is).1, s') ∧
        R s' (runsTotal spec t is).2 := by
  intro is
  induction is with
  | nil => intro s t _ hR; exact ⟨s, rfl, hR⟩
  | cons i is ih =>
    intro s t hok hR
    obtain ⟨s₁, hi, hR₁⟩ := hstep s t i (hok i (List.mem_cons_self ..)) hR
    obtain ⟨s', hr, hR'⟩ := ih (fun j hj => hok j (List.mem_cons_of_mem _ hj)) hR₁
    exact ⟨s', runs_cons.mpr ⟨_, s₁, _, hi, hr, rfl⟩, hR'⟩

/-- A simulation where the total system also takes a choice with every action, which `R` keeps
account of: for a run there are choices that give its outputs. -/
theorem runs_refines_choices {χ : Type} {spec : τ → ι × χ → ο × τ} {p : ι → Prop}
    {R : List χ → σ → τ → Prop}
    (hstep : ∀ done s t i, p i → R done s t →
      ∃ c s', step s i = some ((spec t (i, c)).1, s') ∧ R (done ++ [c]) s' (spec t (i, c)).2) :
    ∀ {is : List ι} {done : List χ} {s : σ} {t : τ}, (∀ i ∈ is, p i) → R done s t →
      ∃ cs s', cs.length = is.length ∧
        runs step s is = some ((runsTotal spec t (is.zip cs)).1, s') ∧
        R (done ++ cs) s' (runsTotal spec t (is.zip cs)).2 := by
  intro is
  induction is with
  | nil =>
    intro done s t _ hR
    refine ⟨[], s, rfl, rfl, ?_⟩
    rw [List.append_nil]
    exact hR
  | cons i is ih =>
    intro done s t hok hR
    obtain ⟨c, s₁, hi, hR₁⟩ := hstep done s t i (hok i (List.mem_cons_self ..)) hR
    obtain ⟨cs, s', hlen, hr, hR'⟩ := ih (fun j hj => hok j (List.mem_cons_of_mem _ hj)) hR₁
    refine ⟨c :: cs, s', congrArg Nat.succ hlen, runs_cons.mpr ⟨_, s₁, _, hi, hr, rfl⟩, ?_⟩
    rw [List.append_cons]
    exact hR'

/-- Two partial systems that do the same step by step, and get stuck together, have the same
outputs. -/
theorem runs_same_outputs {spec : τ → ι → Option (ο × τ)} {R : σ → τ → Prop}
    (hstep : ∀ s t i, R s t →
      (step s i = none ∧ spec t i = none) ∨
        ∃ o s' t', step s i = some (o, s') ∧ spec t i = some (o, t') ∧ R s' t') :
    ∀ {is : List ι} {s : σ} {t : τ}, R s t →
      (runs step s is).map Prod.fst = (runs spec t is).map Prod.fst := by
  intro is
  induction is with
  | nil => intro s t _; rfl
  | cons i is ih =>
    intro s t hR
    rcases hstep s t i hR with ⟨hs, ht⟩ | ⟨o, s', t', hs, ht, hR'⟩
    · rw [runs, runs, hs, ht]
      rfl
    · have hrest := ih hR'
      rw [runs, runs, hs, ht]
      dsimp only
      cases hr : runs step s' is with
      | none =>
        rw [hr] at hrest
        cases hr' : runs spec t' is with
        | none => rfl
        | some x => rw [hr'] at hrest; exact absurd hrest (by simp)
      | some x =>
        rw [hr] at hrest
        cases hr' : runs spec t' is with
        | none => rw [hr'] at hrest; exact absurd hrest (by simp)
        | some y =>
          rw [hr'] at hrest
          exact congrArg (fun os => some (o :: os)) (Option.some.inj hrest)

/-- The same for actions that `p` holds of, and with the states that are reached. -/
theorem runs_bisimilar {spec : τ → ι → Option (ο × τ)} {p : ι → Prop} {R : σ → τ → Prop}
    (hstep : ∀ s t i, p i → R s t →
      (step s i = none ∧ spec t i = none) ∨
        ∃ o s' t', step s i = some (o, s') ∧ spec t i = some (o, t') ∧ R s' t') :
    ∀ {is : List ι} {s : σ} {t : τ}, (∀ i ∈ is, p i) → R s t →
      (runs step s is = none ∧ runs spec t is = none) ∨
        ∃ os s' t', runs step s is = some (os, s') ∧ runs spec t is = some (os, t') ∧ R s' t' := by
  intro is
  induction is with
  | nil => intro s t _ hR; exact Or.inr ⟨[], s, t, rfl, rfl, hR⟩
  | cons i is ih =>
    intro s t hok hR
    rcases hstep s t i (hok i (List.mem_cons_self ..)) hR with
      ⟨hs, ht⟩ | ⟨o, s₁, t₁, hs, ht, hR₁⟩
    · refine Or.inl ⟨?_, ?_⟩
      · rw [runs, hs]
      · rw [runs, ht]
    · rcases ih (fun j hj => hok j (List.mem_cons_of_mem _ hj)) hR₁ with
        ⟨hrs, hrt⟩ | ⟨os, s', t', hrs, hrt, hR'⟩
      · refine Or.inl ⟨?_, ?_⟩
        · rw [runs, hs]
          dsimp only
          rw [hrs]
        · rw [runs, ht]
          dsimp only
          rw [hrt]
      · exact Or.inr ⟨o :: os, s', t', runs_cons.mpr ⟨o, s₁, os, hs, hrs, rfl⟩,
          runs_cons.mpr ⟨o, t₁, os, ht, hrt, rfl⟩, hR'⟩

end Rules

end Nastd.Lib
