import Nastd.Server.FqmThreads

/-!
# The bound of the fallthrough queue

`fqm_push` compares `nitems` with `maxitems` before it takes the lock, so between that
look and the insertion others may be admitted for the same place. A look is `Seated` if
it refuses, or if there is a place for the request besides those of the requests that
are admitted and not linked yet.

* `fqm_bounded`: where every look is seated, the queue never holds more than `maxitems`.
* `fqm_overbooked`: after a look that is not, the threads that are admitted can go on to
  link more than `maxitems` requests.
-/

namespace Nastd.Server

open Nastd.Lib

/-- The thread has found room and not linked its request yet. -/
def Pusher.IsAdmitted : Pusher → Prop
  | .admitted _ => True
  | _ => False

instance : DecidablePred Pusher.IsAdmitted := fun x => by
  cases x <;> unfold Pusher.IsAdmitted <;> infer_instance

section Bound

variable {π ω : Type} [Fintype π]

/-- The number of requests that are admitted and not linked yet. -/
def FqmSys.admitted (s : FqmSys π ω) : Nat := count Pusher.IsAdmitted s.pusher

/-- Where `fqm_push` looks at `nitems`: the queue is full, or there is a place besides
those promised already. -/
def FqmSys.Seated (s : FqmSys π ω) : FqmAct π ω → Prop
  | .check _ => s.nitems = s.maxitems ∨ s.nitems + s.admitted < s.maxitems
  | _ => True

theorem admitted_congr {s s' : FqmSys π ω} (h : s'.pusher = s.pusher) :
    s'.admitted = s.admitted := congrArg (count Pusher.IsAdmitted) h

/-- The requests that wait and those that are promised a place fit. -/
def FqmSys.Fits (maxitems : Int) (s : FqmSys π ω) : Prop :=
  s.maxitems = maxitems ∧ s.nitems + s.admitted ≤ maxitems

theorem fqmStart_fits {maxitems : Int} (hmax : 0 ≤ maxitems) :
    (fqmStart (π := π) (ω := ω) maxitems).Fits maxitems := by
  refine ⟨rfl, ?_⟩
  have hnone : (fqmStart (π := π) (ω := ω) maxitems).admitted = 0 :=
    count_eq_zero.mpr fun _ => id
  rw [hnone]
  exact hmax

variable [DecidableEq π]

/-- A thread goes from one place to another, and is admitted at neither. -/
theorem admitted_same {s s' : FqmSys π ω} {p : π} {x : Pusher}
    (h : s'.pusher = Function.update s.pusher p x) (hbefore : ¬ (s.pusher p).IsAdmitted)
    (hafter : ¬ x.IsAdmitted) : s'.admitted = s.admitted := by
  unfold FqmSys.admitted
  rw [h]
  exact count_update_same (iff_of_false hbefore hafter)

theorem admitted_gain {s s' : FqmSys π ω} {p : π} {a : Nat}
    (h : s'.pusher = Function.update s.pusher p (.admitted a))
    (hbefore : ¬ (s.pusher p).IsAdmitted) : s'.admitted = s.admitted + 1 := by
  have hmove := count_update (p := Pusher.IsAdmitted) s.pusher p (.admitted a)
  rw [if_neg hbefore, if_pos (show (Pusher.admitted a).IsAdmitted from trivial)] at hmove
  unfold FqmSys.admitted
  rw [h]
  exact hmove

theorem admitted_loss {s s' : FqmSys π ω} {p : π} {a : Nat}
    (h : s'.pusher = Function.update s.pusher p .idle) (hbefore : s.pusher p = .admitted a) :
    s'.admitted + 1 = s.admitted := by
  have hmove := count_update (p := Pusher.IsAdmitted) s.pusher p .idle
  rw [hbefore, if_pos (show (Pusher.admitted a).IsAdmitted from trivial),
    if_neg (show ¬ Pusher.idle.IsAdmitted from id)] at hmove
  unfold FqmSys.admitted
  rw [h]
  exact hmove

end Bound

/-- A signal can always be given. -/
theorem exists_signalsTo {π ω : Type} (s : FqmSys π ω) :
    ∃ ws, SignalsTo (fun w => s.worker w = .asleep) ws := by
  by_cases h : ∃ w, s.worker w = .asleep
  · obtain ⟨w, hw⟩ := h
    refine ⟨{w}, ?_, fun hempty => absurd hempty (Finset.singleton_ne_empty w)⟩
    intro u hu
    rw [Finset.mem_singleton.mp hu]
    exact hw
  · exact ⟨∅, fun w hw => absurd hw (Finset.notMem_empty w), fun _ w hw => h ⟨w, hw⟩⟩

section Steps

variable {π ω : Type} [DecidableEq ω]

theorem fqmTake_nitems {s s' : FqmSys π ω} {w : ω} (htake : fqmTake s w = some s') :
    s'.maxitems = s.maxitems ∧ s'.pusher = s.pusher ∧
      (s'.nitems = s.nitems ∨ s'.nitems = s.nitems - 1) := by
  unfold fqmTake at htake
  split at htake
  next =>
    obtain rfl := Option.some.inj htake
    exact ⟨rfl, rfl, Or.inl rfl⟩
  next =>
    split at htake
    next => exact absurd htake (by simp)
    next =>
      obtain rfl := Option.some.inj htake
      exact ⟨rfl, rfl, Or.inr rfl⟩

variable [DecidableEq π] [Fintype π] [Fintype ω]

/-- What a step does to the count: nothing, or a worker takes one off; a look that finds
room admits a request; and an admitted request is linked. -/
theorem fqmStep_nitems {s s' : FqmSys π ω} {act : FqmAct π ω} {rc : Option Int}
    (hstep : fqmStep s act = some (rc, s')) :
    s'.maxitems = s.maxitems ∧
    (s'.admitted = s.admitted ∧
        (s'.nitems = s.nitems ∨ Nonempty ω ∧ s'.nitems = s.nitems - 1) ∨
      (∃ p, act = .check p ∧ s.nitems ≠ s.maxitems ∧ s'.nitems = s.nitems ∧
        s'.admitted = s.admitted + 1) ∨
      s'.nitems = s.nitems + 1 ∧ s'.admitted + 1 = s.admitted) := by
  have hworker : ∀ {w : ω}, fqmTake s w = some s' → s'.maxitems = s.maxitems ∧
      s'.admitted = s.admitted ∧
        (s'.nitems = s.nitems ∨ Nonempty ω ∧ s'.nitems = s.nitems - 1) := by
    intro w htake
    obtain ⟨hmax, hpusher, hitems⟩ := fqmTake_nitems htake
    exact ⟨hmax, admitted_congr hpusher, hitems.imp_right fun h => ⟨⟨w⟩, h⟩⟩
  cases act with
  | new p a junk req =>
    simp only [fqmStep] at hstep
    split at hstep
    next hidle =>
      obtain ⟨-, rfl⟩ := Prod.mk.inj (Option.some.inj hstep)
      refine ⟨rfl, Or.inl ⟨admitted_same rfl ?_ id, Or.inl rfl⟩⟩
      rw [hidle.1]
      exact id
    next => exact absurd hstep (by simp)
  | check p =>
    simp only [fqmStep] at hstep
    split at hstep
    next a hp =>
      have hbefore : ¬ (s.pusher p).IsAdmitted := by
        rw [hp]
        exact id
      split at hstep
      next =>
        obtain ⟨-, rfl⟩ := Prod.mk.inj (Option.some.inj hstep)
        exact ⟨rfl, Or.inl ⟨admitted_same rfl hbefore id, Or.inl rfl⟩⟩
      next hroom =>
        obtain ⟨-, rfl⟩ := Prod.mk.inj (Option.some.inj hstep)
        exact ⟨rfl, Or.inr (Or.inl ⟨p, rfl, hroom, rfl, admitted_gain rfl hbefore⟩)⟩
    next => exact absurd hstep (by simp)
  | push p ws =>
    simp only [fqmStep] at hstep
    split at hstep
    next a hp =>
      split at hstep
      next =>
        split at hstep
        next =>
          obtain ⟨-, rfl⟩ := Prod.mk.inj (Option.some.inj hstep)
          exact ⟨rfl, Or.inr (Or.inr ⟨rfl, admitted_loss rfl hp⟩)⟩
        next => exact absurd hstep (by simp)
      next => exact absurd hstep (by simp)
    next => exact absurd hstep (by simp)
  | pop w =>
    simp only [fqmStep] at hstep
    split at hstep
    next =>
      split at hstep
      next =>
        obtain ⟨-, rfl⟩ := Prod.mk.inj (Option.some.inj hstep)
        exact ⟨rfl, Or.inl ⟨rfl, Or.inl rfl⟩⟩
      next =>
        obtain ⟨s'', htake, heq⟩ := Option.map_eq_some_iff.mp hstep
        obtain ⟨-, rfl⟩ := Prod.mk.inj heq
        exact (hworker htake).imp_right Or.inl
    next => exact absurd hstep (by simp)
  | wakeUp w =>
    simp only [fqmStep] at hstep
    split at hstep
    next =>
      obtain ⟨-, rfl⟩ := Prod.mk.inj (Option.some.inj hstep)
      exact ⟨rfl, Or.inl ⟨rfl, Or.inl rfl⟩⟩
    next => exact absurd hstep (by simp)
  | resume w =>
    simp only [fqmStep] at hstep
    split at hstep
    next =>
      obtain ⟨s'', htake, heq⟩ := Option.map_eq_some_iff.mp hstep
      obtain ⟨-, rfl⟩ := Prod.mk.inj heq
      exact (hworker htake).imp_right Or.inl
    next => exact absurd hstep (by simp)
  | unlink w =>
    simp only [fqmStep] at hstep
    split at hstep
    next =>
      obtain ⟨-, rfl⟩ := Prod.mk.inj (Option.some.inj hstep)
      exact ⟨rfl, Or.inl ⟨rfl, Or.inl rfl⟩⟩
    next => exact absurd hstep (by simp)
  | handle w =>
    simp only [fqmStep] at hstep
    split at hstep
    next =>
      split at hstep
      next => exact absurd hstep (by simp)
      next =>
        obtain ⟨-, rfl⟩ := Prod.mk.inj (Option.some.inj hstep)
        exact ⟨rfl, Or.inl ⟨rfl, Or.inl rfl⟩⟩
    next => exact absurd hstep (by simp)
  | finish w =>
    simp only [fqmStep] at hstep
    split at hstep
    next =>
      obtain ⟨-, rfl⟩ := Prod.mk.inj (Option.some.inj hstep)
      exact ⟨rfl, Or.inl ⟨rfl, Or.inl rfl⟩⟩
    next => exact absurd hstep (by simp)

/-! ## Seated runs -/

/-- The count is never negative, whoever was admitted. -/
theorem fqm_nitems_nonneg {maxitems : Int} {acts : List (FqmAct π ω)} {rcs : List (Option Int)}
    {s : FqmSys π ω} (hrun : runs fqmStep (fqmStart maxitems) acts = some (rcs, s)) :
    0 ≤ s.nitems := by
  rcases isEmpty_or_nonempty ω with hempty | hworker
  · -- without a worker nothing is taken off the queue
    refine runs_invariant (g := fun _ _ => True) (I := fun s => 0 ≤ s.nitems) ?_ (Int.le_refl 0)
      guarded_true hrun
    intro s act rc s' hI _ hstep
    rcases (fqmStep_nitems hstep).2 with ⟨-, hsame | ⟨⟨w⟩, -⟩⟩ | ⟨-, -, -, hsame, -⟩ | ⟨hgain, -⟩
    · exact hsame ▸ hI
    · exact isEmptyElim w
    · exact hsame ▸ hI
    · omega
  · obtain ⟨l, hmem, -⟩ := fqmRuns_ledger hrun
    rw [hmem.count]
    exact Int.natCast_nonneg _

theorem fqmStep_fits {maxitems : Int} {s s' : FqmSys π ω} {act : FqmAct π ω} {rc : Option Int}
    (h : s.Fits maxitems) (hseat : s.Seated act) (hstep : fqmStep s act = some (rc, s')) :
    s'.Fits maxitems := by
  obtain ⟨hmax, hfit⟩ := h
  obtain ⟨hmax', hcases⟩ := fqmStep_nitems hstep
  refine ⟨hmax'.trans hmax, ?_⟩
  rcases hcases with ⟨hadm, hsame | ⟨-, hloss⟩⟩ | ⟨p, rfl, hroom, hsame, hadm⟩ | ⟨hgain, hadm⟩
  · omega
  · omega
  · rcases hseat with hfull | hplace
    · exact absurd hfull hroom
    · omega
  · omega

/-- Where every look of `fqm_push` at `nitems` is seated, there are never more than
`maxitems` requests in the queue, and a request is linked only while there are fewer. -/
theorem fqm_bounded {maxitems : Int} {acts : List (FqmAct π ω)} {rcs : List (Option Int)}
    {s : FqmSys π ω} (hmax : 1 ≤ maxitems)
    (hseat : Guarded fqmStep FqmSys.Seated (fqmStart maxitems) acts)
    (hrun : runs fqmStep (fqmStart maxitems) acts = some (rcs, s)) :
    0 ≤ s.nitems ∧ s.nitems ≤ maxitems ∧
      ∀ p a, s.pusher p = .admitted a → s.nitems < maxitems := by
  have hfits : s.Fits maxitems := by
    refine runs_invariant (I := FqmSys.Fits maxitems) ?_ (fqmStart_fits (by omega)) hseat hrun
    intro s act rc s' hI hg hstep
    exact fqmStep_fits hI hg hstep
  obtain ⟨-, hfit⟩ := hfits
  refine ⟨fqm_nitems_nonneg hrun, by omega, ?_⟩
  intro p a hp
  have hpos : 0 < s.admitted := by
    apply count_pos.mpr
    refine ⟨p, ?_⟩
    rw [hp]
    trivial
  omega

/-- Two threads push to a queue with room for one, the second after the first was linked;
it is refused. -/
theorem fqm_bounded_two : ∃ rcs s,
    runs fqmStep (fqmStart (π := Fin 2) (ω := Fin 1) 1)
      [.new 0 0 none ⟨[65], 7, 1⟩, .check 0, .new 1 1 none ⟨[66], 8, 1⟩, .push 0 ∅, .check 1]
        = some (rcs, s) ∧
    0 ≤ s.nitems ∧ s.nitems ≤ 1 ∧ ∀ p a, s.pusher p = .admitted a → s.nitems < 1 := by
  have hseat : Guarded fqmStep FqmSys.Seated (fqmStart (π := Fin 2) (ω := Fin 1) 1)
      [.new 0 0 none ⟨[65], 7, 1⟩, .check 0, .new 1 1 none ⟨[66], 8, 1⟩, .push 0 ∅,
        .check 1] := by
    refine guarded_cons trivial rfl (guarded_cons (Or.inr ?_) rfl (guarded_cons trivial rfl
      (guarded_cons trivial rfl (guarded_cons (Or.inl rfl) rfl trivial))))
    decide
  exact ⟨_, _, rfl, fqm_bounded (by decide) hseat rfl⟩

/-- Two threads look at an empty queue with room for one, and both link. -/
theorem fqm_push_overshoots :
    ¬ ∀ (π ω : Type) (_ : DecidableEq π) (_ : DecidableEq ω) (_ : Fintype ω) (maxitems : Int)
      (acts : List (FqmAct π ω)) (rcs : List (Option Int)) (s : FqmSys π ω), 1 ≤ maxitems →
      runs fqmStep (fqmStart maxitems) acts = some (rcs, s) →
      0 ≤ s.nitems ∧ s.nitems ≤ maxitems := by
  intro h
  have hbound := h (Fin 2) (Fin 1) inferInstance inferInstance inferInstance 1
    [.new 0 0 none ⟨[65], 7, 1⟩, .new 1 1 none ⟨[66], 8, 1⟩, .check 0, .check 1, .push 0 ∅,
      .push 1 ∅] _ _ (by decide) rfl
  have htwo : (2 : Int) ≤ 1 := hbound.2
  exact absurd htwo (by decide)

/-! ## A look that is not seated -/

/-- The admitted threads link their requests, one after the other. -/
theorem fqm_push_all [Nonempty ω] : ∀ (n : Nat) {s : FqmSys π ω} {l : List (Nat × Job)},
    FqmMem s l → s.admitted = n →
    ∃ acts rcs s', runs fqmStep s acts = some (rcs, s') ∧ s'.maxitems = s.maxitems ∧
      s'.nitems = s.nitems + n := by
  intro n
  induction n with
  | zero =>
    intro s l _ _
    exact ⟨[], [], s, rfl, rfl, by omega⟩
  | succ n ih =>
    intro s l h hn
    obtain ⟨p, hp⟩ := count_pos.mp (show 0 < count Pusher.IsAdmitted s.pusher by
      change 0 < s.admitted
      omega)
    obtain ⟨a, ha⟩ : ∃ a, s.pusher p = .admitted a := by
      cases hq : s.pusher p with
      | idle =>
        rw [hq] at hp
        exact absurd hp id
      | made a =>
        rw [hq] at hp
        exact absurd hp id
      | admitted a => exact ⟨a, rfl⟩
    obtain ⟨hout, hlive⟩ := h.mine (.inl p) a (congrArg Pusher.hand ha)
    obtain ⟨m, hm⟩ := Option.ne_none_iff_exists'.mp hlive
    obtain ⟨heap, sreq, hlink, -⟩ := fqmLink_chain h hout hm
    obtain ⟨ws, hws⟩ := exists_signalsTo s
    have hstep : ∃ s₁, fqmStep s (.push p ws) = some (some 0, s₁) ∧ s₁.maxitems = s.maxitems ∧
        s₁.nitems = s.nitems + 1 ∧ s₁.admitted + 1 = s.admitted := by
      simp only [fqmStep, ha, hm, hlink, if_pos hws]
      exact ⟨_, rfl, rfl, rfl, admitted_loss rfl ha⟩
    obtain ⟨s₁, hpush, hmax, hitems, hadm⟩ := hstep
    obtain ⟨l₁, h₁, -⟩ := fqmStep_ledger h hpush
    obtain ⟨acts, rcs, s', hrun, hmax', hitems'⟩ := ih h₁ (by omega)
    refine ⟨_, _, s', runs_cons.mpr ⟨_, s₁, rcs, hpush, hrun, rfl⟩, hmax'.trans hmax, ?_⟩
    omega

/-- A look that finds room although every place is promised: from there the queue can go
over its bound. -/
theorem fqm_overbooked [Nonempty ω] {maxitems : Int} {acts : List (FqmAct π ω)}
    {rcs : List (Option Int)} {s s₁ : FqmSys π ω} {p : π}
    (hrun : runs fqmStep (fqmStart maxitems) acts = some (rcs, s))
    (hlook : fqmStep s (.check p) = some (none, s₁)) (hseat : ¬ s.Seated (.check p)) :
    ∃ acts' rcs' s', runs fqmStep s₁ acts' = some (rcs', s') ∧ s'.maxitems < s'.nitems := by
  obtain ⟨l, h, -⟩ := fqmRuns_ledger hrun
  obtain ⟨l₁, h₁, -⟩ := fqmStep_ledger h hlook
  have hfound : s.nitems = s₁.nitems ∧ s₁.maxitems = s.maxitems ∧
      s₁.admitted = s.admitted + 1 := by
    simp only [fqmStep] at hlook
    split at hlook
    next a hp =>
      split at hlook
      next => exact absurd (Prod.mk.inj (Option.some.inj hlook)).1 (by simp)
      next =>
        obtain ⟨-, rfl⟩ := Prod.mk.inj (Option.some.inj hlook)
        refine ⟨rfl, rfl, admitted_gain (a := a) rfl ?_⟩
        rw [hp]
        exact id
    next => exact absurd hlook (by simp)
  have hover : s.maxitems ≤ s.nitems + s.admitted :=
    Int.not_lt.mp fun hplace => hseat (Or.inr hplace)
  obtain ⟨acts', rcs', s', hrun', hmax', hitems'⟩ := fqm_push_all _ h₁ rfl
  refine ⟨acts', rcs', s', hrun', ?_⟩
  omega

end Steps

end Nastd.Server
