import Mathlib.Algebra.BigOperators.Group.Finset.Piecewise
import Mathlib.Algebra.Order.BigOperators.Group.Finset
import Mathlib.Data.Fintype.Basic

/-!
# Threads at a monitor

Code under a mutex with condition variables, for any number of threads. Each stretch
between taking and giving up the mutex is one step; a thread map says where every
thread stands.

* `total f place`: a number at every place, added up over the threads; `count p place`:
  how many stand at a place with `p`. `total_update` and `count_update` say what changes
  when one thread moves.
* `SignalsTo asleep ws`: a signal may wake the threads `ws`: sleepers, and at least one
  if there is one.
* `wake ws there at`: the threads `ws` are moved to a place; what `p` does not tell
  apart from where they were is counted as before (`count_wake`).
-/

namespace Nastd.Lib

variable {θ α : Type}

section Count

variable [Fintype θ]

/-- A number at every place, over all threads. -/
def total (f : α → Nat) (place : θ → α) : Nat := ∑ t, f (place t)

theorem total_update [DecidableEq θ] (f : α → Nat) (place : θ → α) (t : θ) (x : α) :
    total f (Function.update place t x) + f (place t) = total f place + f x := by
  have hrest : ∑ u ∈ Finset.univ.erase t, f (Function.update place t x u)
      = ∑ u ∈ Finset.univ.erase t, f (place u) := by
    refine Finset.sum_congr rfl fun u hu => ?_
    rw [Function.update_of_ne (Finset.ne_of_mem_erase hu)]
  unfold total
  rw [← Finset.add_sum_erase _ _ (Finset.mem_univ t),
    ← Finset.add_sum_erase Finset.univ (fun u => f (place u)) (Finset.mem_univ t), hrest,
    Function.update_self]
  omega

theorem le_total (f : α → Nat) (place : θ → α) (t : θ) : f (place t) ≤ total f place :=
  Finset.single_le_sum (f := fun u => f (place u)) (fun _ _ => Nat.zero_le _) (Finset.mem_univ t)

theorem total_eq_zero {f : α → Nat} {place : θ → α} :
    total f place = 0 ↔ ∀ t, f (place t) = 0 := by
  unfold total
  rw [Finset.sum_eq_zero_iff]
  exact ⟨fun h t => h t (Finset.mem_univ t), fun h t _ => h t⟩

variable (p : α → Prop) [DecidablePred p]

/-- The number of threads at a place with `p`. -/
def count (place : θ → α) : Nat := (Finset.univ.filter fun t => p (place t)).card

variable {p}

theorem count_eq_total (place : θ → α) :
    count p place = total (fun x => if p x then 1 else 0) place :=
  Finset.card_filter _ _

section Move

variable [DecidableEq θ]

theorem count_update (place : θ → α) (t : θ) (x : α) :
    count p (Function.update place t x) + (if p (place t) then 1 else 0)
      = count p place + (if p x then 1 else 0) := by
  rw [count_eq_total, count_eq_total]
  exact total_update _ place t x

/-- Moving between two places with `p`, or between two without. -/
theorem count_update_same {place : θ → α} {t : θ} {x : α} (h : p (place t) ↔ p x) :
    count p (Function.update place t x) = count p place := by
  have hmove := count_update (p := p) place t x
  rw [if_congr h rfl rfl] at hmove
  omega

end Move

theorem count_pos {place : θ → α} : 0 < count p place ↔ ∃ t, p (place t) := by
  unfold count
  rw [Finset.card_pos]
  constructor
  · intro ⟨t, ht⟩
    exact ⟨t, (Finset.mem_filter.mp ht).2⟩
  · intro ⟨t, ht⟩
    exact ⟨t, Finset.mem_filter.mpr ⟨Finset.mem_univ t, ht⟩⟩

theorem count_eq_zero {place : θ → α} : count p place = 0 ↔ ∀ t, ¬ p (place t) := by
  rw [← not_iff_not, not_forall_not, ← count_pos]
  exact Nat.pos_iff_ne_zero.symm

theorem count_congr {place place' : θ → α} (h : ∀ t, p (place t) ↔ p (place' t)) :
    count p place = count p place' := by
  unfold count
  rw [Finset.filter_congr fun t _ => h t]

end Count

/-! ## Condition variables -/

variable [DecidableEq θ]

/-- A signal may wake `ws`: only sleepers, and at least one if there is one. -/
def SignalsTo (asleep : θ → Prop) (ws : Finset θ) : Prop :=
  (∀ t ∈ ws, asleep t) ∧ (ws = ∅ → ∀ t, ¬ asleep t)

instance [Fintype θ] (asleep : θ → Prop) [DecidablePred asleep] (ws : Finset θ) :
    Decidable (SignalsTo asleep ws) :=
  inferInstanceAs (Decidable (_ ∧ _))

omit [DecidableEq θ] in
/-- Somebody can be woken if anybody sleeps. -/
theorem SignalsTo.exists (asleep : θ → Prop) : ∃ ws : Finset θ, SignalsTo asleep ws := by
  by_cases h : ∃ t, asleep t
  · obtain ⟨t, ht⟩ := h
    refine ⟨{t}, ?_, fun hempty => absurd hempty (Finset.singleton_ne_empty t)⟩
    intro u hu
    rw [Finset.mem_singleton.mp hu]
    exact ht
  · exact ⟨∅, fun _ hu => absurd hu (Finset.notMem_empty _), fun _ t ht => h ⟨t, ht⟩⟩

/-- The threads `ws` are moved. -/
def wake (ws : Finset θ) (there : α) (place : θ → α) : θ → α :=
  fun t => if t ∈ ws then there else place t

theorem wake_mem {ws : Finset θ} {there : α} {place : θ → α} {t : θ} (h : t ∈ ws) :
    wake ws there place t = there := if_pos h

theorem wake_not_mem {ws : Finset θ} {there : α} {place : θ → α} {t : θ} (h : t ∉ ws) :
    wake ws there place t = place t := if_neg h

/-- A thread at a place with `p` was there, or has just been moved there. -/
theorem wake_cases (ws : Finset θ) (there : α) (place : θ → α) (t : θ) :
    t ∈ ws ∧ wake ws there place t = there ∨ t ∉ ws ∧ wake ws there place t = place t := by
  by_cases h : t ∈ ws
  · exact Or.inl ⟨h, wake_mem h⟩
  · exact Or.inr ⟨h, wake_not_mem h⟩

theorem count_wake [Fintype θ] {p : α → Prop} [DecidablePred p] {ws : Finset θ} {there : α}
    {place : θ → α} (h : ∀ t ∈ ws, (p (place t) ↔ p there)) :
    count p (wake ws there place) = count p place := by
  refine count_congr fun t => ?_
  rcases wake_cases ws there place t with ⟨hmem, heq⟩ | ⟨-, heq⟩
  · rw [heq]
    exact (h t hmem).symm
  · rw [heq]

end Nastd.Lib
