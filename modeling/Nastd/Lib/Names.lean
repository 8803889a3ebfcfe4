import Mathlib.Logic.Function.Basic

/-!
# Reused names

A name (a descriptor, a slot, a request id) is bound to one holder at a time, released
and bound again. Whoever refers to a holder by its name alone may find another one
there later. A reference is `Current` as long as it cannot: its name is free, or still
bound to the holder it was made for.

* `current_of_bound`: a reference made while the name is bound.
* `Current.release`: no release spoils a reference.
* `Current.bind`: nor does a binding of another name. Binding the name itself again is
  the one thing that can.
-/

namespace Nastd.Lib

variable {ν κ : Type}

/-- The names that are bound, and to whom. -/
abbrev Names (ν κ : Type) := ν → Option κ

/-- The name is free or bound to `k`. -/
def Names.Current (names : Names ν κ) (n : ν) (k : κ) : Prop := ∀ k', names n = some k' → k' = k

namespace Names

variable {names : Names ν κ} {n m : ν} {k k' : κ}

theorem current_of_bound (h : names n = some k) : names.Current n k := by
  intro k' hk'
  exact Option.some.inj (hk'.symm.trans h)

/-- Whoever is found under a current name is the one meant. -/
theorem Current.found (h : names.Current n k) (hfound : names n = some k') : k' = k := h k' hfound

section Change

variable [DecidableEq ν]

/-- The name is bound to `k` from now on. -/
def bind (names : Names ν κ) (m : ν) (k : κ) : Names ν κ := Function.update names m (some k)

/-- The name is free from now on. -/
def release (names : Names ν κ) (m : ν) : Names ν κ := Function.update names m none

@[simp] theorem bind_self : names.bind m k m = some k := Function.update_self ..

theorem bind_ne (h : n ≠ m) : names.bind m k n = names n := Function.update_of_ne h ..

@[simp] theorem release_self : names.release m m = none := Function.update_self ..

theorem release_ne (h : n ≠ m) : names.release m n = names n := Function.update_of_ne h ..

theorem Current.release (h : names.Current n k) : (names.release m).Current n k := by
  intro k' hk'
  by_cases hn : n = m
  · rw [hn, release_self] at hk'
    exact absurd hk' (by simp)
  · rw [release_ne hn] at hk'
    exact h k' hk'

theorem Current.bind (h : names.Current n k) (hne : n ≠ m) : (names.bind m k').Current n k := by
  intro k'' hk''
  rw [bind_ne hne] at hk''
  exact h k'' hk''

end Change

end Names

end Nastd.Lib
