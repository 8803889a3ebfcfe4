import Nastd.Lib.Chain
import Mathlib.Data.Finset.Card
import Mathlib.Data.Finset.Range

/-!
# What is allocated in a heap

The addresses of a `Heap` that hold a node, and what each operation of `Lib.Chain` makes of
them. Comparing them with what is linked shows what a program has lost.
-/

namespace Nastd.Lib

namespace Heap

variable {β : Type}

/-- The addresses that hold a node. -/
def live (h : Heap β) : Finset Nat := (Finset.range h.brk).filter fun a => (h.cell a).isSome

theorem mem_live {h : Heap β} {a : Nat} : a ∈ h.live ↔ h.cell a ≠ none := by
  unfold live
  rw [Finset.mem_filter, Finset.mem_range, Option.isSome_iff_ne_none]
  refine and_iff_right_of_imp fun ha => ?_
  by_contra hle
  exact ha (h.unallocated a (by omega))

theorem brk_not_live (h : Heap β) : h.brk ∉ h.live := fun hm =>
  mem_live.mp hm (h.unallocated _ (Nat.le_refl _))

@[simp] theorem live_empty : (empty : Heap β).live = ∅ := rfl

@[simp] theorem live_modify (h : Heap β) (a : Nat) (f : Node β → Node β) :
    (h.modify a f).live = h.live := by
  ext b
  rw [mem_live, mem_live]
  by_cases hb : b = a
  · subst hb
    rw [modify_cell_self, ne_eq, Option.map_eq_none_iff]
  · rw [modify_cell_ne hb]

@[simp] theorem live_free (h : Heap β) (a : Nat) : (h.free a).live = h.live.erase a := by
  ext b
  rw [Finset.mem_erase, mem_live, mem_live]
  by_cases hb : b = a
  · subst hb
    refine iff_of_false (fun h => h (Function.update_self ..)) fun h => h.1 rfl
  · rw [free_cell_ne hb]
    exact (and_iff_right hb).symm

@[simp] theorem live_alloc (h : Heap β) (n : Node β) :
    (h.alloc n).live = insert h.brk h.live := by
  ext b
  rw [Finset.mem_insert, mem_live, mem_live]
  by_cases hb : b = h.brk
  · subst hb
    refine iff_of_true (fun hnone => ?_) (Or.inl rfl)
    rw [alloc_cell_self] at hnone
    exact absurd hnone (by simp)
  · rw [alloc_cell_ne hb]
    exact (or_iff_right hb).symm

/-- One node more. -/
theorem card_live_alloc (h : Heap β) (n : Node β) : (h.alloc n).live.card = h.live.card + 1 := by
  rw [live_alloc, Finset.card_insert_of_notMem h.brk_not_live]

/-- One node less. -/
theorem card_live_free {h : Heap β} {a : Nat} (ha : h.cell a ≠ none) :
    (h.free a).live.card + 1 = h.live.card := by
  rw [live_free, Finset.card_erase_add_one (mem_live.mpr ha)]

end Heap

@[simp] theorem relink_live {β : Type} (h : Heap β) (head q p : Option Nat) :
    (relink h head q p).1.live = h.live := by
  cases q with
  | none => rfl
  | some a => exact h.live_modify a _

end Nastd.Lib
