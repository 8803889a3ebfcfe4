import Mathlib.Data.Finset.Lattice.Fold
import Mathlib.Order.Lattice.Nat
import Mathlib.Order.Interval.Finset.Nat
import Mathlib.Algebra.Order.Group.Multiset
import Mathlib.Tactic.Abel

/-!
# Blocks that are allocated and freed

`malloc`, `realloc` and `free` by the addresses of the blocks. Which calls fail, and which
addresses come back, is up to an `Allocator`; it may give a freed address out again. To free
what is not allocated is undefined, which is `none`.

`Blocks.Holds m others own`: allocated are the blocks `own` and, beside them, those of
everybody else. The rules `Holds.malloc_gives`, `Holds.realloc_gives`, `Holds.frees` and
their counterparts for a call that fails say what becomes of `own`, and leave `others` as
they are.

`itemCalls` counts the calls that an array makes which grows by a fixed number of items.
-/

namespace Nastd.Lib

/-- An implementation of `malloc`: whether the `n`-th call fails, and the address it gives, which
is not in use. -/
structure Allocator where
  fails : Nat → Bool
  pick : Nat → Finset Nat → Nat
  fresh : ∀ n live, pick n live ∉ live

/-- The addresses that are allocated, and the number of calls so far. -/
structure Blocks where
  live : Finset Nat
  calls : Nat
  deriving DecidableEq

/-- `PTRDIFF_MAX`; no block is larger. -/
def ptrdiffMax : Nat := 0x7fffffffffffffff

/-- Two pointers. -/
theorem sixteen_le : 16 ≤ ptrdiffMax := by decide

namespace Allocator

/-- The address above all that are in use, where only the given calls fail. -/
def above (fails : Nat → Bool) : Allocator where
  fails := fails
  pick _ live := live.sup id + 1
  fresh _ _ h := absurd (Finset.le_sup (f := id) h) (Nat.not_succ_le_self _)

/-- None of the calls from `n` up to `n'` fails. -/
def Quiet (al : Allocator) (n n' : Nat) : Prop := ∀ k, n ≤ k → k < n' → al.fails k = false

variable {al : Allocator} {n n' n'' : Nat}

theorem quiet_self : al.Quiet n n := fun k hle hlt => absurd hle (by omega)

theorem quiet_succ : al.Quiet n (n + 1) ↔ al.fails n = false := by
  refine ⟨fun h => h n (Nat.le_refl n) (Nat.lt_succ_self n), fun h k hle hlt => ?_⟩
  obtain rfl : k = n := by omega
  exact h

theorem quiet_trans (hle : n ≤ n') (hle' : n' ≤ n'') :
    al.Quiet n n'' ↔ al.Quiet n n' ∧ al.Quiet n' n'' := by
  constructor
  · intro h
    exact ⟨fun k hk hk' => h k hk (by omega), fun k hk hk' => h k (by omega) hk'⟩
  · rintro ⟨h, h'⟩ k hk hk'
    rcases Nat.lt_or_ge k n' with hlt | hge
    · exact h k hk hlt
    · exact h' k hge hk'

/-- How many of the calls from `n` up to `n'` fail. -/
def failures (al : Allocator) (n n' : Nat) : Nat :=
  ((Finset.Ico n n').filter fun k => al.fails k = true).card

theorem failures_add (hle : n ≤ n') (hle' : n' ≤ n'') :
    al.failures n n'' = al.failures n n' + al.failures n' n'' := by
  unfold failures
  rw [← Finset.Ico_union_Ico_eq_Ico hle hle', Finset.filter_union]
  exact Finset.card_union_of_disjoint
    (Finset.disjoint_filter_filter (Finset.Ico_disjoint_Ico_consecutive n n' n''))

theorem failures_pos {k : Nat} (hle : n ≤ k) (hlt : k < n') (hfails : al.fails k = true) :
    0 < al.failures n n' :=
  Finset.card_pos.mpr ⟨k, Finset.mem_filter.mpr ⟨Finset.mem_Ico.mpr ⟨hle, hlt⟩, hfails⟩⟩

/-- There is one first call that fails. -/
theorem first_unique {f f' : Nat} (hf : n ≤ f) (hf' : n ≤ f') (hquiet : al.Quiet n f)
    (hfails : al.fails f = true) (hquiet' : al.Quiet n f') (hfails' : al.fails f' = true) :
    f = f' := by
  rcases Nat.lt_trichotomy f f' with hlt | heq | hgt
  · exact absurd (hfails.symm.trans (hquiet' f hf hlt)) (by simp)
  · exact heq
  · exact absurd (hfails'.symm.trans (hquiet f' hf' hgt)) (by simp)

end Allocator

namespace Blocks

/-- `malloc`; NULL when the call fails or the size is out of reach. -/
def malloc (al : Allocator) (m : Blocks) (size : Nat) : Option Nat × Blocks :=
  if al.fails m.calls = true ∨ ptrdiffMax < size then (none, { m with calls := m.calls + 1 })
  else
    (some (al.pick m.calls m.live), ⟨insert (al.pick m.calls m.live) m.live, m.calls + 1⟩)

/-- `free`, also of NULL. -/
def free (m : Blocks) : Option Nat → Option Blocks
  | none => some m
  | some a => if a ∈ m.live then some { m with live := m.live.erase a } else none

/-- `realloc`; where it fails the block stays. -/
def realloc (al : Allocator) (m : Blocks) (p : Option Nat) (size : Nat) :
    Option (Option Nat × Blocks) :=
  (m.free p).map fun m' =>
    match m'.malloc al size with
    | (none, m'') => (none, { m with calls := m''.calls })
    | (some a, m'') => (some a, m'')

/-- What is allocated: `own`, and what belongs to others. -/
def Holds (m : Blocks) (others : Finset Nat) (own : Multiset Nat) : Prop :=
  m.live.val = others.val + own

variable {al : Allocator} {m m' : Blocks} {others : Finset Nat} {own own' : Multiset Nat}
  {p : Option Nat} {size : Nat}

theorem holds_zero : m.Holds others 0 ↔ m.live = others := by
  unfold Holds
  rw [add_zero, Finset.val_inj]

theorem Holds.card (h : m.Holds others own) :
    m.live.card = others.card + Multiset.card own := by
  rw [← Finset.card_val, h, Multiset.card_add, Finset.card_val]

/-- Only the number of calls changes. -/
theorem Holds.recount (h : m.Holds others own) (hlive : m'.live = m.live) :
    m'.Holds others own := by
  unfold Holds
  rw [hlive]
  exact h

/-- What is there beside `live`. -/
theorem holds_sdiff {live : Finset Nat} (h : live ⊆ m.live) : m.Holds live (m.live \ live).val := by
  unfold Holds
  rw [Finset.sdiff_val, add_tsub_cancel_of_le (Finset.val_le_iff.mpr h)]

/-- What came to be allocated after that. -/
theorem Holds.more {more : Multiset Nat} (h : m.Holds others own) (h' : m'.Holds m.live more) :
    m'.Holds others (more + own) := by
  unfold Holds
  rw [h', h]
  abel

theorem Holds.malloc_fails (h : m.Holds others own) (size : Nat)
    (hfails : al.fails m.calls = true) :
    ∃ m', m.malloc al size = (none, m') ∧ m'.calls = m.calls + 1 ∧ m'.Holds others own :=
  ⟨_, if_pos (Or.inl hfails), rfl, h.recount rfl⟩

theorem Holds.malloc_huge (h : m.Holds others own) (al : Allocator) (hsize : ptrdiffMax < size) :
    ∃ m', m.malloc al size = (none, m') ∧ m'.calls = m.calls + 1 ∧ m'.Holds others own :=
  ⟨_, if_pos (Or.inr hsize), rfl, h.recount rfl⟩

theorem Holds.malloc_gives (h : m.Holds others own) (hfails : al.fails m.calls = false)
    (hsize : size ≤ ptrdiffMax) :
    ∃ a m', m.malloc al size = (some a, m') ∧ m'.calls = m.calls + 1 ∧
      m'.Holds others (a ::ₘ own) := by
  have hgives : ¬(al.fails m.calls = true ∨ ptrdiffMax < size) := by
    rw [hfails]
    simpa using hsize
  refine ⟨_, _, if_neg hgives, rfl, ?_⟩
  show (insert _ m.live).val = _
  rw [Finset.insert_val_of_notMem (al.fresh m.calls m.live), h, Multiset.add_cons]

/-- What is held can be freed. -/
theorem Holds.frees {a : Nat} (h : m.Holds others (a ::ₘ own)) :
    ∃ m', m.free (some a) = some m' ∧ m'.calls = m.calls ∧ m'.Holds others own := by
  have hval : m.live.val = a ::ₘ (others.val + own) := h.trans (Multiset.add_cons ..)
  have ha : a ∈ m.live := by
    rw [← Finset.mem_val, hval]
    exact Multiset.mem_cons_self ..
  refine ⟨_, if_pos ha, rfl, ?_⟩
  show (m.live.erase a).val = _
  rw [Finset.erase_val, hval, Multiset.erase_cons_head]

theorem Holds.frees_ptr (h : m.Holds others (↑p.toList + own)) :
    ∃ m', m.free p = some m' ∧ m'.calls = m.calls ∧ m'.Holds others own := by
  cases p with
  | none => exact ⟨m, rfl, rfl, h.trans (congrArg _ (zero_add own))⟩
  | some a => exact Holds.frees h

theorem Holds.realloc_fails (h : m.Holds others (↑p.toList + own)) (size : Nat)
    (hfails : al.fails m.calls = true) :
    ∃ m', m.realloc al p size = some (none, m') ∧ m'.calls = m.calls + 1 ∧
      m'.Holds others (↑p.toList + own) := by
  obtain ⟨m₁, hfree, hcalls, hheld⟩ := h.frees_ptr
  obtain ⟨m₂, hmalloc, hcalls', -⟩ := hheld.malloc_fails size (hcalls ▸ hfails)
  refine ⟨{ m with calls := m₂.calls }, ?_, hcalls'.trans (congrArg _ hcalls), h.recount rfl⟩
  unfold realloc
  rw [hfree, Option.map_some, hmalloc]

theorem Holds.realloc_gives (h : m.Holds others (↑p.toList + own))
    (hfails : al.fails m.calls = false) (hsize : size ≤ ptrdiffMax) :
    ∃ a m', m.realloc al p size = some (some a, m') ∧ m'.calls = m.calls + 1 ∧
      m'.Holds others (a ::ₘ own) := by
  obtain ⟨m₁, hfree, hcalls, hheld⟩ := h.frees_ptr
  obtain ⟨a, m₂, hmalloc, hcalls', hheld'⟩ := hheld.malloc_gives (hcalls ▸ hfails) hsize
  refine ⟨a, m₂, ?_, hcalls'.trans (congrArg _ hcalls), hheld'⟩
  unfold realloc
  rw [hfree, Option.map_some, hmalloc]

end Blocks

/-- The calls for `n` items: `c` for each, and one for every `g` that there is room for. -/
def itemCalls (g c n : Nat) : Nat := c * n + (n + (g - 1)) / g

theorem itemCalls_mono (g c : Nat) {n n' : Nat} (h : n ≤ n') : itemCalls g c n ≤ itemCalls g c n' :=
  Nat.add_le_add (Nat.mul_le_mul_left c h) (Nat.div_le_div_right (Nat.add_le_add_right h _))

/-- One item more; there is a call for the room if the array is full. -/
theorem itemCalls_succ {g : Nat} (hg : 0 < g) (c n : Nat) :
    itemCalls g c (n + 1) = itemCalls g c n + ((if n % g = 0 then 1 else 0) + c) := by
  have hsplit : (n + 1 + (g - 1)) / g = (n + (g - 1)) / g + if n % g = 0 then 1 else 0 := by
    obtain ⟨k, rfl⟩ := Nat.exists_eq_succ_of_ne_zero (Nat.ne_of_gt hg)
    have hfull : k + 1 ∣ n + k + 1 ↔ n % (k + 1) = 0 := by
      rw [Nat.dvd_iff_mod_eq_zero, Nat.add_assoc, Nat.add_mod_right]
    rw [Nat.succ_sub_one, Nat.add_right_comm, Nat.succ_div]
    exact congrArg _ (if_congr hfull rfl rfl)
  unfold itemCalls
  rw [hsplit, Nat.mul_add]
  omega

end Nastd.Lib
