import Nastd.Lib.Run
import Nastd.Nastipc

/-!
# The storage of an `array_t`

`server/array.c` with the number of item slots each array has been given. `array_add`
asks for ten more whenever the number of items is a multiple of ten, so an array it has
filled has its items rounded up to the next ten. A copy made by `array_dup` has a slot
for each item and no more: where their number is not a multiple of ten, the next
`array_add` stores behind the last slot.

Every store into `items` and every load from it is recorded, with the number of slots the
array has then. Allocations succeed; `slots` and `copied` are kept for the record.

* `array_slots_iff`: nothing outside the slots is touched, and no array holds more items
  than it has slots, if and only if no such copy was added to.
-/

namespace Nastd.Server

open Nastd.Lib

/-- `array_t`: its items, the slots behind `items`, and whether `array_dup` allocated
them. -/
structure ArrayT where
  items : List Bytes
  slots : Nat
  copied : Bool
  deriving DecidableEq, Repr

/-- `aa->items[index]`, where `slots` are allocated. -/
structure SlotAccess where
  index : Nat
  slots : Nat
  deriving DecidableEq, Repr

def SlotAccess.Inside (a : SlotAccess) : Prop := a.index < a.slots

namespace ArrayT

def nitems (aa : ArrayT) : Nat := aa.items.length

/-- `array_new`. -/
def arrayNew : ArrayT := ⟨[], 0, false⟩

/-- `aa->nitems % GRANULARITY == 0`: `realloc` to ten more than there are items. -/
def grown (aa : ArrayT) : Nat := if aa.nitems % 10 = 0 then 10 + aa.nitems else aa.slots

/-- One round of the loop of `va_array_add`: the string is stored, and the slot compared
with NULL. -/
def addOne (aa : ArrayT) (s : Bytes) : List SlotAccess × ArrayT :=
  ([⟨aa.nitems, aa.grown⟩, ⟨aa.nitems, aa.grown⟩], ⟨aa.items ++ [s], aa.grown, false⟩)

/-- `array_add`; `strs` are its arguments before `ARRTERM`. -/
def arrayAdd (aa : ArrayT) : List Bytes → List SlotAccess × ArrayT
  | [] => ([], aa)
  | s :: strs =>
    let r := arrayAdd (aa.addOne s).2 strs
    ((aa.addOne s).1 ++ r.1, r.2)

/-- `array_dup` into `dst`: an item of `src` is loaded twice, stored, and compared with
NULL. -/
def arrayDup (src : ArrayT) : List SlotAccess × ArrayT :=
  ((List.range src.nitems).flatMap fun i =>
      [⟨i, src.slots⟩, ⟨i, src.slots⟩, ⟨i, src.nitems⟩, ⟨i, src.nitems⟩],
    ⟨src.items, src.nitems, true⟩)

end ArrayT

inductive ArrayOp where
  | new (a : Nat)
  | add (a : Nat) (strs : List Bytes)
  | dup (dst src : Nat)

/-- The arrays of the program, by address. -/
abbrev Arrays := Nat → Option ArrayT

/-- One call and what it touches. The copy goes into an array that nothing was done to. -/
def arrayStep (s : Arrays) : ArrayOp → Option (List SlotAccess × Arrays)
  | .new a => if s a = none then some ([], Function.update s a (some .arrayNew)) else none
  | .add a strs =>
    (s a).map fun aa => ((aa.arrayAdd strs).1, Function.update s a (some (aa.arrayAdd strs).2))
  | .dup dst src =>
    if s dst = some .arrayNew then
      (s src).map fun aa => (aa.arrayDup.1, Function.update s dst (some aa.arrayDup.2))
    else none

/-- A copy, not added to since, of items whose number is not a multiple of ten. -/
def ArrayT.Ragged (aa : ArrayT) : Prop := aa.copied = true ∧ aa.nitems % 10 ≠ 0

/-- The call does not add to such a copy. -/
def AddsToWhole (s : Arrays) : ArrayOp → Prop
  | .add a strs => strs ≠ [] → ∀ aa, s a = some aa → ¬ aa.Ragged
  | _ => True

/-! ## One array -/

namespace ArrayT

/-- The number of slots an array should have. -/
structure Fits (aa : ArrayT) : Prop where
  copy : aa.copied = true → aa.slots = aa.nitems
  filled : aa.copied = false → aa.slots = (aa.nitems + 9) / 10 * 10

theorem Fits.nitems_le {aa : ArrayT} (h : aa.Fits) : aa.nitems ≤ aa.slots := by
  cases hc : aa.copied with
  | true => exact Nat.le_of_eq (h.copy hc).symm
  | false =>
    rw [h.filled hc]
    omega

theorem fits_new : arrayNew.Fits := ⟨fun h => absurd h (by decide), fun _ => rfl⟩

theorem nitems_addOne (aa : ArrayT) (s : Bytes) : (aa.addOne s).2.nitems = aa.nitems + 1 :=
  List.length_append

/-- One item more: there is a slot for it, and the slots are rounded up again. -/
theorem addOne_fits {aa : ArrayT} (h : aa.Fits) (hwhole : ¬ aa.Ragged) (s : Bytes) :
    (∀ a ∈ (aa.addOne s).1, a.Inside) ∧ (aa.addOne s).2.Fits := by
  have hgrown : aa.grown = (aa.nitems + 1 + 9) / 10 * 10 := by
    unfold grown
    split
    · omega
    · next hrest =>
      have hc : aa.copied = false := by
        cases hc : aa.copied with
        | false => rfl
        | true => exact absurd ⟨hc, hrest⟩ hwhole
      rw [h.filled hc]
      omega
  refine ⟨?_, ?_⟩
  · intro a ha
    have heq : a = ⟨aa.nitems, aa.grown⟩ := by simpa [addOne] using ha
    rw [heq]
    show aa.nitems < aa.grown
    omega
  · refine ⟨fun hc => absurd hc (by simp [addOne]), fun _ => ?_⟩
    rw [nitems_addOne]
    exact hgrown

theorem not_ragged_addOne (aa : ArrayT) (s : Bytes) : ¬ (aa.addOne s).2.Ragged :=
  fun h => absurd h.1 (by simp [addOne])

theorem arrayAdd_fits {strs : List Bytes} :
    ∀ {aa : ArrayT}, aa.Fits → (strs ≠ [] → ¬ aa.Ragged) →
      (∀ a ∈ (aa.arrayAdd strs).1, a.Inside) ∧ (aa.arrayAdd strs).2.Fits := by
  induction strs with
  | nil =>
    intro aa h _
    exact ⟨fun a ha => absurd ha List.not_mem_nil, h⟩
  | cons s strs ih =>
    intro aa h hwhole
    obtain ⟨hfirst, hfits⟩ := addOne_fits h (hwhole (List.cons_ne_nil _ _)) s
    obtain ⟨hrest, hfits'⟩ := ih hfits fun _ => not_ragged_addOne aa s
    refine ⟨fun a ha => ?_, hfits'⟩
    rcases List.mem_append.mp ha with ha | ha
    · exact hfirst a ha
    · exact hrest a ha

/-- Adding to a copy whose slots are all in use stores behind the last one. -/
theorem arrayAdd_ragged {aa : ArrayT} (h : aa.Fits) (hragged : aa.Ragged) {strs : List Bytes}
    (hne : strs ≠ []) : ∃ a ∈ (aa.arrayAdd strs).1, ¬ a.Inside := by
  obtain ⟨s, strs, rfl⟩ := List.exists_cons_of_ne_nil hne
  refine ⟨⟨aa.nitems, aa.grown⟩, List.mem_append_left _ (List.mem_cons_self ..), ?_⟩
  have hslots : aa.grown = aa.nitems := by
    unfold grown
    rw [if_neg hragged.2]
    exact h.copy hragged.1
  show ¬ aa.nitems < aa.grown
  omega

theorem arrayDup_fits {src : ArrayT} (h : src.Fits) :
    (∀ a ∈ src.arrayDup.1, a.Inside) ∧ src.arrayDup.2.Fits := by
  have hle := h.nitems_le
  refine ⟨?_, ?_⟩
  · intro a ha
    obtain ⟨i, hi, ha⟩ := List.mem_flatMap.mp ha
    have hlt := List.mem_range.mp hi
    have hcases : a = ⟨i, src.slots⟩ ∨ a = ⟨i, src.nitems⟩ := by
      simp only [List.mem_cons, List.not_mem_nil, or_false] at ha
      tauto
    rcases hcases with rfl | rfl
    · exact Nat.lt_of_lt_of_le hlt hle
    · exact hlt
  · exact ⟨fun _ => rfl, fun hc => absurd hc (by simp [arrayDup])⟩

end ArrayT

/-! ## Any number of arrays -/

/-- Every array has the slots it should have. -/
def ArraysFit (s : Arrays) : Prop := ∀ a aa, s a = some aa → aa.Fits

theorem arraysFit_update {s : Arrays} (h : ArraysFit s) {a : Nat} {aa : ArrayT} (haa : aa.Fits) :
    ArraysFit (Function.update s a (some aa)) := by
  intro b bb hb
  by_cases hab : b = a
  · subst hab
    rw [Function.update_self] at hb
    exact Option.some.inj hb ▸ haa
  · rw [Function.update_of_ne hab] at hb
    exact h b bb hb

theorem arrayStep_fits {s s' : Arrays} {op : ArrayOp} {o : List SlotAccess} (h : ArraysFit s)
    (hwhole : AddsToWhole s op) (hstep : arrayStep s op = some (o, s')) :
    (∀ a ∈ o, a.Inside) ∧ ArraysFit s' := by
  cases op with
  | new a =>
    simp only [arrayStep] at hstep
    split at hstep
    next =>
      obtain ⟨rfl, rfl⟩ := Prod.mk.inj (Option.some.inj hstep)
      exact ⟨fun x hx => absurd hx List.not_mem_nil, arraysFit_update h ArrayT.fits_new⟩
    next => exact absurd hstep (by simp)
  | add a strs =>
    obtain ⟨aa, haa, heq⟩ := Option.map_eq_some_iff.mp hstep
    obtain ⟨rfl, rfl⟩ := Prod.mk.inj heq
    obtain ⟨hinside, hfits⟩ := ArrayT.arrayAdd_fits (h a aa haa) fun hne => hwhole hne aa haa
    exact ⟨hinside, arraysFit_update h hfits⟩
  | dup dst src =>
    simp only [arrayStep] at hstep
    split at hstep
    next =>
      obtain ⟨aa, haa, heq⟩ := Option.map_eq_some_iff.mp hstep
      obtain ⟨rfl, rfl⟩ := Prod.mk.inj heq
      obtain ⟨hinside, hfits⟩ := ArrayT.arrayDup_fits (h src aa haa)
      exact ⟨hinside, arraysFit_update h hfits⟩
    next => exact absurd hstep (by simp)

/-- A call that adds to a copy whose slots are all in use goes outside. -/
theorem arrayStep_outside {s s' : Arrays} {op : ArrayOp} {o : List SlotAccess} (h : ArraysFit s)
    (hragged : ¬ AddsToWhole s op) (hstep : arrayStep s op = some (o, s')) :
    ∃ a ∈ o, ¬ a.Inside := by
  cases op with
  | new a => exact absurd trivial hragged
  | dup dst src => exact absurd trivial hragged
  | add a strs =>
    obtain ⟨aa, haa, heq⟩ := Option.map_eq_some_iff.mp hstep
    obtain ⟨rfl, rfl⟩ := Prod.mk.inj heq
    have hbad : strs ≠ [] ∧ aa.Ragged := by
      by_contra hnot
      apply hragged
      intro hne bb hbb hr
      obtain rfl : aa = bb := Option.some.inj (haa.symm.trans hbb)
      exact hnot ⟨hne, hr⟩
    exact ArrayT.arrayAdd_ragged (h a aa haa) hbad.2 hbad.1

theorem arrays_inside_iff {ops : List ArrayOp} :
    ∀ {s s' : Arrays} {os : List (List SlotAccess)}, ArraysFit s →
      runs arrayStep s ops = some (os, s') →
      ((∀ o ∈ os, ∀ a ∈ o, a.Inside) ↔ Guarded arrayStep AddsToWhole s ops) ∧
        (Guarded arrayStep AddsToWhole s ops → ArraysFit s') := by
  induction ops with
  | nil =>
    intro s s' os h hrun
    obtain ⟨rfl, rfl⟩ := Prod.mk.inj (Option.some.inj hrun)
    exact ⟨⟨fun _ => trivial, fun _ o ho => absurd ho List.not_mem_nil⟩, fun _ => h⟩
  | cons op ops ih =>
    intro s s' os h hrun
    obtain ⟨o, s₁, os', hstep, hrun', rfl⟩ := runs_cons.mp hrun
    by_cases hwhole : AddsToWhole s op
    · obtain ⟨hinside, h₁⟩ := arrayStep_fits h hwhole hstep
      obtain ⟨hiff, hfits⟩ := ih h₁ hrun'
      rw [List.forall_mem_cons]
      refine ⟨⟨fun hall => guarded_cons hwhole hstep (hiff.mp hall.2), fun hguard => ?_⟩,
        fun hguard => hfits (hguard.2 o s₁ hstep)⟩
      exact ⟨hinside, hiff.mpr (hguard.2 o s₁ hstep)⟩
    · obtain ⟨a, ha, hout⟩ := arrayStep_outside h hwhole hstep
      refine ⟨⟨fun hall => ?_, fun hguard => absurd hguard.1 hwhole⟩,
        fun hguard => absurd hguard.1 hwhole⟩
      exact absurd (hall o (List.mem_cons_self ..) a ha) hout

/-- Whatever is done with any number of arrays: every slot that is stored into or loaded
from is allocated and no array holds more items than it has slots, if and only if no item
was added to a copy of items whose number is not a multiple of ten. -/
theorem array_slots_iff {ops : List ArrayOp} {os : List (List SlotAccess)} {s : Arrays}
    (hrun : runs arrayStep (fun _ => none) ops = some (os, s)) :
    ((∀ o ∈ os, ∀ a ∈ o, a.Inside) ∧ ∀ a aa, s a = some aa → aa.nitems ≤ aa.slots) ↔
      Guarded arrayStep AddsToWhole (fun _ => none) ops := by
  have hnone : ArraysFit fun _ => none := fun a aa h => absurd h (by simp)
  obtain ⟨hiff, hfits⟩ := arrays_inside_iff hnone hrun
  constructor
  · intro hall
    exact hiff.mp hall.1
  · intro hguard
    exact ⟨hiff.mpr hguard, fun a aa haa => (hfits hguard a aa haa).nitems_le⟩

/-- Eleven items, and a copy of ten that is added to. -/
theorem array_slots_iff_grown : ∃ os s,
    runs arrayStep (fun _ => none)
      [.new 0, .add 0 (List.replicate 10 [7]), .new 1, .dup 1 0, .add 1 [[8]], .add 0 [[9]]]
        = some (os, s) ∧
    ((∀ o ∈ os, ∀ a ∈ o, a.Inside) ∧ ∀ a aa, s a = some aa → aa.nitems ≤ aa.slots) := by
  have hguard : Guarded arrayStep AddsToWhole (fun _ => none)
      [.new 0, .add 0 (List.replicate 10 [7]), .new 1, .dup 1 0, .add 1 [[8]], .add 0 [[9]]] := by
    refine guarded_cons trivial rfl (guarded_cons ?_ rfl (guarded_cons trivial rfl
      (guarded_cons trivial rfl (guarded_cons ?_ rfl (guarded_cons ?_ rfl trivial)))))
    · intro _ aa haa
      obtain rfl := Option.some.inj haa
      exact fun h => absurd h.1 (by decide)
    · intro _ aa haa
      obtain rfl := Option.some.inj haa
      exact fun h => absurd h.2 (by decide)
    · intro _ aa haa
      obtain rfl := Option.some.inj haa
      exact fun h => absurd h.1 (by decide)
  exact ⟨_, _, rfl, (array_slots_iff (by rfl)).mpr hguard⟩

/-- A copy of one item has one slot; the next item is stored in the second. -/
theorem array_copy_overflows :
    ¬ ∀ (ops : List ArrayOp) (os : List (List SlotAccess)) (s : Arrays),
      runs arrayStep (fun _ => none) ops = some (os, s) →
      (∀ o ∈ os, ∀ a ∈ o, a.Inside) ∧ ∀ a aa, s a = some aa → aa.nitems ≤ aa.slots := by
  intro h
  have hall := (h [.new 0, .add 0 [[7]], .new 1, .dup 1 0, .add 1 [[8]]] _ _ rfl).1
  have hout : SlotAccess.Inside ⟨1, 1⟩ := by
    apply hall [⟨1, 1⟩, ⟨1, 1⟩]
    · decide
    · exact List.mem_cons_self ..
  exact absurd hout (by unfold SlotAccess.Inside; decide)

end Nastd.Server
