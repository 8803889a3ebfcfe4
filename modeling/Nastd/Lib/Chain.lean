import Mathlib.Data.List.Nodup
import Mathlib.Data.List.Infix
import Mathlib.Data.List.Perm.Subperm

/-!
# Singly linked chains in a heap

Hand-written C list code keeps a head pointer, walks it with a trailing pointer,
and splices by writing one `next` field. This file is that idiom once, for any
payload: a heap of nodes, the walk, the splice, and the predicate that says which
list a head pointer stands for.

* `Heap`: cells by address, handed out in order; the field `unallocated` keeps
  every address at or above `brk` empty, so a fresh cell never aliases. (`put` is for
  an allocator that may give a freed address out again.)
* `Seg h p l q`: following `next` from `p` reads exactly the list `l` and then
  stands at `q`. A whole chain is `Seg h p l none`.
* `walk`: `while (p != NULL && !stop(p)) { q = p; p = p->next; }`, with fuel.
  `walk_chain` says what it returns on a chain, so no caller unfolds the loop.
* `relink`: `if (q != NULL) q->next = p'; else head = p';`.

The frame rule is `Seg.frame`: a segment only depends on the cells it lists.
Everything a chain owner needs (no address twice, so no cycle; enough fuel) is
derived from `Seg` alone.
-/

namespace Nastd.Lib

/-- A list node: the payload and the link to the next node. -/
structure Node (β : Type) where
  ent : β
  next : Option Nat

/-- A heap of nodes. `alloc` hands addresses out in order and never again, so a
freed address stays dangling. -/
structure Heap (β : Type) where
  cell : Nat → Option (Node β)
  brk : Nat
  unallocated : ∀ a, brk ≤ a → cell a = none

namespace Heap

variable {β : Type}

/-- The heap before any allocation. -/
def empty : Heap β := ⟨fun _ => none, 0, fun _ _ => rfl⟩

/-- Overwrite the cell at `a` by what `f` makes of it. A dangling address is left
dangling. -/
def modify (h : Heap β) (a : Nat) (f : Node β → Node β) : Heap β where
  cell := Function.update h.cell a ((h.cell a).map f)
  brk := h.brk
  unallocated b hb := by
    by_cases hab : b = a
    · subst hab
      rw [Function.update_self, h.unallocated b hb]
      rfl
    · rw [Function.update_of_ne hab, h.unallocated b hb]

/-- `free(a)`. -/
def free (h : Heap β) (a : Nat) : Heap β where
  cell := Function.update h.cell a none
  brk := h.brk
  unallocated b hb := by
    by_cases hab : b = a
    · subst hab
      rw [Function.update_self]
    · rw [Function.update_of_ne hab, h.unallocated b hb]

/-- `malloc` and initialise: the new node's address is the old `brk`. -/
def alloc (h : Heap β) (n : Node β) : Heap β where
  cell := Function.update h.cell h.brk (some n)
  brk := h.brk + 1
  unallocated b hb := by
    rw [Function.update_of_ne (by omega), h.unallocated b (by omega)]

/-- `malloc` and initialise at an address that is free, one that was freed before too. -/
def put (h : Heap β) (a : Nat) (n : Node β) : Heap β where
  cell := Function.update h.cell a (some n)
  brk := max h.brk (a + 1)
  unallocated b hb := by
    rw [Function.update_of_ne (by omega), h.unallocated b (by omega)]

@[simp] theorem modify_cell_self (h : Heap β) (a : Nat) (f : Node β → Node β) :
    (h.modify a f).cell a = (h.cell a).map f := Function.update_self ..

@[simp] theorem modify_cell_ne {h : Heap β} {a b : Nat} (hab : b ≠ a) (f : Node β → Node β) :
    (h.modify a f).cell b = h.cell b := Function.update_of_ne hab ..

@[simp] theorem free_cell_ne {h : Heap β} {a b : Nat} (hab : b ≠ a) :
    (h.free a).cell b = h.cell b := Function.update_of_ne hab ..

@[simp] theorem alloc_cell_self (h : Heap β) (n : Node β) :
    (h.alloc n).cell h.brk = some n := Function.update_self ..

@[simp] theorem alloc_cell_ne {h : Heap β} {b : Nat} (hb : b ≠ h.brk) (n : Node β) :
    (h.alloc n).cell b = h.cell b := Function.update_of_ne hb ..

@[simp] theorem put_cell_self (h : Heap β) (a : Nat) (n : Node β) :
    (h.put a n).cell a = some n := Function.update_self ..

@[simp] theorem put_cell_ne {h : Heap β} {a b : Nat} (hb : b ≠ a) (n : Node β) :
    (h.put a n).cell b = h.cell b := Function.update_of_ne hb ..

@[simp] theorem modify_brk (h : Heap β) (a : Nat) (f : Node β → Node β) :
    (h.modify a f).brk = h.brk := rfl

/-- `a` was handed out and has been freed since. -/
def Dead (h : Heap β) (a : Nat) : Prop := a < h.brk ∧ h.cell a = none

theorem Dead.modify {h : Heap β} {a b : Nat} (hd : h.Dead b) (f : Node β → Node β) :
    (h.modify a f).Dead b := by
  refine ⟨hd.1, ?_⟩
  by_cases hb : b = a
  · subst hb
    rw [modify_cell_self, hd.2]
    rfl
  · rw [modify_cell_ne hb, hd.2]

theorem Dead.free {h : Heap β} {a b : Nat} (hd : h.Dead b) : (h.free a).Dead b := by
  refine ⟨hd.1, ?_⟩
  by_cases hb : b = a
  · subst hb
    exact Function.update_self ..
  · rw [free_cell_ne hb, hd.2]

theorem Dead.alloc {h : Heap β} {b : Nat} (hd : h.Dead b) (n : Node β) :
    (h.alloc n).Dead b := by
  have hlt : b < h.brk := hd.1
  refine ⟨Nat.lt_succ_of_lt hlt, ?_⟩
  rw [alloc_cell_ne (Nat.ne_of_lt hlt), hd.2]

theorem dead_free {h : Heap β} {a : Nat} (ha : a < h.brk) : (h.free a).Dead a :=
  ⟨ha, Function.update_self ..⟩

/-- An allocated cell lies below `brk`. -/
theorem lt_brk {h : Heap β} {a : Nat} {n : Node β} (ha : h.cell a = some n) : a < h.brk := by
  by_contra hge
  rw [h.unallocated a (by omega)] at ha
  exact absurd ha (by simp)

end Heap

variable {β : Type}

/-! ## Segments -/

/-- From `p`, following `next` reads the nodes `l` (address and payload) and ends
at `q`. -/
def Seg (h : Heap β) : Option Nat → List (Nat × β) → Option Nat → Prop
  | p, [], q => p = q
  | p, (a, e) :: l, q => p = some a ∧ ∃ n, h.cell a = some ⟨e, n⟩ ∧ Seg h n l q

@[simp] theorem seg_nil {h : Heap β} {p q : Option Nat} : Seg h p [] q ↔ p = q := Iff.rfl

@[simp] theorem seg_cons {h : Heap β} {p q : Option Nat} {a : Nat} {e : β} {l : List (Nat × β)} :
    Seg h p ((a, e) :: l) q ↔ p = some a ∧ ∃ n, h.cell a = some ⟨e, n⟩ ∧ Seg h n l q := Iff.rfl

theorem seg_append {h : Heap β} {l₁ l₂ : List (Nat × β)} :
    ∀ {p q : Option Nat}, Seg h p (l₁ ++ l₂) q ↔ ∃ m, Seg h p l₁ m ∧ Seg h m l₂ q := by
  induction l₁ with
  | nil => intro p q; simp
  | cons x l₁ ih =>
    obtain ⟨a, e⟩ := x
    intro p q
    simp only [List.cons_append, seg_cons, ih]
    constructor
    · intro ⟨hp, n, hn, m, h₁, h₂⟩
      exact ⟨m, ⟨hp, n, hn, h₁⟩, h₂⟩
    · intro ⟨m, ⟨hp, n, hn, h₁⟩, h₂⟩
      exact ⟨hp, n, hn, m, h₁, h₂⟩

/-- Frame rule: a segment survives any change of the heap that keeps its cells. -/
theorem Seg.frame {h h' : Heap β} {l : List (Nat × β)} :
    ∀ {p q : Option Nat}, (∀ x ∈ l, h'.cell x.1 = h.cell x.1) → Seg h p l q → Seg h' p l q := by
  induction l with
  | nil => intro p q _ hs; exact hs
  | cons x l ih =>
    obtain ⟨a, e⟩ := x
    intro p q heq hs
    obtain ⟨hp, n, hn, hl⟩ := hs
    refine ⟨hp, n, ?_, ih (fun y hy => heq y (List.mem_cons_of_mem _ hy)) hl⟩
    rw [heq (a, e) (List.mem_cons_self ..)]
    exact hn

/-- Every listed node is an allocated cell with that payload. -/
theorem Seg.cell {h : Heap β} {l : List (Nat × β)} {a : Nat} {e : β} :
    ∀ {p q : Option Nat}, Seg h p l q → (a, e) ∈ l → ∃ n, h.cell a = some ⟨e, n⟩ := by
  induction l with
  | nil => intro p q _ hm; exact absurd hm (by simp)
  | cons x l ih =>
    obtain ⟨b, e'⟩ := x
    intro p q hs hm
    obtain ⟨_, n, hn, hl⟩ := hs
    rcases List.mem_cons.mp hm with heq | hm
    · obtain ⟨rfl, rfl⟩ := Prod.mk.inj heq
      exact ⟨n, hn⟩
    · exact ih hl hm

theorem Seg.lt_brk {h : Heap β} {l : List (Nat × β)} {p q : Option Nat} {x : Nat × β}
    (hs : Seg h p l q) (hx : x ∈ l) : x.1 < h.brk := by
  obtain ⟨n, hn⟩ := hs.cell (a := x.1) (e := x.2) hx
  exact Heap.lt_brk hn

/-- A head pointer stands for at most one list. -/
theorem Seg.functional {h : Heap β} {l₁ : List (Nat × β)} :
    ∀ {l₂ : List (Nat × β)} {p : Option Nat}, Seg h p l₁ none → Seg h p l₂ none → l₁ = l₂ := by
  induction l₁ with
  | nil =>
    intro l₂ p h₁ h₂
    cases l₂ with
    | nil => rfl
    | cons y l₂ =>
      obtain ⟨hp, _⟩ := h₂
      rw [seg_nil] at h₁
      rw [h₁] at hp
      exact absurd hp (by simp)
  | cons x l₁ ih =>
    obtain ⟨a, e⟩ := x
    intro l₂ p h₁ h₂
    obtain ⟨hp, n, hn, hl₁⟩ := h₁
    cases l₂ with
    | nil =>
      rw [seg_nil] at h₂
      rw [h₂] at hp
      exact absurd hp (by simp)
    | cons y l₂ =>
      obtain ⟨b, e'⟩ := y
      obtain ⟨hp', n', hn', hl₂⟩ := h₂
      -- one pointer has one cell, and the cell gives the payload and the next pointer
      have hab : a = b := Option.some.inj (hp.symm.trans hp')
      subst hab
      have hcell := Option.some.inj (hn.symm.trans hn')
      obtain ⟨rfl, rfl⟩ := Node.mk.inj hcell
      rw [ih hl₁ hl₂]

/-- A chain lists no address twice: it is acyclic. If an address came back, the
two tails after it would both be *the* list from there, and differ in length. -/
theorem Seg.nodup {h : Heap β} {l : List (Nat × β)} :
    ∀ {p : Option Nat}, Seg h p l none → (l.map Prod.fst).Nodup := by
  induction l with
  | nil => intro p _; exact List.nodup_nil
  | cons x l ih =>
    obtain ⟨a, e⟩ := x
    intro p hs
    have hall : Seg h (some a) ((a, e) :: l) none := by
      obtain ⟨hp, hrest⟩ := hs
      exact ⟨rfl, hrest⟩
    obtain ⟨_, n, hn, hl⟩ := hs
    rw [List.map_cons, List.nodup_cons]
    refine ⟨fun hmem => ?_, ih hl⟩
    obtain ⟨y, hy, hya⟩ := List.mem_map.mp hmem
    obtain ⟨b, e'⟩ := y
    obtain ⟨l₁, l₂, rfl⟩ := List.append_of_mem hy
    obtain ⟨m, _, hm⟩ := seg_append.mp hl
    have hb : b = a := hya
    subst hb
    have hm' : Seg h (some b) ((b, e') :: l₂) none := ⟨rfl, hm.2⟩
    have hlen := congrArg List.length (hall.functional hm')
    simp only [List.length_cons, List.length_append] at hlen
    omega

/-- A chain has fewer nodes than the heap has handed out, so `brk` is fuel enough
for any walk. -/
theorem Seg.length_le {h : Heap β} {l : List (Nat × β)} {p : Option Nat}
    (hs : Seg h p l none) : l.length ≤ h.brk := by
  have hsub : l.map Prod.fst ⊆ List.range h.brk := by
    intro a ha
    obtain ⟨x, hx, rfl⟩ := List.mem_map.mp ha
    exact List.mem_range.mpr (hs.lt_brk hx)
  have hle := (hs.nodup.subperm hsub).length_le
  simpa using hle

/-- How many nodes a chain has. -/
def chainLength (h : Heap β) : Nat → Option Nat → Nat
  | 0, _ => 0
  | _ + 1, none => 0
  | fuel + 1, some a =>
    match h.cell a with
    | none => 0
    | some n => chainLength h fuel n.next + 1

theorem chainLength_seg {h : Heap β} {l : List (Nat × β)} :
    ∀ {fuel : Nat} {p : Option Nat}, Seg h p l none → l.length ≤ fuel →
      chainLength h fuel p = l.length := by
  induction l with
  | nil =>
    intro fuel p hs _
    obtain rfl : p = none := hs
    cases fuel <;> rfl
  | cons x l ih =>
    intro fuel p hs hfuel
    obtain ⟨rfl, n, hn, hrest⟩ := hs
    obtain ⟨fuel, rfl⟩ : ∃ k, fuel = k + 1 := ⟨fuel - 1, by simp at hfuel; omega⟩
    rw [chainLength, hn]
    exact congrArg (· + 1) (ih hrest (by simpa using hfuel))

/-! ## The walk -/

/-- `while (p != NULL && !stop(p)) { q = p; p = p->next; }`. Returns the trailing
pointer and the pointer the loop stopped at; `none` when it meets a dangling
pointer or the fuel runs out. -/
def walk (stop : Node β → Bool) (h : Heap β) :
    Nat → Option Nat → Option Nat → Option (Option Nat × Option Nat)
  | _, q, none => some (q, none)
  | fuel, q, some a =>
    match h.cell a with
    | none => none
    | some n =>
      if stop n then some (q, some a)
      else
        match fuel with
        | 0 => none
        | fuel + 1 => walk stop h fuel (some a) n.next

/-- The trailing pointer after walking over `l` from trailing pointer `q`. -/
def trail (q : Option Nat) (l : List (Nat × β)) : Option Nat :=
  match l.getLast? with
  | none => q
  | some x => some x.1

@[simp] theorem trail_nil (q : Option Nat) : trail q ([] : List (Nat × β)) = q := rfl

theorem trail_cons (q : Option Nat) (x : Nat × β) (l : List (Nat × β)) :
    trail q (x :: l) = trail (some x.1) l := by
  cases l with
  | nil => rfl
  | cons y l =>
    obtain ⟨z, hz⟩ := Option.isSome_iff_exists.mp (List.getLast?_isSome.mpr (List.cons_ne_nil y l))
    simp only [trail, List.getLast?_cons_cons, hz]

@[simp] theorem trail_append_single (q : Option Nat) (x : Nat × β) (l : List (Nat × β)) :
    trail q (l ++ [x]) = some x.1 := by
  simp [trail]

/-- The trailing pointer names a node walked over. -/
theorem trail_mem {l : List (Nat × β)} {a : Nat} (h : trail none l = some a) :
    a ∈ l.map Prod.fst := by
  unfold trail at h
  split at h
  · exact absurd h (by simp)
  · next x hx =>
    obtain rfl := Option.some.inj h
    exact List.mem_map_of_mem (List.mem_of_getLast? hx)

/-- Only the last node of a chain has a NULL link. -/
theorem Seg.next_ne_none {h : Heap β} {l : List (Nat × β)} {q : Option Nat} (hq : q ≠ none) :
    ∀ {p : Option Nat}, Seg h p l q → ∀ x ∈ l, ∀ n, h.cell x.1 = some n → n.next ≠ none := by
  induction l with
  | nil => intro p _ x hx; exact absurd hx (by simp)
  | cons y l ih =>
    obtain ⟨a, e⟩ := y
    intro p hs x hx n hn
    obtain ⟨_, m, hm, hl⟩ := hs
    rcases List.mem_cons.mp hx with rfl | hx
    · have hnm : n = ⟨e, m⟩ := Option.some.inj (hn.symm.trans hm)
      rw [hnm]
      cases l with
      | nil => rw [seg_nil] at hl; rw [hl]; exact hq
      | cons z l => rw [hl.1]; simp
    · exact ih hl x hx n hn

/-- What the walk returns: over the nodes `pre`, none of which stops it, it
reaches `m` and stops there. -/
theorem walk_seg {stop : Node β → Bool} {h : Heap β} {pre : List (Nat × β)} {m : Option Nat} :
    ∀ {fuel : Nat} {p q : Option Nat}, Seg h p pre m → pre.length ≤ fuel →
      (∀ x ∈ pre, ∀ n, h.cell x.1 = some n → stop n = false) →
      (∀ a, m = some a → ∃ n, h.cell a = some n ∧ stop n = true) →
      walk stop h fuel q p = some (trail q pre, m) := by
  induction pre with
  | nil =>
    intro fuel p q hs _ _ hm
    rw [seg_nil] at hs
    subst hs
    cases p with
    | none => rw [walk, trail_nil]
    | some a =>
      obtain ⟨n, hn, hstop⟩ := hm a rfl
      rw [walk, hn]
      simp only [hstop, if_true, trail_nil]
  | cons x pre ih =>
    obtain ⟨a, e⟩ := x
    intro fuel p q hs hlen hpre hm
    obtain ⟨rfl, n, hn, hl⟩ := hs
    have hgo : stop ⟨e, n⟩ = false := hpre (a, e) (List.mem_cons_self ..) _ hn
    cases fuel with
    | zero => simp at hlen
    | succ fuel =>
      rw [walk, hn]
      simp only [hgo, Bool.false_eq_true, if_false]
      rw [ih hl (by simpa using hlen) (fun y hy => hpre y (List.mem_cons_of_mem _ hy)) hm,
        trail_cons]

/-- The walk over a chain ends: behind it, with nothing that stops it, or at a node that
does. -/
theorem walk_total (stop : Node β → Bool) {h : Heap β} {l : List (Nat × β)} :
    ∀ {fuel : Nat} {p : Option Nat} (q : Option Nat), Seg h p l none → l.length ≤ fuel →
      (∃ q', walk stop h fuel q p = some (q', none) ∧
        ∀ x ∈ l, ∀ n, h.cell x.1 = some n → stop n = false) ∨
      ∃ q' a n, walk stop h fuel q p = some (q', some a) ∧ a ∈ l.map Prod.fst ∧
        h.cell a = some n ∧ stop n = true := by
  induction l with
  | nil =>
    intro fuel p q hs _
    rw [seg_nil] at hs
    subst hs
    exact Or.inl ⟨q, by rw [walk], fun x hx => absurd hx (by simp)⟩
  | cons x l ih =>
    obtain ⟨a, e⟩ := x
    intro fuel p q hs hlen
    obtain ⟨rfl, n, hn, hl⟩ := hs
    cases hstop : stop ⟨e, n⟩ with
    | true =>
      refine Or.inr ⟨q, a, ⟨e, n⟩, ?_, List.mem_cons_self, hn, hstop⟩
      rw [walk.eq_def]
      simp only [hn, hstop, if_true]
    | false =>
      cases fuel with
      | zero => simp at hlen
      | succ fuel =>
        have hgo : walk stop h (fuel + 1) q (some a) = walk stop h fuel (some a) n := by
          rw [walk, hn]
          simp only [hstop, Bool.false_eq_true, if_false]
        rw [hgo]
        rcases ih (some a) hl (by simpa using hlen) with ⟨q', hw, hnone⟩ | ⟨q', b, m, hw, hb, hm⟩
        · refine Or.inl ⟨q', hw, fun y hy m hm => ?_⟩
          rcases List.mem_cons.mp hy with rfl | hy
          · rw [Option.some.inj (hm.symm.trans hn)]
            exact hstop
          · exact hnone y hy m hm
        · exact Or.inr ⟨q', b, m, hw, List.mem_cons_of_mem _ hb, hm⟩

/-! ## The splice -/

/-- `if (q != NULL) q->next = p; else head = p;` -/
def relink (h : Heap β) (head q p : Option Nat) : Heap β × Option Nat :=
  match q with
  | none => (h, p)
  | some a => (h.modify a fun n => { n with next := p }, head)

@[simp] theorem relink_brk (h : Heap β) (head q p : Option Nat) :
    (relink h head q p).1.brk = h.brk := by
  cases q <;> rfl

theorem relink_dead {h : Heap β} {head q p : Option Nat} {b : Nat} (hd : h.Dead b) :
    (relink h head q p).1.Dead b := by
  cases q with
  | none => exact hd
  | some a => exact hd.modify _

/-- The splice only writes the node the trailing pointer names. -/
theorem relink_cell_ne {h : Heap β} {head q p : Option Nat} {b : Nat} (hb : q ≠ some b) :
    (relink h head q p).1.cell b = h.cell b := by
  cases q with
  | none => rfl
  | some a =>
    have hba : b ≠ a := fun he => hb (he ▸ rfl)
    exact Heap.modify_cell_ne hba _

/-- Splicing at the end of a prefix keeps the prefix and makes it lead to `p`. -/
theorem relink_seg {h : Heap β} {pre : List (Nat × β)} {head m : Option Nat} (p : Option Nat)
    (hs : Seg h head pre m) (hnd : (pre.map Prod.fst).Nodup) :
    Seg (relink h head (trail none pre) p).1 (relink h head (trail none pre) p).2 pre p := by
  rcases List.eq_nil_or_concat' pre with rfl | ⟨pre', x, rfl⟩
  · simp [relink]
  · obtain ⟨a, e⟩ := x
    rw [trail_append_single]
    simp only [relink]
    obtain ⟨m', hpre', hlast⟩ := seg_append.mp hs
    obtain ⟨rfl, n, hn, _⟩ := hlast
    refine seg_append.mpr ⟨some a, hpre'.frame ?_, rfl, p, ?_, rfl⟩
    · intro y hy
      refine Heap.modify_cell_ne ?_ _
      rintro rfl
      rw [List.map_append, List.nodup_append] at hnd
      exact hnd.2.2 y.1 (List.mem_map_of_mem hy) y.1 (by simp) rfl
    · rw [Heap.modify_cell_self, hn]
      rfl

/-- Splicing a chain on behind a prefix. The chain must not run through the
prefix, whose last node is written. -/
theorem relink_chain {h : Heap β} {pre l : List (Nat × β)} {head m p : Option Nat}
    (hs : Seg h head pre m) (hl : Seg h p l none)
    (hnd : ((pre ++ l).map Prod.fst).Nodup) :
    Seg (relink h head (trail none pre) p).1 (relink h head (trail none pre) p).2 (pre ++ l)
      none := by
  rw [List.map_append, List.nodup_append] at hnd
  refine seg_append.mpr ⟨p, relink_seg p hs hnd.1, hl.frame fun x hx => ?_⟩
  refine relink_cell_ne fun ht => ?_
  exact hnd.2.2 x.1 (trail_mem ht) x.1 (List.mem_map_of_mem hx) rfl

/-! ## The four edits of a chain

A chain `pre ++ (p, e) :: post`, and what becomes of it when the node at `p` is
taken out, replaced by another node, rewritten in place, or (as the last one) given
a successor. Each edit comes with the cells it leaves alone. -/

section Edits

variable {h : Heap β} {pre post : List (Nat × β)} {head nx : Option Nat} {p a : Nat} {e e' : β}

/-- The parts of a chain around one of its nodes. -/
theorem Seg.around (hs : Seg h head (pre ++ (p, e) :: post) none)
    (hp : h.cell p = some ⟨e, nx⟩) :
    Seg h head pre (some p) ∧ Seg h nx post none ∧ p ∉ (pre ++ post).map Prod.fst ∧
      ((pre ++ post).map Prod.fst).Nodup := by
  have hnd := hs.nodup
  obtain ⟨m, hpre, rfl, n, hn, hpost⟩ := seg_append.mp hs
  have hnx : n = nx := by
    rw [hp] at hn
    exact (congrArg Node.next (Option.some.inj hn)).symm
  subst hnx
  rw [List.map_append, List.map_cons] at hnd
  have hperm : List.Perm (pre.map Prod.fst ++ p :: post.map Prod.fst)
      (p :: (pre.map Prod.fst ++ post.map Prod.fst)) := List.perm_middle
  have hnd' := List.nodup_cons.mp (hperm.nodup_iff.mp hnd)
  rw [← List.map_append] at hnd'
  exact ⟨hpre, hpost, hnd'.1, hnd'.2⟩

/-- Unlink and free. -/
theorem unlink_chain (hs : Seg h head (pre ++ (p, e) :: post) none)
    (hp : h.cell p = some ⟨e, nx⟩) :
    Seg ((relink h head (trail none pre) nx).1.free p) (relink h head (trail none pre) nx).2
      (pre ++ post) none := by
  obtain ⟨hpre, hpost, hnot, hnd⟩ := hs.around hp
  refine (relink_chain hpre hpost hnd).frame fun x hx => ?_
  have hxp : x.1 ≠ p := fun heq => hnot (heq ▸ List.mem_map_of_mem hx)
  exact Heap.free_cell_ne hxp

/-- Link a private node in, give it the old node's successor, free the old node. -/
theorem replace_chain (hs : Seg h head (pre ++ (p, e) :: post) none)
    (hp : h.cell p = some ⟨e, nx⟩) (ha : h.cell a = some ⟨e', none⟩)
    (hnew : a ∉ (pre ++ (p, e) :: post).map Prod.fst) :
    Seg (((relink h head (trail none pre) (some a)).1.modify a fun m =>
        { m with next := nx }).free p)
      (relink h head (trail none pre) (some a)).2 (pre ++ (a, e') :: post) none := by
  obtain ⟨hpre, hpost, hnot, hnd⟩ := hs.around hp
  have hap : a ≠ p := fun heq => hnew (by rw [heq]; simp)
  have hout : ∀ x ∈ pre ++ post, x.1 ≠ p ∧ x.1 ≠ a := by
    intro x hx
    refine ⟨fun heq => hnot (heq ▸ List.mem_map_of_mem hx), fun heq => hnew ?_⟩
    rw [← heq]
    apply List.mem_map_of_mem
    rcases List.mem_append.mp hx with hx | hx
    · exact List.mem_append_left _ hx
    · exact List.mem_append_right _ (List.mem_cons_of_mem _ hx)
  have htrail : ∀ b, b ∉ pre.map Prod.fst → trail none pre ≠ some b :=
    fun b hb ht => hb (trail_mem ht)
  rw [List.map_append, List.nodup_append] at hnd
  -- in front, at, and behind the node that changes
  refine seg_append.mpr ⟨some a, (relink_seg (some a) hpre hnd.1).frame ?_, rfl, nx, ?_,
    hpost.frame ?_⟩
  · intro x hx
    obtain ⟨hxp, hxa⟩ := hout x (List.mem_append_left _ hx)
    rw [Heap.free_cell_ne hxp, Heap.modify_cell_ne hxa]
  · have hapre : a ∉ pre.map Prod.fst := fun hm => hnew (by
      rw [List.map_append]
      exact List.mem_append_left _ hm)
    rw [Heap.free_cell_ne hap, Heap.modify_cell_self, relink_cell_ne (htrail a hapre), ha]
    rfl
  · intro x hx
    obtain ⟨hxp, hxa⟩ := hout x (List.mem_append_right _ hx)
    have hxpre : x.1 ∉ pre.map Prod.fst := fun hm =>
      hnd.2.2 x.1 hm x.1 (List.mem_map_of_mem hx) rfl
    rw [Heap.free_cell_ne hxp, Heap.modify_cell_ne hxa, relink_cell_ne (htrail x.1 hxpre)]

/-- Rewrite the payload of a node. -/
theorem rewrite_chain (hs : Seg h head (pre ++ (p, e) :: post) none)
    (hp : h.cell p = some ⟨e, nx⟩) {f : Node β → Node β} (hf : f ⟨e, nx⟩ = ⟨e', nx⟩) :
    Seg (h.modify p f) head (pre ++ (p, e') :: post) none := by
  obtain ⟨hpre, hpost, hnot, -⟩ := hs.around hp
  have hout : ∀ x ∈ pre ++ post, (h.modify p f).cell x.1 = h.cell x.1 := by
    intro x hx
    have hxp : x.1 ≠ p := fun heq => hnot (heq ▸ List.mem_map_of_mem hx)
    exact Heap.modify_cell_ne hxp _
  refine seg_append.mpr ⟨some p, hpre.frame fun x hx => hout x (List.mem_append_left _ hx),
    rfl, nx, ?_, hpost.frame fun x hx => hout x (List.mem_append_right _ hx)⟩
  rw [Heap.modify_cell_self, hp, Option.map_some, hf]

/-- Give the last node a private node as its successor. -/
theorem append_chain (hs : Seg h head (pre ++ [(p, e)]) none) (ha : h.cell a = some ⟨e', none⟩)
    (hnew : a ∉ (pre ++ [(p, e)]).map Prod.fst) :
    Seg (h.modify p fun m => { m with next := some a }) head (pre ++ [(p, e)] ++ [(a, e')])
      none := by
  have hnd := hs.nodup
  have hl : Seg h (some a) [(a, e')] none := ⟨rfl, none, ha, rfl⟩
  have hr := relink_chain hs hl (by
    rw [List.map_append, List.nodup_append]
    refine ⟨hnd, by simp, fun x hx y hy heq => hnew ?_⟩
    obtain rfl : y = a := by simpa using hy
    exact heq ▸ hx)
  rw [trail_append_single] at hr
  exact hr

/-- What a splice behind `pre` leaves alone. -/
theorem relink_trail_cell {b : Nat} {q : Option Nat} (hb : b ∉ pre.map Prod.fst) :
    (relink h head (trail none pre) q).1.cell b = h.cell b :=
  relink_cell_ne fun ht => hb (trail_mem ht)

end Edits

end Nastd.Lib
