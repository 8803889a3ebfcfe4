import Mathlib.Data.List.Basic

/-!
# Packing pieces into a buffer

A loop that appends pieces to a fixed buffer, with a separator behind each but the last:

    if (l + n > sizeof(buffer)) return -1;
    memcpy(buffer + l, piece, n); l += n;
    if (more) buffer[l++] = SEP;

The room is tested for the piece only. `n` is signed here and the test is not, and `memcpy`
takes a `size_t`, so the lengths are integers.

* `packStores cap l lens`: the indexes the loop stores to.
* `Packable cap l lens`: which lengths do no harm. `packStores_inside` is that these are the
  ones with all stores inside.
-/

namespace Nastd.Lib

/-- A length as a `size_t`. -/
def sizeT (n : Int) : Nat := (n % 0x10000000000000000).toNat

/-- The indexes stored to from `l` on, in a buffer of `cap` bytes. Nothing is stored behind
a piece of negative length. -/
def packStores (cap : Int) : Int → List Int → List Int
  | _, [] => []
  | l, n :: rest =>
    if l + n < 0 ∨ l + n > cap then []
    else
      (List.range (sizeT n)).map (fun i => l + (i : Nat)) ++
        if n < 0 ∨ rest = [] then [] else (l + n) :: packStores cap (l + n + 1) rest

/-- Where the next piece goes after these, each with its separator. -/
def filled : Int → List Int → Int
  | l, [] => l
  | l, n :: rest => filled (l + n + 1) rest

/-- No piece that comes up, the ones before it fitting, is of negative length and yet passes
the test; and none with another behind it ends where the buffer does. -/
def Packable (cap l : Int) (lens : List Int) : Prop :=
  ∀ pre n rest, lens = pre ++ n :: rest → (∀ m ∈ pre, 0 ≤ m) → filled l pre ≤ cap →
    ¬ (n < 0 ∧ 0 ≤ filled l pre + n) ∧ (rest ≠ [] → filled l pre + n ≠ cap)

section Pack

variable {cap l n : Int} {lens rest : List Int}

theorem filled_nil : filled l [] = l := rfl

theorem filled_cons : filled l (n :: rest) = filled (l + n + 1) rest := rfl

theorem filled_append : ∀ {pre : List Int} {l : Int}, filled l (pre ++ rest)
    = filled (filled l pre) rest := by
  intro pre
  induction pre with
  | nil =>
    intro l
    rfl
  | cons m pre ih =>
    intro l
    exact ih

theorem le_filled : ∀ {lens : List Int} {l : Int}, (∀ m ∈ lens, 0 ≤ m) → l ≤ filled l lens := by
  intro lens
  induction lens with
  | nil =>
    intro l _
    exact Int.le_refl l
  | cons m lens ih =>
    intro l h
    obtain ⟨hm, hrest⟩ := List.forall_mem_cons.mp h
    have := ih (l := l + m + 1) hrest
    rw [filled_cons]
    omega

/-- Behind the end of the buffer nothing comes up any more. -/
theorem packable_full (h : cap < l) : Packable cap l lens := by
  intro pre m rest _ hpre hle
  have := le_filled (l := l) hpre
  omega

theorem packable_nil : Packable cap l [] := by
  intro pre m rest h
  exact absurd h (by simp)

theorem packable_cons (hl : l ≤ cap) :
    Packable cap l (n :: rest) ↔
      (¬ (n < 0 ∧ 0 ≤ l + n) ∧ (rest ≠ [] → l + n ≠ cap)) ∧
        (0 ≤ n → Packable cap (l + n + 1) rest) := by
  constructor
  · intro h
    refine ⟨?_, ?_⟩
    · have hfirst := h [] n rest rfl (fun m hm => absurd hm List.not_mem_nil)
      rw [filled_nil] at hfirst
      exact hfirst hl
    · intro hn pre m rest' heq hpre hle
      rw [← filled_cons] at hle ⊢
      refine h (n :: pre) m rest' (by rw [heq]; rfl) ?_ hle
      exact List.forall_mem_cons.mpr ⟨hn, hpre⟩
  · intro ⟨hfirst, hrest⟩ pre m rest' heq hpre hle
    cases pre with
    | nil =>
      obtain ⟨rfl, rfl⟩ := List.cons.inj heq
      rw [filled_nil]
      exact hfirst
    | cons k pre =>
      obtain ⟨rfl, rfl⟩ := List.cons.inj heq
      obtain ⟨hn, hpre⟩ := List.forall_mem_cons.mp hpre
      rw [filled_cons] at hle ⊢
      exact hrest hn pre m rest' rfl hpre hle

theorem sizeT_of_nonneg (h : 0 ≤ n) (hlt : n < 0x10000000000000000) : (sizeT n : Int) = n := by
  unfold sizeT
  rw [Int.emod_eq_of_lt h hlt]
  exact Int.toNat_of_nonneg h

/-- A small negative length is an enormous one. -/
theorem sizeT_of_neg (h : n < 0) (hlow : -0x8000000000000000 ≤ n) :
    (sizeT n : Int) = 0x10000000000000000 + n := by
  unfold sizeT
  omega

/-- A piece of this length, copied to `l`. -/
theorem copy_inside (hl : 0 ≤ l) (h : 0 ≤ n) (hfit : l + n ≤ cap)
    (hcap : cap < 0x8000000000000000) :
    ∀ i ∈ (List.range (sizeT n)).map (fun i => l + (i : Nat)), 0 ≤ i ∧ i < cap := by
  intro i hi
  obtain ⟨k, hk, rfl⟩ := List.mem_map.mp hi
  have hlt := List.mem_range.mp hk
  have hsize := sizeT_of_nonneg h (by omega)
  omega

theorem copy_outside (hle : l ≤ cap) (h : n < 0) (hroom : 0 ≤ l + n)
    (hcap : cap < 0x8000000000000000) :
    ∃ i ∈ (List.range (sizeT n)).map (fun i => l + (i : Nat)), cap ≤ i := by
  have hsize := sizeT_of_neg h (by omega)
  refine ⟨l + (sizeT n - 1 : Nat), List.mem_map_of_mem (List.mem_range.mpr (by omega)), ?_⟩
  omega

/-- All stores are inside if and only if the lengths are packable. -/
theorem packStores_inside (hcap : cap < 0x8000000000000000) :
    ∀ {lens : List Int} {l : Int}, 0 ≤ l → l ≤ cap →
      ((∀ i ∈ packStores cap l lens, 0 ≤ i ∧ i < cap) ↔ Packable cap l lens) := by
  intro lens
  induction lens with
  | nil =>
    intro l _ _
    exact iff_of_true (fun i hi => absurd hi List.not_mem_nil) packable_nil
  | cons n rest ih =>
    intro l hl hle
    rw [packStores, packable_cons hle]
    by_cases hroom : l + n < 0 ∨ l + n > cap
    · -- the loop returns, and nothing else comes up
      rw [if_pos hroom]
      refine iff_of_true (fun i hi => absurd hi List.not_mem_nil) ⟨⟨by omega, by omega⟩, ?_⟩
      intro hn
      exact packable_full (by omega)
    rw [if_neg hroom]
    by_cases hneg : n < 0
    · refine iff_of_false (fun h => ?_) fun h => h.1.1 ⟨hneg, by omega⟩
      obtain ⟨i, hi, hout⟩ := copy_outside hle hneg (by omega) hcap
      have := (h i (List.mem_append_left _ hi)).2
      omega
    have hcopy := copy_inside hl (Int.not_lt.mp hneg) (by omega) hcap
    by_cases hlast : rest = []
    · rw [if_pos (Or.inr hlast), List.append_nil, hlast]
      exact iff_of_true hcopy ⟨⟨fun h => hneg h.1, fun h => absurd rfl h⟩, fun _ => packable_nil⟩
    rw [if_neg (not_or.mpr ⟨hneg, hlast⟩)]
    by_cases hfull : l + n = cap
    · refine iff_of_false (fun h => ?_) fun h => h.1.2 hlast hfull
      have := (h (l + n) (List.mem_append_right _ (List.mem_cons_self ..))).2
      omega
    · rw [List.forall_mem_append, List.forall_mem_cons, ih (by omega) (by omega)]
      constructor
      · intro h
        exact ⟨⟨fun h' => hneg h'.1, fun _ => hfull⟩, fun _ => h.2.2⟩
      · intro h
        exact ⟨hcopy, ⟨by omega, by omega⟩, h.2 (Int.not_lt.mp hneg)⟩

end Pack

end Nastd.Lib
