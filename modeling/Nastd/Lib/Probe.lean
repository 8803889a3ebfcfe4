import Mathlib.Logic.Function.Basic
import Mathlib.Data.List.Nodup
import Mathlib.Data.Nat.ModEq

/-!
# Linear probing

A table of `n` slots, filled one element at a time: an element goes to the first
free slot at or after its start, cyclically. `probeFill` is the table after a list of
elements, `visits` what a reader meets who starts somewhere and stops at the first
free slot.

The result is `visits_fill`: whoever starts at `s` meets the elements that were
entered with start `s` in the order they were entered. Others may be met in between,
but none of the former is missed. It rests on `Settled`: no free slot lies between
an element's start and its place.
-/

namespace Nastd.Lib

variable {α : Type} {n : Nat}

/-- The elements in the slots `s + k`, `s + k + 1`, …, up to the first free slot and at
most `m` of them. -/
def visits (n : Nat) (T : Nat → Option α) (s : Nat) : Nat → Nat → List α
  | 0, _ => []
  | m + 1, k =>
    match T ((s + k) % n) with
    | none => []
    | some x => x :: visits n T s m (k + 1)

/-- How far from `s` the first free slot is, among the `m` slots from offset `k`. -/
def freeOffset (n : Nat) (T : Nat → Option α) (s : Nat) : Nat → Nat → Option Nat
  | 0, _ => none
  | m + 1, k =>
    match T ((s + k) % n) with
    | none => some k
    | some _ => freeOffset n T s m (k + 1)

/-- Enter one element; `none` when the table is full. -/
def probeInsert (n : Nat) (start : α → Nat) (T : Nat → Option α) (x : α) :
    Option (Nat → Option α) :=
  (freeOffset n T (start x) n 0).map fun k =>
    Function.update T ((start x + k) % n) (some x)

/-- Enter a list of elements after those already in `T`. -/
def probeFill (n : Nat) (start : α → Nat) : (Nat → Option α) → List α → Option (Nat → Option α)
  | T, [] => some T
  | T, x :: xs =>
    match probeInsert n start T x with
    | none => none
    | some T' => probeFill n start T' xs

/-! ## Offsets -/

/-- Different offsets below `n` are different slots. -/
theorem offset_inj {s j k : Nat} (hj : j < n) (hk : k < n) (h : (s + j) % n = (s + k) % n) :
    j = k := by
  have hmod : j % n = k % n := Nat.ModEq.add_left_cancel' s h
  rw [Nat.mod_eq_of_lt hj, Nat.mod_eq_of_lt hk] at hmod
  exact hmod

/-- A free slot that is found is free, and those before it are not. -/
theorem freeOffset_some {T : Nat → Option α} {s : Nat} :
    ∀ {m k f : Nat}, freeOffset n T s m k = some f →
      k ≤ f ∧ f < k + m ∧ T ((s + f) % n) = none ∧
        ∀ j, k ≤ j → j < f → T ((s + j) % n) ≠ none := by
  intro m
  induction m with
  | zero => intro k f h; exact absurd h (by simp [freeOffset])
  | succ m ih =>
    intro k f h
    rw [freeOffset] at h
    split at h
    · next hfree =>
      obtain rfl := Option.some.inj h
      refine ⟨Nat.le_refl k, by omega, hfree, fun j hkj hjk => ?_⟩
      omega
    · next x hx =>
      obtain ⟨hkf, hfm, hfree, hfull⟩ := ih h
      refine ⟨by omega, by omega, hfree, fun j hkj hjf => ?_⟩
      by_cases hj : j = k
      · rw [hj, hx]
        simp
      · exact hfull j (by omega) hjf

/-! ## The order of a reader -/

/-- The slots in the order a reader passes who starts at `s`. -/
def probeOrder (n s : Nat) : List Nat := (List.range n).map fun k => (s + k) % n

/-- None of them comes twice, -/
theorem probeOrder_nodup (n s : Nat) : (probeOrder n s).Nodup := by
  refine List.Nodup.map_on (fun j hj k hk h => ?_) List.nodup_range
  exact offset_inj (List.mem_range.mp hj) (List.mem_range.mp hk) h

/-- and they are the slots of the table. -/
theorem mem_probeOrder {n s a : Nat} : a ∈ probeOrder n s ↔ a < n := by
  refine ⟨fun h => ?_, fun ha => ?_⟩
  · obtain ⟨k, hk, rfl⟩ := List.mem_map.mp h
    have hkn : k < n := List.mem_range.mp hk
    exact Nat.mod_lt _ (by omega)
  · have hsn : s % n < n := Nat.mod_lt _ (by omega)
    have hdiv := Nat.div_add_mod s n
    refine List.mem_map.mpr
      ⟨(a + (n - s % n)) % n, List.mem_range.mpr (Nat.mod_lt _ (by omega)), ?_⟩
    have hsum : s + (a + (n - s % n)) = a + n * (s / n + 1) := by
      rw [Nat.mul_add]
      omega
    rw [Nat.add_mod_mod, hsum, Nat.add_mul_mod_self_left, Nat.mod_eq_of_lt ha]

/-- The elements someone looks at who stops at the first verdict. -/
def examined {β : Type} (f : α → Option β) : List α → List α
  | [] => []
  | x :: xs => x :: if (f x).isNone then examined f xs else []

/-- The first verdict is that of an element looked at. -/
theorem findSome?_examined {β : Type} {f : α → Option β} {b : β} {l : List α} :
    l.findSome? f = some b ↔ ∃ x ∈ examined f l, f x = some b := by
  induction l with
  | nil => simp [examined]
  | cons x xs ih =>
    rw [List.findSome?_cons, examined]
    cases hx : f x with
    | none => simp [ih, hx]
    | some c => simp [hx]

/-! ## What a reader meets -/

/-- Whatever is met stands at some offset. -/
theorem mem_visits {T : Nat → Option α} {s : Nat} {x : α} :
    ∀ {m k : Nat}, x ∈ visits n T s m k → ∃ j, k ≤ j ∧ j < k + m ∧ T ((s + j) % n) = some x := by
  intro m
  induction m with
  | zero => intro k h; exact absurd h (by simp [visits])
  | succ m ih =>
    intro k h
    rw [visits] at h
    split at h
    · exact absurd h (by simp)
    · next y hy =>
      rcases List.mem_cons.mp h with rfl | h
      · exact ⟨k, Nat.le_refl k, by omega, hy⟩
      · obtain ⟨j, hkj, hjm, hj⟩ := ih h
        exact ⟨j, by omega, by omega, hj⟩

/-- Two tables that agree up to a free slot look the same. -/
theorem visits_agree {T T' : Nat → Option α} {s f : Nat} (hfree : T ((s + f) % n) = none) :
    ∀ {m k : Nat}, k ≤ f → (∀ j, k ≤ j → j ≤ f → T' ((s + j) % n) = T ((s + j) % n)) →
      visits n T' s m k = visits n T s m k := by
  intro m
  induction m with
  | zero => intro k _ _; rfl
  | succ m ih =>
    intro k hkf hagree
    rw [visits, visits, hagree k (Nat.le_refl k) hkf]
    cases hx : T ((s + k) % n) with
    | none => rfl
    | some x =>
      have hne : k ≠ f := by
        intro he
        rw [he, hfree] at hx
        exact absurd hx (by simp)
      show x :: visits n T' s m (k + 1) = x :: visits n T s m (k + 1)
      rw [ih (by omega) fun j hj hjf => hagree j (by omega) hjf]

/-- Filling the first free slot puts its element behind what was met before. -/
theorem visits_place {T : Nat → Option α} {s f : Nat} {y : α}
    (hfree : T ((s + f) % n) = none) :
    ∀ {m k : Nat}, k ≤ f → f < k + m → k + m ≤ n →
      (∀ j, k ≤ j → j < f → T ((s + j) % n) ≠ none) →
      visits n (Function.update T ((s + f) % n) (some y)) s m k
        = visits n T s m k ++ y ::
            visits n (Function.update T ((s + f) % n) (some y)) s (k + m - f - 1) (f + 1) := by
  intro m
  induction m with
  | zero => intro k hkf hfm _ _; omega
  | succ m ih =>
    intro k hkf hfm hn hfull
    by_cases hk : k = f
    · -- at the free slot: nothing met before, the new element now
      subst hk
      have hold : visits n T s (m + 1) k = [] := by
        rw [visits, hfree]
      have hrest : k + (m + 1) - k - 1 = m := by omega
      rw [hold, hrest, List.nil_append, visits, Function.update_self]
    · have hne : (s + k) % n ≠ (s + f) % n := fun he => hk (offset_inj (by omega) (by omega) he)
      obtain ⟨x, hx⟩ := Option.ne_none_iff_exists'.mp (hfull k (Nat.le_refl k) (by omega))
      have hstep := ih (k := k + 1) (by omega) (by omega) (by omega)
        fun j hj hjf => hfull j (by omega) hjf
      have hrest : k + (m + 1) - f - 1 = k + 1 + m - f - 1 := by omega
      rw [visits, visits, Function.update_of_ne hne, hx, hrest]
      show x :: _ = x :: _ ++ _
      rw [hstep, List.cons_append]

/-! ## Filling the table -/

/-- Between an element's start and its place every slot is full. -/
def Settled (n : Nat) (start : α → Nat) (T : Nat → Option α) : Prop :=
  ∀ a x, T a = some x → ∃ k, k < n ∧ (start x + k) % n = a ∧
    ∀ j, j < k → T ((start x + j) % n) ≠ none

section Fill

variable {start : α → Nat} {T T' : Nat → Option α} {x : α}

/-- An insertion puts its element at the first free slot from its start. -/
theorem probeInsert_some (h : probeInsert n start T x = some T') :
    ∃ f, f < n ∧ T ((start x + f) % n) = none ∧
      (∀ j, j < f → T ((start x + j) % n) ≠ none) ∧
      T' = Function.update T ((start x + f) % n) (some x) := by
  obtain ⟨f, hf, rfl⟩ := Option.map_eq_some_iff.mp h
  obtain ⟨-, hfn, hfree, hfull⟩ := freeOffset_some hf
  exact ⟨f, by omega, hfree, fun j hj => hfull j (Nat.zero_le j) hj, rfl⟩

/-- Insertions fill slots, they never empty one. -/
theorem update_ne_none {a b : Nat} (hb : T b ≠ none) :
    Function.update T a (some x) b ≠ none := by
  by_cases hab : b = a
  · rw [hab, Function.update_self]
    simp
  · rw [Function.update_of_ne hab]
    exact hb

theorem Settled.insert (hs : Settled n start T) (h : probeInsert n start T x = some T') :
    Settled n start T' := by
  obtain ⟨f, hfn, -, hfull, rfl⟩ := probeInsert_some h
  intro a y ha
  by_cases haf : a = (start x + f) % n
  · rw [haf, Function.update_self] at ha
    obtain rfl := Option.some.inj ha
    exact ⟨f, hfn, haf.symm, fun j hj => update_ne_none (hfull j hj)⟩
  · rw [Function.update_of_ne haf] at ha
    obtain ⟨k, hkn, hka, hk⟩ := hs a y ha
    exact ⟨k, hkn, hka, fun j hj => update_ne_none (hk j hj)⟩

/-- Behind a free slot no element is met that started at the reader's slot. -/
theorem Settled.not_behind (hs : Settled n start T) {s f : Nat}
    (hfree : T ((s + f) % n) = none) {y z : α} {m : Nat} (hm : f + 1 + m ≤ n)
    (hz : z ∈ visits n (Function.update T ((s + f) % n) (some y)) s m (f + 1)) :
    start z ≠ s := by
  obtain ⟨j, hfj, hjm, hj⟩ := mem_visits hz
  have hne : (s + j) % n ≠ (s + f) % n := by
    intro he
    have hjf : j = f := offset_inj (by omega) (by omega) he
    omega
  rw [Function.update_of_ne hne] at hj
  intro hstart
  obtain ⟨k, hkn, hkj, hk⟩ := hs _ z hj
  rw [hstart] at hkj hk
  obtain rfl : k = j := offset_inj hkn (by omega) hkj
  exact hk f (by omega) hfree

/-- One insertion adds its element at the end of what a reader of its start meets. -/
theorem visits_insert (hs : Settled n start T)
    (h : probeInsert n start T x = some T') (s : Nat) :
    (visits n T' s n 0).filter (fun y => decide (start y = s))
      = (visits n T s n 0).filter (fun y => decide (start y = s))
        ++ [x].filter fun y => decide (start y = s) := by
  obtain ⟨f, hfn, hfree, hfull, rfl⟩ := probeInsert_some h
  -- `g` is the offset from `s` of the slot that was filled
  obtain ⟨g, hgn, hg⟩ : ∃ g, g < n ∧ (s + g) % n = (start x + f) % n := by
    refine ⟨(start x + f + (n - s % n)) % n, Nat.mod_lt _ (by omega), ?_⟩
    have hsn : s % n < n := Nat.mod_lt _ (by omega)
    have hdiv := Nat.div_add_mod s n
    have hsum : s + (start x + f + (n - s % n)) = start x + f + n * (s / n + 1) := by
      rw [Nat.mul_add]
      omega
    rw [Nat.add_mod_mod, hsum, Nat.add_mul_mod_self_left]
  rw [← hg] at hfree ⊢
  by_cases hfirst : ∀ j, j < g → T ((s + j) % n) ≠ none
  · -- the reader now meets `x`, and behind it nobody who started at `s`
    rw [visits_place hfree (Nat.zero_le g) (by omega) (by omega) fun j _ hj => hfirst j hj,
      List.filter_append, List.filter_cons, List.filter_cons, List.filter_nil]
    have hrest : (visits n (Function.update T ((s + g) % n) (some x)) s (0 + n - g - 1)
        (g + 1)).filter (fun y => decide (start y = s)) = [] := by
      rw [List.filter_eq_nil_iff]
      intro z hz
      simpa using hs.not_behind hfree (by omega) hz
    rw [hrest]
  · -- a free slot comes first: the reader sees no change, and `x` started elsewhere
    obtain ⟨j, hj⟩ := not_forall.mp hfirst
    obtain ⟨hjg, hnone⟩ := Classical.not_imp.mp hj
    have hjfree : T ((s + j) % n) = none := not_not.mp hnone
    have hsame : visits n (Function.update T ((s + g) % n) (some x)) s n 0 = visits n T s n 0 := by
      refine visits_agree hjfree (Nat.zero_le j) fun i _ hij => ?_
      refine Function.update_of_ne (fun he => ?_) ..
      have hig : i = g := offset_inj (by omega) hgn he
      omega
    have hstart : start x ≠ s := by
      intro he
      rw [he] at hfull hg
      have hgf : g = f := offset_inj hgn hfn hg
      exact hfull j (by omega) hjfree
    rw [hsame, List.filter_cons_of_neg (by simpa using hstart), List.filter_nil, List.append_nil]

/-- **A reader who starts at `s` meets what was entered with start `s`, in order.** -/
theorem visits_fill {xs : List α} :
    ∀ {T : Nat → Option α}, Settled n start T → ∀ {T'}, probeFill n start T xs = some T' →
      ∀ s, (visits n T' s n 0).filter (fun y => decide (start y = s))
        = (visits n T s n 0).filter (fun y => decide (start y = s))
          ++ xs.filter fun y => decide (start y = s) := by
  induction xs with
  | nil =>
    intro T _ T' h s
    obtain rfl := Option.some.inj h
    rw [List.filter_nil, List.append_nil]
  | cons x xs ih =>
    intro T hs T' h s
    rw [probeFill] at h
    cases hx : probeInsert n start T x with
    | none => rw [hx] at h; exact absurd h (by simp)
    | some T₁ =>
      rw [hx] at h
      rw [ih (hs.insert hx) h s, visits_insert hs hx s, List.append_assoc, ← List.filter_append,
        List.singleton_append]

/-- The empty table. -/
theorem settled_empty : Settled n start fun _ => none := by
  intro a x h
  exact absurd h (by simp)

/-- Everything in the table was entered. -/
theorem probeFill_mem {xs : List α} :
    ∀ {T : Nat → Option α} {T' : Nat → Option α}, probeFill n start T xs = some T' →
      ∀ a y, T' a = some y → T a = some y ∨ y ∈ xs := by
  induction xs with
  | nil =>
    intro T T' h a y hy
    obtain rfl := Option.some.inj h
    exact Or.inl hy
  | cons x xs ih =>
    intro T T' h a y hy
    rw [probeFill] at h
    cases hx : probeInsert n start T x with
    | none => rw [hx] at h; exact absurd h (by simp)
    | some T₁ =>
      rw [hx] at h
      rcases ih h a y hy with hy | hy
      · obtain ⟨f, -, -, -, rfl⟩ := probeInsert_some hx
        by_cases ha : a = (start x + f) % n
        · rw [ha, Function.update_self] at hy
          obtain rfl := Option.some.inj hy
          exact Or.inr (List.mem_cons_self ..)
        · rw [Function.update_of_ne ha] at hy
          exact Or.inl hy
      · exact Or.inr (List.mem_cons_of_mem _ hy)

end Fill

end Nastd.Lib
