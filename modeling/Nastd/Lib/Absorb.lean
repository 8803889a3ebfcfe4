import Mathlib.Data.List.Basic

/-!
# Feeding a stream to a block function

A function `f : σ → List β → σ` that takes blocks of `n` is fed a stream: whole blocks as far as
there are any, and what is left is kept until more comes.

* `absorb_append`: it does not matter where the stream is cut, as long as what was left goes in
  front of what comes next.
* `absorb_whole`: a stream of whole blocks is a fold over them.
-/

namespace Nastd.Lib

variable {σ β : Type} (f : σ → List β → σ) (n : Nat)

/-- At most `k` blocks. -/
def absorbUpTo : Nat → σ → List β → σ × List β
  | 0, s, xs => (s, xs)
  | k + 1, s, xs =>
    if n ≤ xs.length then absorbUpTo k (f s (xs.take n)) (xs.drop n) else (s, xs)

/-- All whole blocks, and what is left. -/
def absorb (s : σ) (xs : List β) : σ × List β := absorbUpTo f n xs.length s xs

section Rules

variable {f : σ → List β → σ} {n : Nat} {s : σ} {xs ys : List β}

theorem absorbUpTo_short (h : xs.length < n) (k : Nat) : absorbUpTo f n k s xs = (s, xs) := by
  cases k with
  | zero => rfl
  | succ k => exact if_neg (by omega)

/-- More than the length is not needed. -/
theorem absorbUpTo_enough (hn : 0 < n) :
    ∀ {k k' : Nat} {s : σ} {xs : List β}, xs.length ≤ k → xs.length ≤ k' →
      absorbUpTo f n k s xs = absorbUpTo f n k' s xs := by
  intro k
  induction k with
  | zero =>
    intro k' s xs hk _
    have hshort : xs.length < n := by omega
    rw [absorbUpTo_short hshort, absorbUpTo_short hshort]
  | succ k ih =>
    intro k' s xs hk hk'
    by_cases h : n ≤ xs.length
    · obtain ⟨m, rfl⟩ := Nat.exists_eq_add_of_le' (show 1 ≤ k' by omega)
      have hrest : (xs.drop n).length = xs.length - n := List.length_drop ..
      rw [absorbUpTo, absorbUpTo, if_pos h, if_pos h]
      exact ih (by omega) (by omega)
    · rw [absorbUpTo_short (by omega), absorbUpTo_short (by omega)]

theorem absorb_short (h : xs.length < n) : absorb f n s xs = (s, xs) := absorbUpTo_short h _

theorem absorb_block (hn : 0 < n) (h : n ≤ xs.length) :
    absorb f n s xs = absorb f n (f s (xs.take n)) (xs.drop n) := by
  obtain ⟨m, hm⟩ := Nat.exists_eq_add_of_le' (show 1 ≤ xs.length by omega)
  have hrest : (xs.drop n).length = xs.length - n := List.length_drop ..
  have hstep : absorb f n s xs = absorbUpTo f n m (f s (xs.take n)) (xs.drop n) := by
    unfold absorb
    rw [hm, absorbUpTo, if_pos h]
  rw [hstep]
  exact absorbUpTo_enough hn (by omega) (Nat.le_refl _)

/-- What is left is less than a block. -/
theorem absorb_rest (hn : 0 < n) :
    ∀ {k : Nat} {s : σ} {xs : List β}, xs.length ≤ k →
      (absorb f n s xs).2.length = xs.length % n := by
  intro k
  induction k with
  | zero =>
    intro s xs hk
    rw [absorb_short (by omega), Nat.mod_eq_of_lt (by omega)]
  | succ k ih =>
    intro s xs hk
    by_cases h : n ≤ xs.length
    · have hrest : (xs.drop n).length = xs.length - n := List.length_drop ..
      rw [absorb_block hn h, ih (by omega), hrest, Nat.mod_eq_sub_mod h]
    · rw [absorb_short (by omega), Nat.mod_eq_of_lt (by omega)]

/-- A cut of the stream: what is left of the first part goes in front of the second. -/
theorem absorb_append (hn : 0 < n) (ys : List β) :
    ∀ {k : Nat} {s : σ} {xs : List β}, xs.length ≤ k →
      absorb f n s (xs ++ ys) = absorb f n (absorb f n s xs).1 ((absorb f n s xs).2 ++ ys) := by
  intro k
  induction k with
  | zero =>
    intro s xs hk
    have hnone : absorb f n s xs = (s, xs) := absorb_short (by omega)
    rw [hnone]
  | succ k ih =>
    intro s xs hk
    by_cases h : n ≤ xs.length
    · have hrest : (xs.drop n).length = xs.length - n := List.length_drop ..
      have hlong : n ≤ (xs ++ ys).length := by
        rw [List.length_append]
        omega
      have hblock : absorb f n s xs = absorb f n (f s (xs.take n)) (xs.drop n) :=
        absorb_block hn h
      rw [hblock, absorb_block hn hlong, List.take_append_of_le_length h,
        List.drop_append_of_le_length h]
      exact ih (by omega)
    · have hnone : absorb f n s xs = (s, xs) := absorb_short (by omega)
      rw [hnone]

/-- A stream of whole blocks. -/
theorem absorb_whole (hn : 0 < n) :
    ∀ {k : Nat} {s : σ} {xs : List β}, xs.length ≤ k → xs.length % n = 0 →
      ∃ blocks : List (List β), blocks.flatten = xs ∧ (∀ b ∈ blocks, b.length = n) ∧
        absorb f n s xs = (blocks.foldl f s, []) := by
  intro k
  induction k with
  | zero =>
    intro s xs hk _
    obtain rfl := List.length_eq_zero_iff.mp (Nat.le_zero.mp hk)
    exact ⟨[], rfl, by simp, absorb_short hn⟩
  | succ k ih =>
    intro s xs hk hmod
    by_cases h : n ≤ xs.length
    · have hrest : (xs.drop n).length = xs.length - n := List.length_drop ..
      have hmod' : (xs.drop n).length % n = 0 := by
        rw [hrest, ← Nat.mod_eq_sub_mod h]
        exact hmod
      obtain ⟨blocks, hflat, hlen, habs⟩ := ih (s := f s (xs.take n)) (by omega) hmod'
      refine ⟨xs.take n :: blocks, ?_, ?_, ?_⟩
      · rw [List.flatten_cons, hflat, List.take_append_drop]
      · intro b hb
        rcases List.mem_cons.mp hb with rfl | hb
        · rw [List.length_take]
          omega
        · exact hlen b hb
      · rw [absorb_block hn h, habs]
        rfl
    · have hnil : xs.length = 0 := by
        rw [Nat.mod_eq_of_lt (by omega)] at hmod
        exact hmod
      obtain rfl := List.length_eq_zero_iff.mp hnil
      exact ⟨[], rfl, by simp, absorb_short hn⟩

end Rules

end Nastd.Lib
