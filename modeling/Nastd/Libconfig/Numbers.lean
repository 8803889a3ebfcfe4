import Mathlib.Data.List.TakeWhile
import Mathlib.Data.Nat.Digits.Lemmas
import Mathlib.Tactic.IntervalCases
import Nastd.Libconfig.Layout

/-!
# Numbers

`strtol` with base 0 takes a `long` in decimal for what it is: `strtol_decimal`.
-/

namespace Nastd.Libconfig

/-- The bytes of digits. -/
theorem digit_byte {d : Nat} (h : d < 10) :
    digitValue (UInt8.ofNat (0x30 + d)) = d ∧ (d ≠ 0 → UInt8.ofNat (0x30 + d) ≠ 0x30) := by
  interval_cases d <;> decide

theorem isDigit_byte {d : Nat} (h : d < 10) : isDigit 10 (UInt8.ofNat (0x30 + d)) = true := by
  unfold isDigit
  rw [(digit_byte h).1]
  exact decide_eq_true h

/-- They are read back. -/
theorem foldl_digits (n : Nat) :
    ((Nat.digits 10 n).reverse.map fun d => UInt8.ofNat (0x30 + d)).foldl
      (fun n c => n * 10 + digitValue c) 0 = n := by
  have hvalue : ∀ ds : List Nat, (∀ d ∈ ds, d < 10) →
      ds.foldr (fun d n => n * 10 + digitValue (UInt8.ofNat (0x30 + d))) 0
        = Nat.ofDigits 10 ds := by
    intro ds
    induction ds with
    | nil => exact fun _ => rfl
    | cons d ds ih =>
      intro hlt
      rw [List.foldr_cons, ih fun x hx => hlt x (List.mem_cons_of_mem _ hx),
        (digit_byte (hlt d List.mem_cons_self)).1, Nat.ofDigits_cons]
      omega
  rw [List.foldl_map, List.foldl_reverse,
    hvalue _ fun d hd => Nat.digits_lt_base (by decide) hd]
  exact Nat.ofDigits_digits 10 n

/-- All digits, and the first is no 0 that would make the number octal. -/
theorem digits_spec (n : Nat) :
    (∀ c ∈ digits n, isDigit 10 c = true) ∧
      (n = 0 ∧ digits n = [0x30] ∨ ∃ c rest, digits n = c :: rest ∧ c ≠ 0x30 ∧
        (digits n).foldl (fun n c => n * 10 + digitValue c) 0 = n) := by
  unfold digits
  by_cases hn : n = 0
  · rw [if_pos hn]
    refine ⟨fun c hc => ?_, Or.inl ⟨hn, rfl⟩⟩
    obtain rfl := List.mem_singleton.mp hc
    decide
  · rw [if_neg hn]
    have hne : Nat.digits 10 n ≠ [] := Nat.digits_ne_nil_iff_ne_zero.mpr hn
    refine ⟨fun c hc => ?_, Or.inr ?_⟩
    · obtain ⟨d, hd, rfl⟩ := List.mem_map.mp hc
      exact isDigit_byte (Nat.digits_lt_base (by decide) (List.mem_reverse.mp hd))
    · have hlast := Nat.getLast_digit_ne_zero 10 hn
      have hlt : (Nat.digits 10 n).getLast hne < 10 :=
        Nat.digits_lt_base (by decide) (List.getLast_mem hne)
      refine ⟨UInt8.ofNat (0x30 + (Nat.digits 10 n).getLast hne),
        ((Nat.digits 10 n).dropLast.reverse.map fun d => UInt8.ofNat (0x30 + d)), ?_,
        (digit_byte hlt).2 hlast, foldl_digits n⟩
      conv_lhs => rw [← List.dropLast_append_getLast hne]
      rw [List.reverse_append]
      rfl

/-- The digits, in the base that `strtol` finds out. -/
theorem strtol_digits (n : Nat) :
    ∃ base, strtolBase (digits n) = (base, digits n) ∧
      (∀ c ∈ digits n, isDigit base c = true) ∧
      (digits n).foldl (fun m c => m * base + digitValue c) 0 = n := by
  obtain ⟨hall, ⟨hn, hzero⟩ | ⟨c, rest, hds, hc, hvalue⟩⟩ := digits_spec n
  · rw [hzero, hn]
    refine ⟨8, rfl, fun c hc => ?_, by decide⟩
    obtain rfl := List.mem_singleton.mp hc
    decide
  · refine ⟨10, ?_, hall, hvalue⟩
    rw [hds, strtolBase]
    · intro x d rest' h
      exact hc (List.cons.inj h).1
    · intro rest' h
      exact hc (List.cons.inj h).1

theorem digits_head (n : Nat) : ∃ c rest, digits n = c :: rest ∧ isDigit 10 c = true := by
  obtain ⟨hall, ⟨-, hds⟩ | ⟨c, rest, hds, -⟩⟩ := digits_spec n
  · exact ⟨0x30, [], hds, by decide⟩
  · exact ⟨c, rest, hds, hall c (by rw [hds]; exact List.mem_cons_self)⟩

/-- `strtol` behind the white space. -/
theorem strtol_eq {text rest : Bytes} {c : Byte} (hc : text = c :: rest)
    (hspace : isspace c = false) {base : Nat} {ds : Bytes}
    (hbase : strtolBase (if c = 0x2d ∨ c = 0x2b then rest else text) = (base, ds))
    (hds : ds ≠ []) (hall : ∀ d ∈ ds, isDigit base d = true) :
    strtol text
      = (max LONG_MIN (min LONG_MAX
          (if c = 0x2d then -((ds.foldl (fun n d => n * base + digitValue d) 0 : Nat) : Int)
            else (ds.foldl (fun n d => n * base + digitValue d) 0 : Nat))), []) := by
  subst hc
  have hdrop : (c :: rest).dropWhile isspace = c :: rest := by
    rw [List.dropWhile_cons, hspace]
    rfl
  have htake : ds.takeWhile (isDigit base) = ds := List.takeWhile_eq_self_iff.mpr hall
  have hend : ds.dropWhile (isDigit base) = [] := List.dropWhile_eq_nil_iff.mpr hall
  unfold strtol
  simp only [hdrop, List.head?_cons, Option.some.injEq, List.tail_cons, hbase, htake, hend,
    if_neg hds]

/-- `strtol` undoes the writing of a `long`. -/
theorem strtol_decimal {n : Int} (hmin : LONG_MIN ≤ n) (hmax : n ≤ LONG_MAX) :
    strtol (decimal n) = (n, []) := by
  obtain ⟨base, hbase, hall, hvalue⟩ := strtol_digits n.natAbs
  obtain ⟨c, rest, hds, hc⟩ := digits_head n.natAbs
  have hne : digits n.natAbs ≠ [] := by
    rw [hds]
    exact List.cons_ne_nil c rest
  unfold decimal
  by_cases hneg : n < 0
  · rw [if_pos hneg, strtol_eq rfl (by decide) (by rw [if_pos (Or.inl rfl)]; exact hbase) hne hall,
      if_pos rfl, hvalue]
    have habs : -(n.natAbs : Int) = n := by omega
    rw [habs, Int.min_eq_right hmax, Int.max_eq_right hmin]
  · have hsign : ∀ {d : Byte}, isDigit 10 d = false → c ≠ d := by
      rintro d hd rfl
      exact absurd (hc.symm.trans hd) (by simp)
    have hno : ¬ (c = 0x2d ∨ c = 0x2b) :=
      not_or.mpr ⟨hsign (by decide), hsign (by decide)⟩
    have hspace : isspace c = false := isspace_word (by
      unfold isWord
      rw [hc, Bool.or_true])
    rw [if_neg hneg, strtol_eq hds hspace (by rw [if_neg hno]; exact hbase) hne hall,
      if_neg fun h => hno (Or.inl h), hvalue]
    have habs : (n.natAbs : Int) = n := by omega
    rw [habs, Int.min_eq_right hmax, Int.max_eq_right hmin]

theorem numFromBuffer_decimal {n : Int} (hmin : LONG_MIN ≤ n) (hmax : n ≤ LONG_MAX) :
    numFromBuffer (decimal n) = some n := by
  unfold numFromBuffer
  rw [strtol_decimal hmin hmax]
  rfl

end Nastd.Libconfig
