import Nastd.Libconfig.Stubs
import Nastd.Libconfig.Verdicts

/-!
# Final semicolons left out

The verdicts of `Libconfig.Verdicts` are those of the parser: `Part.good` for the three ways in
which a value may be cut. A configuration with final semicolons left out is never misread if and
only if the verdict on it is no misreading: `config_unterminated`.
-/

namespace Nastd.Libconfig

/-! ## Numbers and strings -/

theorem digits_ten {n : Nat} (h : 10 ≤ n) :
    digits n = digits (n / 10) ++ [UInt8.ofNat (0x30 + n % 10)] := by
  have hpos : n ≠ 0 := by omega
  have hdiv : n / 10 ≠ 0 := by omega
  unfold digits
  rw [if_neg hpos, if_neg hdiv, Nat.digits_def' (by decide) (Nat.pos_of_ne_zero hpos),
    List.reverse_cons, List.map_append]
  rfl

theorem digits_one {n : Nat} (h : n < 10) : ∃ c, digits n = [c] := by
  unfold digits
  by_cases hn : n = 0
  · exact ⟨0x30, if_pos hn⟩
  · refine ⟨UInt8.ofNat (0x30 + n), ?_⟩
    rw [if_neg hn, Nat.digits_of_lt 10 n hn h]
    rfl

/-- A number without its last digit. -/
theorem decimal_cut (n : Int) :
    (decimal n).dropLast = (if n < 0 then [0x2d] else []) ∧ n.natAbs < 10 ∨
      10 ≤ n.natAbs ∧ (decimal n).dropLast
        = decimal (if n < 0 then -(n.natAbs / 10 : Nat) else (n.natAbs / 10 : Nat)) := by
  by_cases h : n.natAbs < 10
  · refine Or.inl ⟨?_, h⟩
    obtain ⟨c, hc⟩ := digits_one h
    unfold decimal
    rw [hc]
    split
    · rfl
    · rfl
  · refine Or.inr ⟨Nat.not_lt.mp h, ?_⟩
    have hten := digits_ten (Nat.not_lt.mp h)
    unfold decimal
    by_cases hneg : n < 0
    · have hm : -((n.natAbs / 10 : Nat) : Int) < 0 := by omega
      rw [if_pos hneg, if_pos hneg, if_pos hm, hten, ← List.cons_append, List.dropLast_concat,
        Int.natAbs_neg, Int.natAbs_natCast]
    · have hm : ¬ ((n.natAbs / 10 : Nat) : Int) < 0 := by omega
      rw [if_neg hneg, if_neg hneg, if_neg hm, hten, List.dropLast_concat, Int.natAbs_natCast]

/-- A string without its last quote. -/
theorem strFromBuffer_cut {s : Bytes} (hs : QUOTE ∉ s) : strFromBuffer (QUOTE :: s) = none := by
  have hopen : (QUOTE :: s).dropWhile (· ≠ QUOTE) = QUOTE :: s := by
    rw [List.dropWhile_cons]
    simp
  have hnone : (s.drop 1).reverse.dropWhile (· ≠ QUOTE) = [] := by
    refine List.dropWhile_eq_nil_iff.mpr fun c hc => decide_eq_true ?_
    rintro rfl
    exact hs (List.mem_of_mem_drop (List.mem_reverse.mp hc))
  unfold strFromBuffer
  rw [hopen]
  dsimp only
  rw [hnone]

section Judged

variable {α : Type} {read : Nat → Option α} {meant x : α}

theorem judged_exact (h : ∀ depth, read (depth + 1) = some meant) : Judged .exact read meant := by
  refine ⟨1, fun depth hdepth => ?_⟩
  obtain ⟨depth, rfl⟩ := Nat.exists_eq_add_of_le' hdepth
  exact h depth

theorem judged_misread (hx : x ≠ meant) (h : ∀ depth, read (depth + 1) = some x) :
    Judged .misread read meant := by
  refine ⟨x, hx, 1, fun depth hdepth => ?_⟩
  obtain ⟨depth, rfl⟩ := Nat.exists_eq_add_of_le' hdepth
  exact h depth

theorem judged_refused (hzero : read 0 = none) (h : ∀ depth, read (depth + 1) = none) :
    Judged .refused read meant := by
  intro depth
  cases depth with
  | zero => exact hzero
  | succ depth => exact h depth

end Judged

/-- Where a value should be and nothing is, 0 is read. -/
theorem getDataFrom_nil (depth : Nat) : getDataFrom (depth + 1) [] = some (.num 0) := rfl

/-- A value is read as the verdicts say, cut in either way or not at all. -/
structure Part.Good (v : Part) : Prop where
  whole : Judged v.whole (fun depth => getDataFrom depth v.text) v.doc.data
  cut : Judged v.cut (fun depth => getDataFrom depth v.text.dropLast) v.doc.data
  robbed : ∀ kind, v.isNode kind = true →
    Judged v.robbed (fun depth => getDataFrom depth v.core.dropLast) v.doc.data

theorem Part.good_num {n : Int} (hok : LONG_MIN ≤ n ∧ n ≤ LONG_MAX) : (Part.num n).Good := by
  refine ⟨judged_exact fun depth => getDataFrom_decimal depth hok, ?_,
    fun _ h => absurd h Bool.false_ne_true⟩
  show Judged (Part.num n).cut (fun depth => getDataFrom depth (decimal n).dropLast) (.num n)
  rw [Part.cut]
  rcases decimal_cut n with ⟨hcut, hone⟩ | ⟨hten, hcut⟩
  · rw [hcut]
    by_cases hzero : n = 0
    · subst hzero
      exact judged_exact getDataFrom_nil
    · rw [if_neg hzero]
      by_cases hneg : n < 0
      · rw [if_pos ⟨by omega, hneg⟩, if_pos hneg]
        exact judged_refused rfl fun _ => rfl
      · rw [if_neg fun h => hneg h.2, if_neg hneg]
        exact judged_misread (fun h => hzero (Data.num.inj h).symm) getDataFrom_nil
  · rw [hcut, if_neg (by omega), if_neg (by omega)]
    have hmin : LONG_MIN ≤ 0 := by decide
    have hmax : 0 ≤ LONG_MAX := by decide
    refine judged_misread ?_ fun depth => getDataFrom_decimal depth ?_
    · intro h
      have heq := Data.num.inj h
      split at heq <;> omega
    · split <;> omega

theorem Part.good_str {s : Bytes} (hok : QUOTE ∉ s) : (Part.str s).Good := by
  refine ⟨?_, ?_, fun _ h => absurd h Bool.false_ne_true⟩
  · rw [Part.whole]
    cases s with
    | nil => exact judged_refused rfl fun depth => getDataFrom_str depth hok
    | cons c s => exact judged_exact fun depth => getDataFrom_str depth hok
  · rw [Part.dropLast_str]
    refine judged_refused rfl fun depth => ?_
    rw [getDataFrom_quote, strFromBuffer_cut hok]
    rfl

/-! ## Children -/

section Children

variable {kind : Kind} {pre : Parts} {lead : Lead} {v : Part} {verdict : Verdict}

/-- The entries with their semicolons, and what follows. -/
theorem judged_front {stop : Nat} {q : Bytes} {ds : Children} (hq : stop ≤ q.length)
    (hlast : ∀ n, q.length ≤ n →
      Judged verdict (fun depth => readChildren (getDataFrom depth) kind stop n q) ds) :
    ∀ {pre : Parts}, pre.doc.Ok kind → (pre.All fun u => Scan.start.run u.text = some .start) →
      pre.All Part.Good → ∀ n, (pre.text kind true ++ q).length ≤ n →
      Judged (pre.whole.both verdict)
        (fun depth => readChildren (getDataFrom depth) kind stop n (pre.text kind true ++ q))
        (pre.doc.data.append ds)
  | .nil, _, _, _, n, hn => hlast n hn
  | .cons lead v pre, hok, hlines, hgood, n, hn => by
    obtain ⟨c, more, htext, hc⟩ := v.text_head
    rw [Parts.text_cons] at hn ⊢
    simp only [List.length_append, List.length_cons] at hn
    obtain ⟨n, rfl⟩ : ∃ m, n = m + 1 := Nat.exists_eq_add_one.mpr (by omega)
    have hrest := judged_front hq hlast hok.2.2 hlines.2 hgood.2 n
      (by rw [List.length_append]; omega)
    rw [Parts.whole, Verdict.both_assoc]
    refine hgood.1.whole.both hrest (f := Children.cons lead.key) ?_ fun depth => ?_
    · intro x y hxy
      obtain ⟨-, hx, hy⟩ := Children.cons.inj hxy
      exact ⟨hx, hy⟩
    · exact readChildren_value _ hok.1 htext hc hlines.1 (by rw [List.length_append]; omega) n

/-- The last one, of which the loop sees a part. -/
theorem judged_final {region tail : Bytes} {b : Byte} (hlead : lead.Ok kind)
    (h : Judged verdict (fun depth => getDataFrom depth region) v.doc.data)
    (hhead : ∀ c, (region ++ [b]).head? = some c → isspace c = false)
    (hline : ∃ r, Scan.start.run region = some r) (hseen : lead.text kind ++ region ≠ [])
    {n : Nat} (hn : (lead.text kind ++ (region ++ b :: tail)).length ≤ n) :
    Judged verdict (fun depth => readChildren (getDataFrom depth) kind (tail.length + 1) n
      (lead.text kind ++ (region ++ b :: tail))) (.cons lead.key v.doc.data .nil) := by
  simp only [List.length_append, List.length_cons] at hn
  obtain ⟨n, rfl⟩ : ∃ m, n = m + 1 := Nat.exists_eq_add_one.mpr (by omega)
  have hnil : Judged .exact (fun _ => some Children.nil) Children.nil := ⟨0, fun _ _ => rfl⟩
  rw [← verdict.both_exact]
  refine h.both hnil (f := Children.cons lead.key) ?_ fun depth => ?_
  · intro x y hxy
    obtain ⟨-, hx, hy⟩ := Children.cons.inj hxy
    exact ⟨hx, hy⟩
  · rw [readChildren_final _ hlead hhead hline hseen]
    cases getDataFrom depth region with
    | none => rfl
    | some d => rfl

/-- Or no part of it. -/
theorem judged_unseen {region tail : Bytes} {b : Byte} (hunseen : lead.text kind ++ region = [])
    {n : Nat} : Judged .misread (fun depth => readChildren (getDataFrom depth) kind
      (tail.length + 1) n (lead.text kind ++ (region ++ b :: tail)))
      (.cons lead.key v.doc.data .nil) := by
  refine judged_misread (x := .nil) (by simp) fun depth => ?_
  rw [← List.append_assoc, hunseen, List.nil_append]
  exact readChildren_done _ kind (Nat.le_of_eq List.length_cons) n

/-- An array or a dictionary with its brackets, or with one that is taken for its own. -/
theorem judged_taken {text region u w : Bytes} {b : Byte} (hpre : pre.doc.Ok kind)
    (hlines : pre.All fun u => Scan.start.run u.text = some .start) (hgood : pre.All Part.Good)
    (htext : text = kind.opening :: (pre.text kind true ++
      (lead.text kind ++ (region ++ b :: (u ++ kind.closing :: w)))))
    (hb : isspace b = false) (hu : Spaces u) (hw : Spaces w)
    (hlast : ∀ n, (lead.text kind ++ (region ++ b :: (u ++ kind.closing :: w))).length ≤ n →
      Judged verdict (fun depth => readChildren (getDataFrom depth) kind
        ((u ++ kind.closing :: w).length + 1) n
        (lead.text kind ++ (region ++ b :: (u ++ kind.closing :: w))))
        (.cons lead.key v.doc.data .nil)) :
    Judged (pre.whole.both verdict) (fun depth => getDataFrom depth text)
      (.node kind (pre.snoc lead v).doc.data) := by
  have hq : (u ++ kind.closing :: w).length + 1
      ≤ (lead.text kind ++ (region ++ b :: (u ++ kind.closing :: w))).length := by
    simp only [List.length_append, List.length_cons]
    omega
  have hchildren := judged_front hq hlast hpre hlines hgood text.length (by
    rw [htext, List.length_cons]
    exact Nat.le_succ _)
  rw [← Parts.data_snoc] at hchildren
  refine hchildren.nest (f := Data.node kind) (fun x hx => (Data.node.inj hx).2) rfl
    fun depth => ?_
  have hlastbyte : text = (kind.opening :: (pre.text kind true ++ (lead.text kind ++ region)))
      ++ b :: (u ++ kind.closing :: w) := by
    rw [htext]
    simp only [List.cons_append, List.append_assoc]
  have hhead : text.head? = some kind.opening := by
    rw [htext]
    rfl
  obtain ⟨rest, hrest⟩ := List.head?_eq_some_iff.mp hhead
  rw [hrest, getDataFrom_container, ← hrest,
    containerFromBuffer_taken _ hhead hlastbyte hb hu hw, htext, List.tail_cons]

end Children

/-! ## Arrays and dictionaries -/

theorem Lead.text_ne_nil {lead : Lead} : lead.text .dict ≠ [] := by
  intro h
  have hmem : EQUALS ∈ lead.text .dict := by
    simp [Lead.text]
  rw [h] at hmem
  exact absurd hmem List.not_mem_nil

/-- What is left of a value without its last byte is nothing only for a number of one digit. -/
theorem Part.single_of_cut {v : Part} (h : v.text.dropLast = []) : v.single = true := by
  cases v with
  | num n =>
    refine decide_eq_true ?_
    rcases decimal_cut n with ⟨hcut, hone⟩ | ⟨-, hcut⟩
    · have hnil := hcut.symm.trans h
      split at hnil
      · exact absurd hnil (by simp)
      · omega
    · obtain ⟨c, rest, hc, -⟩ := decimal_head
        (if n < 0 then -(n.natAbs / 10 : Nat) else (n.natAbs / 10 : Nat))
      exact absurd (hc.symm.trans (hcut.symm.trans h)) (by simp)
  | str s => exact absurd ((Part.dropLast_str s).symm.trans h) (List.cons_ne_nil _ _)
  | node kind entries closed trail =>
    exact absurd ((Part.dropLast_node kind entries closed trail).symm.trans h)
      (List.cons_ne_nil _ _)

theorem Part.cut_of_single {v : Part} (h : v.single = true) : v.text.dropLast = [] := by
  cases v with
  | num n =>
    have hrange := of_decide_eq_true h
    rcases decimal_cut n with ⟨hcut, -⟩ | ⟨hten, -⟩
    · rw [if_neg (by omega)] at hcut
      exact hcut
    · omega
  | str s => exact absurd h Bool.false_ne_true
  | node kind entries closed trail => exact absurd h Bool.false_ne_true

/-- The last entry without its semicolon. -/
theorem judged_lastCut {kind : Kind} {lead : Lead} {v : Part} {tail : Bytes} {b : Byte}
    (hlead : lead.Ok kind) (hv : v.Good) (hline : ∃ r, Scan.start.run v.text = some r)
    (hb : v.text = v.text.dropLast ++ [b]) {n : Nat}
    (hn : (lead.text kind ++ (v.text.dropLast ++ b :: tail)).length ≤ n) :
    Judged (v.lastCut kind lead)
      (fun depth => readChildren (getDataFrom depth) kind (tail.length + 1) n
        (lead.text kind ++ (v.text.dropLast ++ b :: tail))) (.cons lead.key v.doc.data .nil) := by
  rw [Part.lastCut]
  by_cases hunseen : lead.text kind ++ v.text.dropLast = []
  · obtain ⟨hnone, hcut⟩ := List.append_eq_nil_iff.mp hunseen
    have harray : kind = .array ∧ lead.before = [] := by
      cases kind with
      | array => exact ⟨rfl, hnone⟩
      | dict => exact absurd hnone Lead.text_ne_nil
    rw [if_pos ⟨harray.1, harray.2, Part.single_of_cut hcut⟩]
    exact judged_unseen hunseen
  · rw [if_neg]
    · refine judged_final hlead hv.cut ?_ ?_ hunseen hn
      · rw [← hb, ← List.append_nil v.text]
        exact v.head_space []
      · obtain ⟨r, hr⟩ := hline
        rw [hb] at hr
        exact Scan.run_prefix hr
    · rintro ⟨rfl, hbefore, hsingle⟩
      refine hunseen ?_
      rw [Part.cut_of_single hsingle, List.append_nil]
      exact hbefore

/-- The last entry, whose closing bracket is taken for that of the array or the dictionary. -/
theorem judged_lastRobbed {kind kind' : Kind} {lead : Lead} {entries : Parts} {closed : Bool}
    {trail tail : Bytes} {b : Byte} (hlead : lead.Ok kind)
    (hgood : (Part.node kind' entries closed trail).Good)
    (hline : ∃ r, Scan.start.run (Part.node kind' entries closed trail).core.dropLast = some r)
    (hcore : (Part.node kind' entries closed trail).core
      = (Part.node kind' entries closed trail).core.dropLast ++ [b]) {n : Nat}
    (hn : (lead.text kind ++ ((Part.node kind' entries closed trail).core.dropLast
      ++ b :: tail)).length ≤ n) :
    Judged (Part.node kind' entries closed trail).robbed
      (fun depth => readChildren (getDataFrom depth) kind (tail.length + 1) n
        (lead.text kind ++ ((Part.node kind' entries closed trail).core.dropLast ++ b :: tail)))
      (.cons lead.key (Part.node kind' entries closed trail).doc.data .nil) := by
  by_cases hunseen : lead.text kind ++ (Part.node kind' entries closed trail).core.dropLast = []
  · have hnil : entries = .nil := by
      rcases entries.eq_nil_or_snoc with rfl | ⟨pre, lead', v, rfl⟩
      · rfl
      · have hlen := congrArg List.length (List.append_eq_nil_iff.mp hunseen).2
        obtain ⟨c, rest, htext, -⟩ := v.text_head
        rw [Part.core, Parts.text_snoc, htext] at hlen
        simp only [List.length_dropLast, List.length_cons, List.length_append,
          List.length_nil] at hlen
        omega
    subst hnil
    exact judged_unseen hunseen
  · refine judged_final hlead (hgood.robbed kind' (decide_eq_true rfl)) ?_ hline hunseen hn
    rw [← hcore]
    intro c hc
    obtain rfl := Option.some.inj hc
    exact kind'.opening_space

section Node

variable {kind : Kind} {es : Parts}

/-- Without its closing bracket. -/
theorem judged_unclosed (hok : es.doc.Ok kind) (hstraight : es.straight = true)
    (hgood : es.All Part.Good) {w : Bytes} (hw : Spaces w) :
    Judged (es.unclosed kind)
      (fun depth => getDataFrom depth (kind.opening :: (es.text kind false ++ w)))
      (.node kind es.doc.data) := by
  rcases es.eq_nil_or_snoc with rfl | ⟨pre, lead, v, rfl⟩
  · have hne : kind.opening ≠ kind.closing := by cases kind <;> decide
    exact Judged.refused fun depth =>
      getDataFrom_unbalanced (a := []) rfl rfl kind.opening_space hne hw depth
  · obtain ⟨hpre, hlead, hv⟩ := Parts.ok_snoc hok
    obtain ⟨hlines, r, hr⟩ := Parts.lines_snoc hok hstraight
    obtain ⟨hgpre, hgv⟩ := Parts.all_snoc hgood
    rw [Parts.unclosed_snoc, Parts.text_snoc, if_neg Bool.false_ne_true, List.append_nil]
    by_cases hnode : v.isNode kind = true
    · rw [if_pos hnode]
      cases v with
      | num n => exact absurd hnode Bool.false_ne_true
      | str s => exact absurd hnode Bool.false_ne_true
      | node kind' entries closed trail =>
        obtain rfl : kind' = kind := of_decide_eq_true hnode
        obtain ⟨b, hcore, hb⟩ := Part.core_last kind' entries closed trail
        -- The closing bracket of the last entry is taken, and the byte before it is not read.
        have hsplit : (Part.node kind' entries closed trail).text
            = (Part.node kind' entries closed trail).core.dropLast
              ++ b :: (trail ++ [kind'.closing]) := by
          have hwhole := congrArg (· ++ (trail ++ [kind'.closing])) hcore
          simp only [List.append_assoc, List.singleton_append] at hwhole
          exact hwhole
        have htext : kind'.opening :: (pre.text kind' true ++ (lead.text kind' ++
              (Part.node kind' entries closed trail).text) ++ w)
            = kind'.opening :: (pre.text kind' true ++ (lead.text kind' ++
              ((Part.node kind' entries closed trail).core.dropLast
                ++ b :: (trail ++ kind'.closing :: w)))) := by
          rw [hsplit]
          simp only [List.append_assoc, List.cons_append, List.nil_append]
        rw [hsplit] at hr
        exact judged_taken hpre hlines hgpre htext hb hv.2 hw fun n hn =>
          judged_lastRobbed hlead hgv (Scan.run_prefix hr) hcore hn
    · rw [if_neg hnode, Verdict.both_refused]
      obtain ⟨x, hx, hspace, hclosing⟩ := v.text_last
      have htext : kind.opening :: (pre.text kind true ++ (lead.text kind ++ v.text) ++ w)
          = (kind.opening :: (pre.text kind true ++ (lead.text kind ++ v.text.dropLast)))
            ++ x :: w := by
        conv_lhs => rw [hx]
        simp only [List.append_assoc, List.cons_append, List.nil_append]
      exact Judged.refused fun depth => getDataFrom_unbalanced rfl htext hspace
        (fun h => hnode (hclosing kind h)) hw depth

/-- With both brackets. -/
theorem judged_whole (hok : es.doc.Ok kind) (hstraight : es.straight = true)
    (hgood : es.All Part.Good) {trail : Bytes} (htrail : Spaces trail) (closed : Bool) :
    Judged (Part.node kind es closed trail).whole
      (fun depth => getDataFrom depth (Part.node kind es closed trail).text)
      (.node kind es.doc.data) := by
  rcases es.eq_nil_or_snoc with rfl | ⟨pre, lead, v, rfl⟩
  · have hexact : (Part.node kind .nil closed trail).whole = .exact := by cases closed <;> rfl
    rw [hexact]
    refine judged_exact fun depth => ?_
    have htaken : containerFromBuffer (getDataFrom depth) kind
        (kind.opening :: (trail ++ [kind.closing])) = some .nil :=
      (containerFromBuffer_taken (getDataFrom depth) (a := []) (b := kind.opening) (w := [])
        (by rfl) (by rfl) kind.opening_space htrail spaces_nil).trans
        (readChildren_done _ kind (Nat.le_succ _) _)
    show getDataFrom (depth + 1) (kind.opening :: (trail ++ [kind.closing])) = _
    rw [getDataFrom_container, htaken]
    rfl
  · obtain ⟨hpre, hlead, hv⟩ := Parts.ok_snoc hok
    obtain ⟨hlines, hline⟩ := Parts.lines_snoc hok hstraight
    obtain ⟨hgpre, hgv⟩ := Parts.all_snoc hgood
    cases closed with
    | true =>
      have htext : (Part.node kind (pre.snoc lead v) true trail).text
          = kind.opening :: (pre.text kind true ++ (lead.text kind ++
              (v.text ++ SEMICOLON :: (trail ++ [kind.closing])))) := by
        rw [Part.text, Parts.text_snoc, if_pos rfl]
        simp only [List.append_assoc, List.cons_append, List.nil_append]
      rw [Part.whole, if_pos rfl, Parts.whole_snoc]
      exact judged_taken hpre hlines hgpre htext (by decide) htrail spaces_nil fun n hn =>
        judged_final hlead hgv.whole (v.head_space _) hline
          (List.append_ne_nil_of_right_ne_nil _ v.text_ne_nil) hn
    | false =>
      obtain ⟨b, hb, hspace, -⟩ := v.text_last
      have htext : (Part.node kind (pre.snoc lead v) false trail).text
          = kind.opening :: (pre.text kind true ++ (lead.text kind ++
              (v.text.dropLast ++ b :: (trail ++ [kind.closing])))) := by
        rw [Part.text, Parts.text_snoc, if_neg Bool.false_ne_true, List.append_nil]
        conv_lhs => rw [hb]
        simp only [List.append_assoc, List.cons_append, List.nil_append]
      rw [Part.whole, if_neg Bool.false_ne_true, Parts.short_snoc]
      exact judged_taken hpre hlines hgpre htext hspace htrail spaces_nil
        fun n hn => judged_lastCut hlead hgv hline hb hn

/-- Without its closing bracket and the byte before. -/
theorem judged_robbed (hok : es.doc.Ok kind) (hstraight : es.straight = true)
    (hgood : es.All Part.Good) (trail : Bytes) (closed : Bool) :
    Judged (Part.node kind es closed trail).robbed
      (fun depth => getDataFrom depth (Part.node kind es closed trail).core.dropLast)
      (.node kind es.doc.data) := by
  rw [Part.robbed]
  rcases es.eq_nil_or_snoc with rfl | ⟨pre, lead, v, rfl⟩
  · exact judged_misread (x := .num 0) (by simp) getDataFrom_nil
  · rw [pre.snoc_isNil, if_neg Bool.false_ne_true, Part.core]
    cases closed with
    | true =>
      have hcore : (kind.opening :: (pre.snoc lead v).text kind true).dropLast
          = kind.opening :: ((pre.snoc lead v).text kind false ++ []) := by
        rw [Parts.text_snoc, Parts.text_snoc, if_pos rfl, if_neg Bool.false_ne_true,
          ← List.append_assoc (lead.text kind), ← List.append_assoc, ← List.cons_append,
          List.dropLast_concat, List.append_nil, List.append_nil]
      rw [hcore]
      exact judged_unclosed hok hstraight hgood spaces_nil
    | false =>
      rw [if_neg Bool.false_ne_true]
      by_cases hbare : (pre.snoc lead v).bracketless = true
      · obtain ⟨hpre, hlead, hv⟩ := Parts.ok_snoc hok
        obtain ⟨hpbare, hvbare⟩ := Parts.bracketless_snoc hbare
        obtain ⟨b, hb, -⟩ := v.text_last
        obtain ⟨S, w, hS, hSok, htorn, hw⟩ := Stub.torn hpre hpbare hlead hv hvbare
        have hcore : (kind.opening :: (pre.snoc lead v).text kind false).dropLast
            = S.text ++ w := by
          rw [← hS, Parts.text_snoc, if_neg Bool.false_ne_true, List.append_nil]
          conv_lhs => rw [hb]
          rw [← List.append_assoc (lead.text kind), ← List.append_assoc, ← List.cons_append,
            List.dropLast_concat]
        rw [if_pos hbare, hcore]
        exact Judged.refused fun depth => Stub.refused depth hSok htorn hw
      · rw [if_neg hbare]
        trivial

theorem Part.good_node (hok : es.doc.Ok kind) (hstraight : es.straight = true)
    (hgood : es.All Part.Good) {trail : Bytes} (htrail : Spaces trail) (closed : Bool) :
    (Part.node kind es closed trail).Good := by
  refine ⟨judged_whole hok hstraight hgood htrail closed, ?_,
    fun _ _ => judged_robbed hok hstraight hgood trail closed⟩
  rw [Part.dropLast_node, Part.cut]
  cases closed with
  | true => exact Judged.refused (((es.ends_shut kind).append htrail.shut).refused rfl)
  | false => exact judged_unclosed hok hstraight hgood htrail

end Node

mutual

theorem Part.good : ∀ v : Part, v.doc.Ok → v.straight = true → v.Good
  | .num _, hok, _ => Part.good_num hok
  | .str _, hok, _ => Part.good_str hok.2
  | .node kind entries closed _, hok, h =>
    Part.good_node hok.1 h (entries.good kind hok.1 h) hok.2 closed

theorem Parts.good (kind : Kind) : ∀ es : Parts, es.doc.Ok kind → es.straight = true →
    es.All Part.Good
  | .nil, _, _ => trivial
  | .cons _ value rest, hok, h => by
    obtain ⟨hvalue, hrest⟩ := (Bool.and_eq_true _ _).mp h
    exact ⟨value.good hok.2.1 ((Bool.and_eq_true _ _).mp hvalue).1,
      rest.good kind hok.2.2 hrest⟩

end

/-! ## The whole file -/

/-- Without the white space that it begins with. -/
def Parts.strip : Parts → Parts
  | .nil => .nil
  | .cons lead value rest => .cons { lead with before := [] } value rest

theorem Parts.strip_verdict (closed : Bool) (es : Parts) :
    es.strip.verdict closed = es.verdict closed := by
  have hno : ∀ {p : Prop}, ¬ (Kind.dict = Kind.array ∧ p) := fun h => absurd h.1 (by simp)
  cases es with
  | nil => rfl
  | cons lead value rest =>
    unfold Parts.verdict Parts.strip
    rw [Parts.short, Parts.short, if_neg hno, if_neg hno]
    rfl

theorem Parts.strip_ok {es : Parts} (h : es.doc.Ok .dict) : es.strip.doc.Ok .dict := by
  cases es with
  | nil => exact trivial
  | cons lead value rest => exact ⟨⟨spaces_nil, h.1.2⟩, h.2⟩

theorem Parts.strip_straight (es : Parts) : es.strip.straight = es.straight := by
  cases es with
  | nil => rfl
  | cons lead value rest => rfl

theorem Parts.strip_data (es : Parts) : es.strip.doc.data = es.doc.data := by
  cases es with
  | nil => rfl
  | cons lead value rest => rfl

theorem Parts.strip_eq_nil {es : Parts} : es.strip = .nil ↔ es = .nil := by
  cases es with
  | nil => exact iff_of_true rfl rfl
  | cons lead value rest => exact iff_of_false (by simp [Parts.strip]) (by simp)

theorem Parts.strip_length (closed : Bool) (w : Bytes) (es : Parts) :
    (es.strip.text .dict closed ++ w).length ≤ (es.text .dict closed ++ w).length := by
  cases es with
  | nil => exact Nat.le_refl _
  | cons lead value rest =>
    simp only [Parts.strip, Parts.text, Lead.text, List.length_append, List.length_nil]
    omega

/-- White space at both ends of the file is skipped. -/
theorem dictFromBuffer_parts (g : Bytes → Option Data) {es : Parts} (hok : es.doc.Ok .dict)
    (hne : es ≠ .nil) (closed : Bool) {w : Bytes} (hw : Spaces w) :
    dictFromBuffer g (es.text .dict closed ++ w) =
      readChildren g .dict (w.length + 1) (es.text .dict closed ++ w).length
        (es.strip.text .dict closed ++ w) := by
  obtain ⟨a, b, hlast, hb⟩ : ∃ a b, es.text .dict closed = a ++ [b] ∧ isspace b = false := by
    rcases es.eq_nil_or_snoc with rfl | ⟨pre, lead, v, rfl⟩
    · exact absurd rfl hne
    · rw [Parts.text_snoc]
      cases closed with
      | true =>
        exact ⟨pre.text .dict true ++ (lead.text .dict ++ v.text), SEMICOLON,
          by simp only [if_true, List.append_assoc], by decide⟩
      | false =>
        obtain ⟨x, hx, hspace, -⟩ := v.text_last
        refine ⟨pre.text .dict true ++ (lead.text .dict ++ v.text.dropLast), x, ?_, hspace⟩
        conv_lhs => rw [hx]
        simp only [Bool.false_eq_true, if_false, List.append_nil, List.append_assoc]
  cases es with
  | nil => exact absurd rfl hne
  | cons lead value rest =>
    obtain ⟨⟨hbefore, hkey, -⟩, -⟩ := hok
    obtain ⟨c, key, hc⟩ := List.exists_cons_of_ne_nil hkey.ne_nil
    have hword : isWord c = true := hkey.words c (by rw [hc]; exact List.mem_cons_self)
    obtain ⟨q, hstrip⟩ : ∃ q, (Parts.cons lead value rest).strip.text .dict closed ++ w
        = c :: q := ⟨_, by rw [Parts.strip, Parts.text, Lead.text, hc]; rfl⟩
    have hfirst : (Parts.cons lead value rest).text .dict closed ++ w
        = lead.before ++ (c :: q) := by
      rw [← hstrip]
      simp only [Parts.strip, Parts.text, Lead.text, List.append_assoc, List.nil_append]
    rw [hstrip]
    exact dictFromBuffer_open g hbefore hword hfirst hb hw
      (by rw [hlast, List.append_assoc]; rfl)

/-- What is read of a file is as the verdict on it says. -/
theorem judged_file {es : Parts} (hok : es.doc.Ok .dict) (hstraight : es.straight = true)
    (closed : Bool) {w : Bytes} (hw : Spaces w) :
    Judged (es.verdict closed)
      (fun depth => dictFromBuffer (getDataFrom depth) (es.text .dict closed ++ w))
      es.doc.data := by
  by_cases hne : es = .nil
  · subst hne
    have hexact : Parts.nil.verdict closed = .exact := by cases closed <;> rfl
    rw [hexact]
    exact judged_exact fun depth => dictFromBuffer_spaces _ hw
  have hlen := es.strip_length closed w
  rw [← es.strip_verdict closed, ← es.strip_data]
  simp only [dictFromBuffer_parts _ hok hne closed hw]
  generalize (es.text .dict closed ++ w).length = n at hlen ⊢
  have hsok := Parts.strip_ok hok
  have hsstraight := es.strip_straight.trans hstraight
  obtain hnil | ⟨pre, lead, v, hsnoc⟩ := es.strip.eq_nil_or_snoc
  · exact absurd (Parts.strip_eq_nil.mp hnil) hne
  rw [hsnoc] at hsok hsstraight hlen ⊢
  obtain ⟨hpre, hlead, hv⟩ := Parts.ok_snoc hsok
  obtain ⟨hlines, hline⟩ := Parts.lines_snoc hsok hsstraight
  obtain ⟨hgpre, hgv⟩ := Parts.all_snoc (Parts.good .dict _ hsok hsstraight)
  rw [Parts.data_snoc]
  cases closed with
  | true =>
    have htext : (pre.snoc lead v).text .dict true ++ w
        = pre.text .dict true ++ (lead.text .dict ++ (v.text ++ SEMICOLON :: w)) := by
      rw [Parts.text_snoc, if_pos rfl]
      simp only [List.append_assoc, List.cons_append, List.nil_append]
    rw [Parts.verdict, if_pos rfl, Parts.whole_snoc]
    rw [htext] at hlen ⊢
    refine judged_front ?_ (fun n hn => ?_) hpre hlines hgpre n hlen
    · simp only [List.length_append, List.length_cons]
      omega
    · exact judged_final hlead hgv.whole (v.head_space _) hline
        (List.append_ne_nil_of_right_ne_nil _ v.text_ne_nil) hn
  | false =>
    obtain ⟨b, hb, -⟩ := v.text_last
    have htext : (pre.snoc lead v).text .dict false ++ w
        = pre.text .dict true ++ (lead.text .dict ++ (v.text.dropLast ++ b :: w)) := by
      rw [Parts.text_snoc, if_neg Bool.false_ne_true, List.append_nil]
      conv_lhs => rw [hb]
      simp only [List.append_assoc, List.cons_append, List.nil_append]
    rw [Parts.verdict, if_neg Bool.false_ne_true, Parts.short_snoc]
    rw [htext] at hlen ⊢
    refine judged_front ?_ (fun n hn => judged_lastCut hlead hgv hline hb hn) hpre hlines hgpre n
      hlen
    simp only [List.length_append, List.length_cons]
    omega

/-! ## Without brackets in strings -/

theorem Verdict.both_settled {a b : Verdict} (ha : a ≠ .unsettled) (hb : b ≠ .unsettled) :
    a.both b ≠ .unsettled := by
  cases a with
  | exact => exact hb
  | refused => simp [Verdict.both]
  | misread =>
    cases b with
    | exact => simp [Verdict.both]
    | refused => exact hb
    | misread => exact hb
    | unsettled => exact absurd rfl hb
  | unsettled => exact absurd rfl ha

mutual

theorem Part.settled : ∀ v : Part, v.bracketless = true →
    v.whole ≠ .unsettled ∧ v.cut ≠ .unsettled ∧ v.robbed ≠ .unsettled
  | .num n, _ => by
    refine ⟨by simp [Part.whole], ?_, by simp [Part.robbed]⟩
    rw [Part.cut]
    split
    · simp
    · split <;> simp
  | .str s, _ => by
    refine ⟨?_, by simp [Part.cut], by simp [Part.robbed]⟩
    rw [Part.whole]
    split <;> simp
  | .node kind entries closed _, h => by
    obtain ⟨hwhole, hshort, hunclosed⟩ := entries.settled h
    refine ⟨?_, ?_, ?_⟩
    · rw [Part.whole]
      split
      · exact hwhole
      · exact hshort kind
    · rw [Part.cut]
      split
      · simp
      · exact hunclosed kind
    · rw [Part.robbed]
      split
      · simp
      · split
        · exact hunclosed kind
        · rw [if_pos (show entries.bracketless = true from h)]
          simp

theorem Parts.settled : ∀ es : Parts, es.bracketless = true →
    es.whole ≠ .unsettled ∧ (∀ kind, es.short kind ≠ .unsettled) ∧
      ∀ kind, es.unclosed kind ≠ .unsettled
  | .nil, _ => ⟨by simp [Parts.whole], by simp [Parts.short], by simp [Parts.unclosed]⟩
  | .cons lead value rest, h => by
    obtain ⟨hvalue, hrest⟩ := (Bool.and_eq_true _ _).mp h
    obtain ⟨hwhole, hcut, hrobbed⟩ := value.settled hvalue
    obtain ⟨hrwhole, hrshort, hrunclosed⟩ := rest.settled hrest
    refine ⟨Verdict.both_settled hwhole hrwhole, fun kind => ?_, fun kind => ?_⟩
    · rw [Parts.short]
      split
      · split
        · simp
        · exact hcut
      · exact Verdict.both_settled hwhole (hrshort kind)
    · rw [Parts.unclosed]
      split
      · split
        · exact hrobbed
        · simp
      · exact Verdict.both_settled hwhole (hrunclosed kind)

end

theorem Parts.verdict_settled {es : Parts} (h : es.bracketless = true) (closed : Bool) :
    es.verdict closed ≠ .unsettled := by
  obtain ⟨hwhole, hshort, -⟩ := es.settled h
  unfold Parts.verdict
  split
  · exact hwhole
  · exact hshort .dict

/-! ## Never misread -/

/-- Whatever is accepted is what was meant. -/
def NeverMisread (text : Bytes) (meant : Children) : Prop := ∀ ds, Accepts text ds → ds = meant

/-- The lines end where the values do, and the verdict is no misreading. -/
def Parts.sound (closed : Bool) (es : Parts) : Bool :=
  es.straight && decide (es.verdict closed = .exact ∨ es.verdict closed = .refused)

theorem neverMisread_iff {es : Parts} (hok : es.doc.Ok .dict) (hstraight : es.straight = true)
    {closed : Bool} (hsettled : es.verdict closed ≠ .unsettled) {w : Bytes} (hw : Spaces w) :
    NeverMisread (es.text .dict closed ++ w) es.doc.data ↔ es.sound closed = true := by
  have hiff := (judged_file hok hstraight closed hw).iff hsettled
    fun hle h => containerFromBuffer_mono (getDataFrom_mono hle) h
  rw [Parts.sound, hstraight, Bool.true_and, decide_eq_true_iff, ← hiff]
  exact ⟨fun h depth ds hread => h ds ⟨depth, hread⟩, fun h ds ⟨depth, hread⟩ => h depth ds hread⟩

/-- A configuration with final semicolons left out is not misread if it is sound. If no string in
it has a bracket, or the lines are straight and the verdict is settled anyway, it is not misread
only then. -/
theorem config_unterminated {es : Parts} (hok : es.doc.Ok .dict) (closed : Bool) {w : Bytes}
    (hw : Spaces w) :
    (es.sound closed = true → NeverMisread (es.text .dict closed ++ w) es.doc.data) ∧
      (es.bracketless = true ∨ es.straight = true ∧ es.verdict closed ≠ .unsettled →
        (NeverMisread (es.text .dict closed ++ w) es.doc.data ↔ es.sound closed = true)) := by
  refine ⟨fun h => ?_, ?_⟩
  · obtain ⟨hstraight, hverdict⟩ := (Bool.and_eq_true _ _).mp h
    have hsettled : es.verdict closed ≠ .unsettled := by
      rcases of_decide_eq_true hverdict with heq | heq
      · rw [heq]
        simp
      · rw [heq]
        simp
    exact (neverMisread_iff hok hstraight hsettled hw).mpr h
  · rintro (hbare | ⟨hstraight, hsettled⟩)
    · exact neverMisread_iff hok (es.straight_bracketless hbare)
        (Parts.verdict_settled hbare closed) hw
    · exact neverMisread_iff hok hstraight hsettled hw

/-- `user = "nast"; ports = [ 31337 ]` and the end of the line. -/
def unterminatedPorts : Parts :=
  .cons ⟨[], [0x75, 0x73, 0x65, 0x72], [0x20], [0x20]⟩ (.str [0x6e, 0x61, 0x73, 0x74])
    (.cons ⟨[0x20], [0x70, 0x6f, 0x72, 0x74, 0x73], [0x20], [0x20]⟩
      (.node .array (.cons ⟨[0x20], [], [], []⟩ (.num 31337) .nil) false [0x20]) .nil)

/-- It is refused. -/
theorem unterminatedPorts_read :
    NeverMisread (unterminatedPorts.text .dict false ++ [0x0a]) unterminatedPorts.doc.data :=
  (config_unterminated (by decide) false (by decide)).1 (by decide)

/-- `a = 12` -/
def twelve : Parts := .cons ⟨[], [0x61], [0x20], [0x20]⟩ (.num 12) .nil

/-- It is read as `a = 1;`. -/
theorem last_digit_lost :
    ¬ ∀ (es : Parts) (closed : Bool) (w : Bytes), es.doc.Ok .dict → Spaces w →
      NeverMisread (es.text .dict closed ++ w) es.doc.data := by
  intro h
  have hread : Accepts (twelve.text .dict false ++ []) (.cons [0x61] (.num 1) .nil) := ⟨1, rfl⟩
  have hmeant := h twelve false [] (by decide) spaces_nil _ hread
  obtain ⟨-, hvalue, -⟩ := Children.cons.inj hmeant
  exact absurd (Data.num.inj hvalue) (by decide)

end Nastd.Libconfig
