import Mathlib.Data.List.TakeWhile
import Nastd.Libconfig.Marks

/-!
# Nothing is read that is not there

The tree that is read from a neat text weighs no more than the text has marks, and one: every child
of an array or a dictionary takes at least a semicolon, wherever the lines end: `weight_le`.
-/

namespace Nastd.Libconfig

mutual

/-- The keys are identifiers. -/
def Data.Keyed : Data → Prop
  | .num _ => True
  | .str _ => True
  | .node kind children => children.Keyed kind

def Children.Keyed (kind : Kind) : Children → Prop
  | .nil => True
  | .cons key value rest => (kind = .dict → Identifier key) ∧ value.Keyed ∧ rest.Keyed kind

end

mutual

theorem Doc.keyed : ∀ v : Doc, v.Ok → v.data.Keyed
  | .num _, _ => trivial
  | .str _, _ => trivial
  | .node kind entries _, hok => entries.keyed kind hok.1

theorem Docs.keyed (kind : Kind) : ∀ es : Docs, es.Ok kind → es.data.Keyed kind
  | .nil, _ => trivial
  | .cons lead value rest, hok => by
    refine ⟨?_, value.keyed hok.2.1, rest.keyed kind hok.2.2⟩
    rintro rfl
    exact hok.1.2.1

end

/-! ## Keys

`region` is what stands before `buffer+len`. -/

theorem skipSpace_region (least : Nat) {x : Byte} (hx : isspace x = false) (y : Bytes) :
    ∀ region : Bytes, ∃ w rest, region = w ++ rest ∧ Spaces w ∧
      skipSpace least (region ++ x :: y) = rest ++ x :: y := by
  intro region
  induction region with
  | nil => exact ⟨[], [], rfl, spaces_nil, skipSpace_head hx least y⟩
  | cons c region ih =>
    rw [List.cons_append, skipSpace]
    split
    · next h =>
      obtain ⟨w, rest, rfl, hw, hskip⟩ := ih
      refine ⟨c :: w, rest, rfl, fun d hd => ?_, hskip⟩
      rcases List.mem_cons.mp hd with rfl | hd
      · exact h.2
      · exact hw d hd
    · exact ⟨[], c :: region, rfl, spaces_nil, rfl⟩

theorem skipSpace_length (least : Nat) : ∀ p : Bytes, (skipSpace least p).length ≤ p.length := by
  intro p
  induction p with
  | nil => exact Nat.le_refl _
  | cons c p ih =>
    rw [skipSpace]
    split
    · exact Nat.le_succ_of_le ih
    · exact Nat.le_refl _

/-- A text whose trimmed part is an identifier has nothing else in it. -/
theorem trimKey_plain {text : Bytes} (h : Identifier (trimKey text)) : Plain text := by
  cases text with
  | nil => exact fun c hc => absurd hc (by simp)
  | cons c text =>
    have hkey : trimKey (c :: text) = c :: (text.reverse.dropWhile isspace).reverse := rfl
    rw [hkey] at h
    have hwords := h.words
    intro d hd
    rcases List.mem_cons.mp hd with rfl | hd
    · exact isPlain_word (hwords d List.mem_cons_self)
    · have hmem : d ∈ text.reverse.takeWhile isspace ++ text.reverse.dropWhile isspace := by
        rw [List.takeWhile_append_dropWhile]
        exact List.mem_reverse.mpr hd
      rcases List.mem_append.mp hmem with hmem | hmem
      · exact isPlain_space (List.mem_takeWhile_imp hmem)
      · exact isPlain_word (hwords d (List.mem_cons_of_mem _ (List.mem_reverse.mpr hmem)))

/-- Behind a key the region goes on, or its end has been passed. -/
theorem readKey_region {kind : Kind} {x : Byte} (hx : isspace x = false) {y region key p : Bytes}
    (h : readKey kind (y.length + 1) (region ++ x :: y) = some (key, p))
    (hkey : kind = .dict → Identifier key) :
    (∃ pre rest, region = pre ++ rest ∧ Plain pre ∧ p = rest ++ x :: y) ∨
      p.length < y.length + 1 := by
  cases kind with
  | array =>
    obtain ⟨rfl, rfl⟩ := Prod.mk.inj (Option.some.inj h)
    exact Or.inl ⟨[], region, rfl, fun c hc => absurd hc (by simp), rfl⟩
  | dict =>
    rw [readKey] at h
    by_cases hmem : EQUALS ∈ region
    · obtain ⟨u, v, rfl, hu⟩ := List.eq_append_cons_of_mem hmem
      obtain ⟨w, rest, rfl, hw, hskip⟩ := skipSpace_region (y.length + 1 + 1) hx y v
      obtain ⟨htake, hdrop⟩ := split_equals hu (w ++ rest ++ x :: y)
      rw [List.append_assoc, List.cons_append, htake, hdrop] at h
      obtain ⟨rfl, rfl⟩ := Prod.mk.inj (Option.some.inj h)
      refine Or.inl ⟨u ++ EQUALS :: w, rest, by simp, ?_, hskip⟩
      exact (trimKey_plain (hkey rfl)).append (hw.plain.cons (by decide))
    · -- The equals sign is found behind the region.
      apply Or.inr
      have hall : ∀ c ∈ region, decide (c ≠ EQUALS) = true := fun c hc =>
        decide_eq_true fun heq => hmem (heq ▸ hc)
      rw [List.dropWhile_append_of_pos hall] at h
      have hle := List.length_dropWhile_le (fun c => decide (c ≠ EQUALS)) (x :: y)
      cases hd : (x :: y).dropWhile (· ≠ EQUALS) with
      | nil =>
        rw [hd] at h
        exact absurd h (by simp)
      | cons e q =>
        rw [hd] at h hle
        obtain ⟨-, rfl⟩ := Prod.mk.inj (Option.some.inj h)
        exact Nat.lt_of_le_of_lt (skipSpace_length _ _) hle

/-! ## Children -/

/-- What is read from a neat text weighs no more than the text. -/
def Bounded (g : Bytes → Option Data) : Prop :=
  ∀ text d, Neat text → g text = some d → d.Keyed → d.weight ≤ marks text + 1

/-- One value and what follows it, whatever the line is. -/
theorem line_weight {g : Bytes → Option Data} (hg : Bounded g) {kind : Kind} {x : Byte}
    {y text : Bytes} {n : Nat} {d : Data} {rest : Children}
    (ih : ∀ (region : Bytes) (cs : Children), Neat region →
      readChildren g kind (y.length + 1) n (region ++ x :: y) = some cs → cs.Keyed kind →
      cs.weight ≤ marks region + 1)
    (htext : Neat text) (hd : g ((text ++ x :: y).take (getLineLenFrom text)) = some d)
    (hrest : readChildren g kind (y.length + 1) n ((text ++ x :: y).drop (getLineLenFrom text + 1))
      = some rest)
    (hdkeyed : d.Keyed) (hrestkeyed : rest.Keyed kind) :
    d.weight + rest.weight ≤ marks text + 1 := by
  rcases lineLen_cases .start text with ⟨r, -, hline⟩ | ⟨a, b, rfl, hafter, hline⟩
  · rw [getLineLenFrom, hline, List.take_left] at hd
    rw [getLineLenFrom, hline, drop_line, readChildren_done g kind (Nat.le_succ _)] at hrest
    obtain rfl := Option.some.inj hrest
    exact hg text d htext hd hdkeyed
  · obtain ⟨ha, hb⟩ := htext.cut hafter
    rw [getLineLenFrom, hline, List.append_assoc, List.take_left] at hd
    rw [getLineLenFrom, hline, List.append_assoc, List.cons_append, drop_line] at hrest
    have hvalue := hg a d ha hd hdkeyed
    have hchildren := ih b rest hb hrest hrestkeyed
    rw [marks_append, marks_cons (by decide)]
    omega

theorem readChildren_weight {g : Bytes → Option Data} (hg : Bounded g) {kind : Kind} {x : Byte}
    (hx : isspace x = false) (y : Bytes) : ∀ (n : Nat) (region : Bytes) (cs : Children),
      Neat region → readChildren g kind (y.length + 1) n (region ++ x :: y) = some cs →
      cs.Keyed kind → cs.weight ≤ marks region + 1 := by
  intro n
  induction n with
  | zero =>
    intro region cs _ hread _
    rw [readChildren] at hread
    split at hread
    · exact absurd hread (by simp)
    · obtain rfl := Option.some.inj hread
      exact Nat.zero_le _
  | succ n ih =>
    intro region cs hneat hread hkeyed
    rw [readChildren] at hread
    split at hread
    · obtain ⟨⟨key, p⟩, hkey, hread⟩ := Option.bind_eq_some_iff.mp hread
      obtain ⟨d, hd, hread⟩ := Option.bind_eq_some_iff.mp hread
      obtain ⟨rest, hrest, rfl⟩ := Option.map_eq_some_iff.mp hread
      obtain ⟨hid, hdkeyed, hrestkeyed⟩ := hkeyed
      obtain ⟨w, region', rfl, hw, hskip⟩ := skipSpace_region (y.length + 1) hx y region
      rw [hskip] at hkey
      dsimp only at hd hrest hid
      show d.weight + rest.weight ≤ _
      rcases readKey_region hx hkey hid with ⟨pre, text, rfl, hpre, rfl⟩ | hlt
      · have htext : Neat text := (hneat.drop_plain hw.plain).drop_plain hpre
        have hmarks : marks (w ++ (pre ++ text)) = marks text := by
          rw [marks_append, marks_append, hw.plain.marks, hpre.marks, Nat.zero_add, Nat.zero_add]
        have htake : (text ++ x :: y).take ((text ++ x :: y).length - (y.length + 1)) = text :=
          List.take_left' (by rw [List.length_append, List.length_cons]; omega)
        rw [htake] at hd hrest
        rw [hmarks]
        exact line_weight hg ih htext hd hrest hdkeyed hrestkeyed
      · -- The value is empty, and nothing is left.
        have hzero : p.length - (y.length + 1) = 0 := by omega
        rw [hzero] at hd hrest
        have hnil : rest = .nil := by
          rw [readChildren_done g kind (by rw [List.length_drop]; omega)] at hrest
          exact (Option.some.inj hrest).symm
        have hle := hg [] d ⟨true, rfl⟩ hd hdkeyed
        rw [hnil]
        show d.weight + 0 ≤ _
        exact Nat.le_trans hle (Nat.le_add_left _ _)
    · obtain rfl := Option.some.inj hread
      exact Nat.zero_le _

/-! ## Values -/

/-- The last byte that is not white space. -/
theorem last_nonspace (c : Byte) (hc : isspace c = false) (text : Bytes) :
    ∃ a x w, c :: text = a ++ x :: w ∧ isspace x = false ∧ Spaces w := by
  induction text using List.reverseRecOn with
  | nil => exact ⟨[], c, [], rfl, hc, spaces_nil⟩
  | append_singleton text d ih =>
    cases hd : isspace d with
    | false => exact ⟨c :: text, d, [], rfl, hd, spaces_nil⟩
    | true =>
      obtain ⟨a, x, w, heq, hx, hw⟩ := ih
      refine ⟨a, x, w ++ [d], ?_, hx, fun e he => ?_⟩
      · rw [← List.cons_append, heq, List.append_assoc]
        rfl
      · rcases List.mem_append.mp he with he | he
        · exact hw e he
        · obtain rfl := List.mem_singleton.mp he
          exact hd

theorem strFromBuffer_marks {buffer s : Bytes} (h : strFromBuffer buffer = some s) :
    marks s ≤ marks buffer := by
  unfold strFromBuffer at h
  cases hopen : buffer.dropWhile (· ≠ QUOTE) with
  | nil =>
    rw [hopen] at h
    exact absurd h (by simp)
  | cons q start =>
    rw [hopen] at h
    dsimp only at h
    cases hlast : (start.drop 1).reverse.dropWhile (· ≠ QUOTE) with
    | nil =>
      rw [hlast] at h
      exact absurd h (by simp)
    | cons q' before =>
      rw [hlast] at h
      obtain rfl := Option.some.inj h
      have hstart : start.Sublist buffer :=
        (List.sublist_cons_self q start).trans (hopen ▸ List.dropWhile_sublist _)
      have hbefore : before.reverse.Sublist (start.drop 1) := by
        have hsub : before.Sublist (start.drop 1).reverse :=
          (List.sublist_cons_self q' before).trans (hlast ▸ List.dropWhile_sublist _)
        simpa using hsub.reverse
      have hs : (start.take 1 ++ before.reverse).Sublist start := by
        have h := (List.Sublist.refl (start.take 1)).append hbefore
        rwa [List.take_append_drop] at h
      exact (hs.trans hstart).countP_le

/-- What stands before a closing bracket. -/
theorem Neat.before_closing {kind : Kind} {a w w' : Bytes} {x : Byte} (hx : isspace x = false)
    (hw : Spaces w) (hw' : Spaces w') (h : Neat (a ++ x :: (w ++ kind.closing :: w'))) :
    Neat a ∧ isMark x = true := by
  obtain ⟨marked, hrun⟩ := h
  obtain ⟨f, hf, hrun⟩ := Shape.run_split hrun
  obtain ⟨g, hg, hrun⟩ := Shape.run_cons hrun
  rw [Shape.run_append, Shape.run_spaces g hw, Option.bind_some] at hrun
  obtain ⟨e, he, hrun⟩ := Shape.run_cons hrun
  rw [Shape.run_spaces e hw'] at hrun
  have hequote : e.quote = false := by rw [Option.some.inj hrun]
  have hclosing : kind.closing = RBRACE ∨ kind.closing = RBRACKET := by cases kind <;> decide
  have hquote : g.quote = false := by
    rw [← hequote, Shape.next_quote he, decide_eq_false (by cases kind <;> decide), Bool.xor_false]
  have hmarked : g.marked = true := by
    rw [Shape.next, if_neg (by rw [kind.closing_space]; simp)] at he
    split at he
    · exact absurd he (by simp)
    · next hno =>
      cases hm : g.marked with
      | true => rfl
      | false => exact absurd ⟨hclosing, hquote, hm⟩ hno
  have hmark : isMark x = true := by
    rw [Shape.next, if_neg (by rw [hx]; simp)] at hg
    split at hg
    · exact absurd hg (by simp)
    · rw [← hmarked, ← Option.some.inj hg]
  rw [Shape.next_mark hmark] at hg
  have hfquote : f.quote = false := by rw [← hquote, ← Option.some.inj hg]
  exact ⟨⟨f.marked, by rw [hf, ← hfquote]⟩, hmark⟩

theorem containerFromBuffer_weight {g : Bytes → Option Data} (hg : Bounded g) {kind : Kind}
    {text : Bytes} {cs : Children} (hneat : Neat (kind.opening :: text))
    (hread : containerFromBuffer g kind (kind.opening :: text) = some cs) (hkeyed : cs.Keyed kind) :
    cs.weight + 2 ≤ marks (kind.opening :: text) + 1 := by
  have hopening : isMark kind.opening = true := by cases kind <;> decide
  obtain ⟨a, x, w, hlast, hx, hw⟩ := last_nonspace kind.opening kind.opening_space text
  by_cases hclosing : x = kind.closing
  · subst hclosing
    obtain ⟨b, rfl⟩ : ∃ b, text = b ++ kind.closing :: w := by
      cases a with
      | nil =>
        have hne : kind.opening ≠ kind.closing := by cases kind <;> decide
        exact absurd (List.cons.inj hlast).1 hne
      | cons o b => exact ⟨b, (List.cons.inj hlast).2⟩
    obtain ⟨a', x, w', hlast', hx', hw'⟩ := last_nonspace kind.opening kind.opening_space b
    rw [containerFromBuffer_taken g (a := a') (b := x) (u := w') rfl (by
      rw [← List.cons_append, hlast', List.append_assoc, List.cons_append]) hx' hw' hw,
      List.tail_cons] at hread
    rw [marks_cons hopening]
    cases a' with
    | nil =>
      -- Nothing is between the brackets.
      obtain ⟨-, rfl⟩ := List.cons.inj hlast'
      rw [readChildren_done g kind (Nat.le_succ _)] at hread
      obtain rfl := Option.some.inj hread
      exact Nat.succ_le_succ (Nat.succ_le_succ (Nat.zero_le _))
    | cons o r =>
      obtain rfl : kind.opening = o := (List.cons.inj hlast').1
      obtain rfl : b = r ++ x :: w' := (List.cons.inj hlast').2
      rw [List.append_assoc, List.cons_append] at hread hneat ⊢
      obtain ⟨⟨marked, hrun⟩, hmark⟩ :=
        Neat.before_closing (a := kind.opening :: r) hx' hw' hw hneat
      rw [Shape.run, Shape.next_mark hopening] at hrun
      have hle := readChildren_weight hg hx' _ _ r cs ⟨marked, hrun⟩ hread hkeyed
      rw [marks_append, marks_cons hmark]
      omega
  · rw [containerFromBuffer_unbalanced g rfl hlast hx hclosing hw] at hread
    exact absurd hread (by simp)

/-- A tree weighs no more than the neat text it is read from. -/
theorem weight_le : ∀ depth : Nat, Bounded (getDataFrom depth) := by
  intro depth
  induction depth with
  | zero =>
    intro text d _ hd _
    exact absurd hd (by simp [getDataFrom])
  | succ depth ih =>
    intro text d hneat hd hkeyed
    have hnode : ∀ (kind : Kind) (rest : Bytes), text = kind.opening :: rest →
        d.weight ≤ marks text + 1 := by
      rintro kind rest rfl
      rw [getDataFrom_container] at hd
      obtain ⟨cs, hcs, rfl⟩ := Option.map_eq_some_iff.mp hd
      exact containerFromBuffer_weight ih hneat hcs hkeyed
    cases text with
    | nil =>
      obtain rfl := Option.some.inj hd
      exact Nat.le_refl _
    | cons c rest =>
      by_cases hbrace : c = LBRACE
      · exact hnode .dict rest (by rw [hbrace]; rfl)
      · by_cases hbracket : c = LBRACKET
        · exact hnode .array rest (by rw [hbracket]; rfl)
        · by_cases hquote : c = QUOTE
          · rw [hquote, getDataFrom_quote] at hd
            obtain ⟨s, hs, rfl⟩ := Option.map_eq_some_iff.mp hd
            rw [hquote]
            exact Nat.succ_le_succ (strFromBuffer_marks hs)
          · rw [getDataFrom_num] at hd
            · obtain ⟨n, -, rfl⟩ := Option.map_eq_some_iff.mp hd
              exact Nat.le_add_left _ _
            · intro e he
              obtain rfl := Option.some.inj he
              exact ⟨hbrace, hbracket, hquote⟩

end Nastd.Libconfig
