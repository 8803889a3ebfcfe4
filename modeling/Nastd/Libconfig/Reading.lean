import Nastd.Libconfig.Numbers

/-!
# The readers on what was written

One lemma for each loop of the parser, on the text it is meant for: white space is skipped, keys
are cut out, the brackets of an array or a dictionary are taken off and strings get rid of
their quotes. Only `getLineLenFrom:to:` may go wrong, see `Libconfig.Lines`.
-/

namespace Nastd.Libconfig

/-! ## White space -/

theorem spaces_nil : Spaces [] := fun c hc => absurd hc (by simp)

theorem spaces_cons {c : Byte} {w : Bytes} (h : Spaces (c :: w)) :
    isspace c = true ∧ Spaces w :=
  ⟨h c List.mem_cons_self, fun d hd => h d (List.mem_cons_of_mem _ hd)⟩

theorem skipSpace_spaces {least : Nat} {q : Bytes} (hleast : least ≤ q.length + 1) :
    ∀ {w : Bytes}, Spaces w → skipSpace least (w ++ q) = skipSpace least q := by
  intro w
  induction w with
  | nil => exact fun _ => rfl
  | cons c w ih =>
    intro hw
    obtain ⟨hc, hw⟩ := spaces_cons hw
    rw [List.cons_append, skipSpace, if_pos ⟨by rw [List.length_append]; omega, hc⟩, ih hw]

theorem skipSpace_head {c : Byte} (hc : isspace c = false) (least : Nat) (p : Bytes) :
    skipSpace least (c :: p) = c :: p := by
  rw [skipSpace, if_neg]
  intro ⟨_, h⟩
  exact absurd (hc.symm.trans h) (by simp)

/-- `len` behind white space. -/
theorem trimEnd_eq {a w : Bytes} (tail : Bytes) {x : Byte} {k : Nat} (hx : isspace x = false)
    (hw : Spaces w) (hk : k = tail.length + 1) :
    trimEnd (a ++ x :: (w ++ tail)) k = k + w.length := by
  have htake : (a ++ x :: (w ++ tail)).take ((a ++ x :: (w ++ tail)).length + 1 - k)
      = a ++ x :: w := by
    rw [← List.cons_append, ← List.append_assoc]
    apply List.take_left'
    simp only [List.length_append, List.length_cons]
    omega
  have hwhile : (a ++ x :: w).reverse.takeWhile isspace = w.reverse := by
    have hrev : (a ++ x :: w).reverse = w.reverse ++ x :: a.reverse := by simp
    rw [hrev, List.takeWhile_append_of_pos fun c hc => hw c (List.mem_reverse.mp hc),
      List.takeWhile_cons, hx]
    exact List.append_nil _
  unfold trimEnd
  rw [htake, hwhile, List.length_reverse]

theorem dropWhile_head {c : Byte} (hc : isspace c = false) (p : Bytes) :
    (c :: p).dropWhile isspace = c :: p := by
  rw [List.dropWhile_cons, hc]
  rfl

/-! ## Keys -/

theorem trimKey_eq {key behind : Bytes} (hkey : key ≠ []) (hwords : ∀ c ∈ key, isWord c = true)
    (hbehind : Spaces behind) : trimKey (key ++ behind) = key := by
  cases key with
  | nil => exact absurd rfl hkey
  | cons c key =>
    have hdrop : (key ++ behind).reverse.dropWhile isspace = key.reverse := by
      rw [List.reverse_append,
        List.dropWhile_append_of_pos fun d hd => hbehind d (List.mem_reverse.mp hd)]
      cases hrev : key.reverse with
      | nil => rfl
      | cons d rest =>
        have hd : d ∈ key := List.mem_reverse.mp (by rw [hrev]; exact List.mem_cons_self)
        exact dropWhile_head (isspace_word (hwords d (List.mem_cons_of_mem _ hd))) rest
    show [c] ++ ((key ++ behind).reverse.dropWhile isspace).reverse = c :: key
    rw [hdrop, List.reverse_reverse]
    rfl

/-- A text is split at its first equals sign. -/
theorem split_equals {u : Bytes} (hu : EQUALS ∉ u) (p : Bytes) :
    (u ++ EQUALS :: p).takeWhile (· ≠ EQUALS) = u ∧
      (u ++ EQUALS :: p).dropWhile (· ≠ EQUALS) = EQUALS :: p := by
  have hall : ∀ c ∈ u, decide (c ≠ EQUALS) = true := fun c hc =>
    decide_eq_true fun heq => hu (heq ▸ hc)
  rw [List.takeWhile_append_of_pos hall, List.dropWhile_append_of_pos hall]
  constructor
  · rw [List.takeWhile_cons]
    simp
  · rw [List.dropWhile_cons]
    simp

/-- The key is read, and the value is next. -/
theorem readKey_lead {kind : Kind} {lead : Lead} (hok : lead.Ok kind) {stop : Nat} {c : Byte}
    {q : Bytes} (hc : isspace c = false) (hq : stop ≤ q.length + 1) :
    readKey kind stop (skipSpace stop (lead.text kind ++ c :: q)) = some (lead.key, c :: q) := by
  cases kind with
  | array =>
    obtain ⟨hbefore, hkey⟩ := hok
    show readKey .array stop (skipSpace stop (lead.before ++ c :: q)) = _
    rw [skipSpace_spaces (by rw [List.length_cons]; omega) hbefore, skipSpace_head hc, readKey,
      hkey]
  | dict =>
    obtain ⟨hbefore, hkey, hbehind, hgap⟩ := hok
    have htext : lead.text .dict ++ c :: q
        = lead.before ++ (lead.key ++ (lead.behind ++ EQUALS :: (lead.gap ++ c :: q))) := by
      unfold Lead.text
      simp only [List.append_assoc, List.cons_append]
    obtain ⟨k, rest, hk⟩ := List.exists_cons_of_ne_nil hkey.ne_nil
    have hspace : isspace k = false :=
      isspace_word (hkey.words k (by rw [hk]; exact List.mem_cons_self))
    have hequals : EQUALS ∉ lead.key ++ lead.behind := by
      intro hmem
      rcases List.mem_append.mp hmem with hmem | hmem
      · exact isWord_ne (hkey.words _ hmem) (by decide) rfl
      · exact isspace_ne (hbehind _ hmem) (by decide) rfl
    obtain ⟨htake, hdrop⟩ := split_equals hequals (lead.gap ++ c :: q)
    rw [List.append_assoc] at htake hdrop
    have hskip : skipSpace stop (lead.key ++ (lead.behind ++ EQUALS :: (lead.gap ++ c :: q)))
        = lead.key ++ (lead.behind ++ EQUALS :: (lead.gap ++ c :: q)) := by
      rw [hk, List.cons_append, skipSpace_head hspace]
    have hbound : stop
        ≤ (lead.key ++ (lead.behind ++ EQUALS :: (lead.gap ++ c :: q))).length + 1 := by
      simp only [List.length_append, List.length_cons]
      omega
    rw [htext, skipSpace_spaces hbound hbefore, hskip, readKey, hdrop]
    show some (trimKey _, skipSpace (stop + 1) (lead.gap ++ c :: q)) = _
    rw [htake, trimKey_eq hkey.ne_nil hkey.words hbehind,
      skipSpace_spaces (by rw [List.length_cons]; omega) hgap, skipSpace_head hc]

/-! ## Strings -/

/-- A string loses its quotes; an empty one is refused. -/
theorem strFromBuffer_quoted {s : Bytes} (hs : QUOTE ∉ s) :
    strFromBuffer (QUOTE :: (s ++ [QUOTE])) = if s = [] then none else some s := by
  have hopen : (QUOTE :: (s ++ [QUOTE])).dropWhile (· ≠ QUOTE) = QUOTE :: (s ++ [QUOTE]) := by
    rw [List.dropWhile_cons]
    simp
  unfold strFromBuffer
  rw [hopen]
  cases s with
  | nil => rfl
  | cons c s =>
    rw [if_neg (List.cons_ne_nil c s)]
    have hrev : ((c :: s ++ [QUOTE]).drop 1).reverse = QUOTE :: s.reverse := by simp
    have hlast : (QUOTE :: s.reverse).dropWhile (· ≠ QUOTE) = QUOTE :: s.reverse := by
      rw [List.dropWhile_cons]
      simp
    dsimp only
    rw [hrev, hlast]
    dsimp only
    rw [List.reverse_reverse]
    rfl

/-! ## Texts -/

theorem decimal_head (n : Int) : ∃ c rest, decimal n = c :: rest ∧ isspace c = false ∧
    c ≠ LBRACE ∧ c ≠ LBRACKET ∧ c ≠ QUOTE := by
  unfold decimal
  split
  · exact ⟨_, _, rfl, by decide, by decide, by decide, by decide⟩
  · obtain ⟨c, rest, hds, hc⟩ := digits_head n.natAbs
    have hword : isWord c = true := by
      unfold isWord
      rw [hc, Bool.or_true]
    exact ⟨c, rest, hds, isspace_word hword, isWord_ne hword (by decide),
      isWord_ne hword (by decide), isWord_ne hword (by decide)⟩

/-- A value begins with no white space. -/
theorem Doc.text_head (v : Doc) : ∃ c rest, v.text = c :: rest ∧ isspace c = false := by
  cases v with
  | num n =>
    obtain ⟨c, rest, htext, hc, -⟩ := decimal_head n
    exact ⟨c, rest, htext, hc⟩
  | str s => exact ⟨_, _, rfl, by decide⟩
  | node kind entries trail =>
    refine ⟨_, _, rfl, ?_⟩
    cases kind with
    | array => decide
    | dict => decide

theorem Docs.text_last (kind : Kind) :
    ∀ (es : Docs), es = .nil ∨ ∃ body, es.text kind = body ++ [SEMICOLON]
  | .nil => Or.inl rfl
  | .cons lead value rest => by
    apply Or.inr
    rcases rest.text_last kind with rfl | ⟨body, hbody⟩
    · exact ⟨lead.text kind ++ value.text, by simp [Docs.text]⟩
    · refine ⟨lead.text kind ++ (value.text ++ SEMICOLON :: body), ?_⟩
      rw [Docs.text, hbody]
      simp

end Nastd.Libconfig
