import Nastd.Libconfig.Lines

/-!
# What was written is read

`Docs.fine` says of a configuration that the line ends where the value does, for every value in it,
and that no string is empty; then the parser gets back what was written: `accepts_of_fine`. That
it does not otherwise is in `Libconfig.Exact`.
-/

namespace Nastd.Libconfig

/-! ## The condition -/

/-- Nothing follows. -/
def Docs.isNil : Docs → Bool
  | .nil => true
  | .cons _ _ _ => false

mutual

/-- The parser finds everything in this value. -/
def Doc.fine : Doc → Bool
  | .num _ => true
  | .str s => !s.isEmpty
  | .node _ entries _ => entries.fine

/-- At every semicolon inside a value some bracket is open, and behind the value none is, unless
nothing follows: then the line ends anyway. -/
def Docs.fine : Docs → Bool
  | .nil => true
  | .cons _ value rest =>
    value.fine && (value.opened (0, 0)).any (fun n => rest.isNil || decide (n = (0, 0))) &&
      rest.fine

end

/-! ## The loop over the children -/

theorem readChildren_done (g : Bytes → Option Data) (kind : Kind) {stop : Nat} {offset : Bytes}
    (h : offset.length ≤ stop) (n : Nat) : readChildren g kind stop n offset = some .nil := by
  cases n with
  | zero => exact if_neg (by omega)
  | succ n => exact if_neg (by omega)

/-- One child: `text` is what stands between its key and the last semicolon. -/
theorem readChildren_lead (g : Bytes → Option Data) {kind : Kind} {lead : Lead}
    (hlead : lead.Ok kind) {c : Byte} (hc : isspace c = false) (n : Nat) (text tail : Bytes) :
    readChildren g kind tail.length (n + 1) (lead.text kind ++ (c :: text ++ tail)) =
      (g ((c :: text).take (getLineLenFrom (c :: text)))).bind fun d =>
        (readChildren g kind tail.length n
          ((c :: text ++ tail).drop (getLineLenFrom (c :: text) + 1))).map fun rest =>
            .cons lead.key d rest := by
  have hstop : tail.length < (lead.text kind ++ (c :: text ++ tail)).length := by
    simp only [List.length_append, List.length_cons]
    omega
  have hkey : readKey kind tail.length
      (skipSpace tail.length (lead.text kind ++ (c :: text ++ tail)))
      = some (lead.key, c :: text ++ tail) :=
    readKey_lead hlead hc (q := text ++ tail) (by rw [List.length_append]; omega)
  have hregion : (c :: text ++ tail).take ((c :: text ++ tail).length - tail.length) = c :: text :=
    List.take_left' (by rw [List.length_append]; omega)
  have hvalue : (c :: text ++ tail).take (getLineLenFrom (c :: text))
      = (c :: text).take (getLineLenFrom (c :: text)) :=
    List.take_append_of_le_length (lineLen_le _ _)
  rw [readChildren, if_pos hstop, hkey, Option.bind_some]
  dsimp only
  rw [hregion, hvalue]

/-- What stands behind a value, but for the last semicolon. -/
theorem Docs.behind (kind : Kind) (rest : Docs) : ∃ body,
    SEMICOLON :: rest.text kind = body ++ [SEMICOLON] ∧
      (rest = .nil ∧ body = [] ∨ rest.isNil = false ∧ ∃ b, body = SEMICOLON :: b) := by
  rcases rest.text_last kind with rfl | ⟨b, hb⟩
  · exact ⟨[], rfl, Or.inl ⟨rfl, rfl⟩⟩
  · refine ⟨SEMICOLON :: b, by rw [hb]; rfl, Or.inr ⟨?_, b, rfl⟩⟩
    cases rest with
    | nil => exact absurd hb (by simp [Docs.text])
    | cons lead value rest => rfl

/-- The first child of an array or a dictionary. -/
theorem readChildren_cons (g : Bytes → Option Data) {kind : Kind} {lead : Lead}
    (hlead : lead.Ok kind) (value : Doc) {rest : Docs} {body : Bytes}
    (hbody : SEMICOLON :: rest.text kind = body ++ [SEMICOLON]) (n : Nat) (tail : Bytes) :
    readChildren g kind (tail.length + 1) (n + 1) ((Docs.cons lead value rest).text kind ++ tail) =
      (g ((value.text ++ body).take (getLineLenFrom (value.text ++ body)))).bind fun d =>
        (readChildren g kind (tail.length + 1) n ((value.text ++ body ++ SEMICOLON :: tail).drop
          (getLineLenFrom (value.text ++ body) + 1))).map fun rest => .cons lead.key d rest := by
  obtain ⟨c, text, htext, hc⟩ := value.text_head
  have hes : (Docs.cons lead value rest).text kind ++ tail
      = lead.text kind ++ (value.text ++ body ++ SEMICOLON :: tail) := by
    rw [Docs.text, hbody]
    simp only [List.append_assoc, List.singleton_append]
  have hstep := readChildren_lead g hlead hc n (text ++ body) (SEMICOLON :: tail)
  rw [← List.cons_append, ← htext, ← hes] at hstep
  exact hstep

/-- What is left behind the first value. -/
theorem Docs.drop_value {kind : Kind} (value : Doc) {rest : Docs} {body : Bytes}
    (hbody : SEMICOLON :: rest.text kind = body ++ [SEMICOLON]) (tail : Bytes) :
    (value.text ++ body ++ SEMICOLON :: tail).drop (value.text.length + 1)
      = rest.text kind ++ tail := by
  have hsplit : value.text ++ body ++ SEMICOLON :: tail
      = value.text ++ SEMICOLON :: (rest.text kind ++ tail) := by
    rw [List.append_assoc, ← List.singleton_append, ← List.append_assoc body, ← hbody]
    rfl
  rw [hsplit, drop_line]

/-- There is something to read. -/
theorem Docs.text_pos (kind : Kind) (lead : Lead) (value : Doc) (rest : Docs) :
    1 < ((Docs.cons lead value rest).text kind).length := by
  obtain ⟨c, text, htext, -⟩ := value.text_head
  rw [Docs.text, htext]
  simp only [List.length_append, List.length_cons]
  omega

/-! ## Brackets -/

theorem Kind.opening_space (kind : Kind) : isspace kind.opening = false := by
  cases kind <;> decide

theorem Kind.closing_space (kind : Kind) : isspace kind.closing = false := by
  cases kind <;> decide

theorem dropWhile_opening {kind : Kind} {text : Bytes} (hhead : text.head? = some kind.opening) :
    text.dropWhile isspace = text := by
  obtain ⟨rest, rfl⟩ := List.head?_eq_some_iff.mp hhead
  exact dropWhile_head kind.opening_space rest

/-- Where the last byte, but for white space, is `x`. -/
theorem trimEnd_last {a w : Bytes} {x : Byte} (hx : isspace x = false) (hw : Spaces w) :
    trimEnd (a ++ x :: w) 1 = w.length + 1 ∧
      ((a ++ x :: w).drop ((a ++ x :: w).length - (w.length + 1))).head? = some x := by
  constructor
  · have h := trimEnd_eq (a := a) (k := 1) [] hx hw rfl
    rw [List.append_nil] at h
    rw [h, Nat.add_comm]
  · rw [List.drop_left' (by rw [List.length_append, List.length_cons]; omega)]
    rfl

/-- An opening bracket at the beginning wants its closing one at the end. -/
theorem containerFromBuffer_unbalanced (g : Bytes → Option Data) {kind : Kind} {text a w : Bytes}
    {x : Byte} (hhead : text.head? = some kind.opening) (heq : text = a ++ x :: w)
    (hx : isspace x = false) (hne : x ≠ kind.closing) (hw : Spaces w) :
    containerFromBuffer g kind text = none := by
  obtain ⟨hk, hlast⟩ := trimEnd_last (a := a) hx hw
  rw [← heq] at hk hlast
  unfold containerFromBuffer
  rw [dropWhile_opening hhead]
  dsimp only
  rw [hk, hlast, if_pos hhead, if_neg fun h => hne (Option.some.inj h)]

/-- Both are taken off, and the loop stops in front of the last byte before them that is no white
space. -/
theorem containerFromBuffer_taken (g : Bytes → Option Data) {kind : Kind} {text a u w : Bytes}
    {b : Byte} (hhead : text.head? = some kind.opening)
    (heq : text = a ++ b :: (u ++ kind.closing :: w)) (hb : isspace b = false) (hu : Spaces u)
    (hw : Spaces w) :
    containerFromBuffer g kind text =
      readChildren g kind ((u ++ kind.closing :: w).length + 1) text.length text.tail := by
  have hsplit : text = (a ++ b :: u) ++ kind.closing :: w := by
    rw [heq, List.append_assoc, List.cons_append]
  obtain ⟨hk, hlast⟩ := trimEnd_last (a := a ++ b :: u) kind.closing_space hw
  rw [← hsplit] at hk hlast
  have hstop := trimEnd_eq (a := a) (kind.closing :: w) hb hu rfl
  rw [← heq, List.length_cons] at hstop
  unfold containerFromBuffer
  rw [dropWhile_opening hhead]
  dsimp only
  rw [hk, hlast, if_pos hhead, if_pos rfl, hstop]
  congr 1
  rw [List.length_append, List.length_cons]
  omega

/-- The brackets and the white space before the closing one are taken off. -/
theorem containerFromBuffer_brackets (g : Bytes → Option Data) {kind : Kind} (entries : Docs)
    {trail : Bytes} (htrail : Spaces trail) :
    containerFromBuffer g kind
        (kind.opening :: (entries.text kind ++ (trail ++ [kind.closing]))) =
      readChildren g kind ((trail ++ [kind.closing]).length + 1)
        (kind.opening :: (entries.text kind ++ (trail ++ [kind.closing]))).length
        (entries.text kind ++ (trail ++ [kind.closing])) := by
  -- The last byte before the white space is a semicolon or the opening bracket.
  obtain ⟨a, x, heq, hx⟩ : ∃ a x, kind.opening :: entries.text kind = a ++ [x] ∧
      isspace x = false := by
    rcases entries.text_last kind with rfl | ⟨body, hbody⟩
    · exact ⟨[], kind.opening, rfl, kind.opening_space⟩
    · exact ⟨kind.opening :: body, SEMICOLON, by rw [hbody]; rfl, by decide⟩
  refine containerFromBuffer_taken g (a := a) (b := x) rfl ?_ hx htrail spaces_nil
  rw [← List.cons_append, heq, List.append_assoc]
  rfl

/-! ## Reading values -/

theorem getDataFrom_container (depth : Nat) (kind : Kind) (text : Bytes) :
    getDataFrom (depth + 1) (kind.opening :: text) =
      (containerFromBuffer (getDataFrom depth) kind (kind.opening :: text)).map (.node kind) := by
  cases kind with
  | array => rfl
  | dict => rfl

theorem getDataFrom_quote (depth : Nat) (text : Bytes) :
    getDataFrom (depth + 1) (QUOTE :: text) = (strFromBuffer (QUOTE :: text)).map .str := rfl

theorem getDataFrom_num (depth : Nat) {text : Bytes}
    (h : ∀ c, text.head? = some c → c ≠ LBRACE ∧ c ≠ LBRACKET ∧ c ≠ QUOTE) :
    getDataFrom (depth + 1) text = (numFromBuffer text).map .num := by
  rw [getDataFrom, if_neg fun hc => (h _ hc).1 rfl, if_neg fun hc => (h _ hc).2.1 rfl,
    if_neg fun hc => (h _ hc).2.2 rfl]

theorem getDataFrom_decimal (depth : Nat) {n : Int} (hn : LONG_MIN ≤ n ∧ n ≤ LONG_MAX) :
    getDataFrom (depth + 1) (decimal n) = some (.num n) := by
  obtain ⟨c, rest, htext, -, hhead⟩ := decimal_head n
  rw [getDataFrom_num depth fun d hd => ?_, numFromBuffer_decimal hn.1 hn.2]
  · rfl
  · rw [htext] at hd
    obtain rfl := Option.some.inj hd
    exact hhead

theorem getDataFrom_str (depth : Nat) {s : Bytes} (hs : QUOTE ∉ s) :
    getDataFrom (depth + 1) (QUOTE :: (s ++ [QUOTE]))
      = if s = [] then none else some (.str s) := by
  rw [getDataFrom_quote, strFromBuffer_quoted hs]
  split
  · rfl
  · rfl

theorem getDataFrom_node (depth : Nat) (kind : Kind) (entries : Docs) {trail : Bytes}
    (htrail : Spaces trail) :
    getDataFrom (depth + 1) (Doc.node kind entries trail).text =
      (readChildren (getDataFrom depth) kind ((trail ++ [kind.closing]).length + 1)
        (Doc.node kind entries trail).text.length
        (entries.text kind ++ (trail ++ [kind.closing]))).map (.node kind) :=
  (getDataFrom_container depth kind _).trans
    (congrArg _ (containerFromBuffer_brackets (getDataFrom depth) entries htrail))

mutual

/-- A value is read back, from some depth of nesting on. -/
theorem Doc.read : ∀ v : Doc, v.Ok → v.fine = true →
    ∃ least, ∀ depth, least ≤ depth → getDataFrom depth v.text = some v.data
  | .num n, hok, _ => by
    refine ⟨1, fun depth hdepth => ?_⟩
    obtain ⟨depth, rfl⟩ := Nat.exists_eq_add_of_le' hdepth
    exact getDataFrom_decimal depth hok
  | .str s, hok, hfine => by
    refine ⟨1, fun depth hdepth => ?_⟩
    obtain ⟨depth, rfl⟩ := Nat.exists_eq_add_of_le' hdepth
    have hne : s ≠ [] := by
      rintro rfl
      exact absurd hfine (by decide)
    exact (getDataFrom_str depth hok.2).trans (if_neg hne)
  | .node kind entries trail, hok, hfine => by
    obtain ⟨least, hread⟩ := entries.read kind hok.1 hfine
    refine ⟨least + 1, fun depth hdepth => ?_⟩
    obtain ⟨depth, rfl⟩ := Nat.exists_eq_add_of_le' hdepth
    have hlen : (entries.text kind).length ≤ (Doc.node kind entries trail).text.length := by
      rw [Doc.text, List.length_cons, List.length_append]
      omega
    show getDataFrom (depth + least + 1) (Doc.node kind entries trail).text = _
    rw [getDataFrom_node _ kind entries hok.2,
      hread (depth + least) (Nat.le_add_left _ _) (trail ++ [kind.closing]) _ hlen]
    rfl

/-- So are the children of an array or a dictionary. -/
theorem Docs.read (kind : Kind) : ∀ es : Docs, es.Ok kind → es.fine = true →
    ∃ least, ∀ depth, least ≤ depth → ∀ (tail : Bytes) (n : Nat), (es.text kind).length ≤ n →
      readChildren (getDataFrom depth) kind (tail.length + 1) n (es.text kind ++ tail)
        = some es.data
  | .nil, _, _ => ⟨0, fun _ _ _ n _ => readChildren_done _ kind (Nat.le_succ _) n⟩
  | .cons lead value rest, hok, hfine => by
    obtain ⟨hlead, hvalue, hrest⟩ := hok
    simp only [Docs.fine, Bool.and_eq_true] at hfine
    obtain ⟨⟨hfvalue, hopened⟩, hfrest⟩ := hfine
    obtain ⟨m, hm, hend⟩ := (Option.any_eq_true _ _).mp hopened
    obtain ⟨least, hread⟩ := value.read hvalue hfvalue
    obtain ⟨least', hread'⟩ := rest.read kind hrest hfrest
    refine ⟨max least least', fun depth hdepth tail n hn => ?_⟩
    obtain ⟨body, hbody, hlast⟩ := rest.behind kind
    -- The line that is found is the value.
    have hline : getLineLenFrom (value.text ++ body) = value.text.length := by
      have hrun : Scan.start.run value.text = some (.counts false m) := by
        have h := value.run_text hvalue (0, 0)
        rwa [hm] at h
      unfold getLineLenFrom
      rw [lineLen_append _ _ hrun]
      rcases hlast with ⟨-, rfl⟩ | ⟨hnil, b, rfl⟩
      · rfl
      · rw [hnil, Bool.false_or] at hend
        obtain rfl := of_decide_eq_true hend
        rw [lineLen, if_pos ⟨rfl, rfl⟩, Nat.add_zero]
    have hpos := Docs.text_pos kind lead value rest
    obtain ⟨n, rfl⟩ : ∃ m, n = m + 1 := Nat.exists_eq_add_one.mpr (by omega)
    have hlen : (rest.text kind).length ≤ n := by
      rw [Docs.text] at hn
      simp only [List.length_append, List.length_cons] at hn
      omega
    rw [readChildren_cons _ hlead value hbody, hline, List.take_left,
      hread depth (Nat.le_trans (Nat.le_max_left _ _) hdepth), Option.bind_some,
      Docs.drop_value value hbody,
      hread' depth (Nat.le_trans (Nat.le_max_right _ _) hdepth) tail n hlen]
    rfl

end

/-! ## The whole file -/

/-- Without the white space that it begins with. -/
def Docs.strip : Docs → Docs
  | .nil => .nil
  | .cons lead value rest => .cons { lead with before := [] } value rest

theorem Docs.strip_ok {es : Docs} (h : es.Ok .dict) : es.strip.Ok .dict := by
  cases es with
  | nil => exact trivial
  | cons lead value rest => exact ⟨⟨spaces_nil, h.1.2⟩, h.2⟩

theorem Docs.strip_fine (es : Docs) : es.strip.fine = es.fine := by
  cases es with
  | nil => rfl
  | cons lead value rest => rfl

theorem Docs.strip_data (es : Docs) : es.strip.data = es.data := by
  cases es with
  | nil => rfl
  | cons lead value rest => rfl

/-- White space at both ends of the file is skipped, and the loop stops in front of the last byte
that is none. -/
theorem dictFromBuffer_open (g : Bytes → Option Data) {text before q a w : Bytes} {c b : Byte}
    (hbefore : Spaces before) (hc : isWord c = true) (hfirst : text = before ++ c :: q)
    (hb : isspace b = false) (hw : Spaces w) (hlast : text = a ++ b :: w) :
    dictFromBuffer g text = readChildren g .dict (w.length + 1) text.length (c :: q) := by
  have hskip : text.dropWhile isspace = c :: q := by
    rw [hfirst, List.dropWhile_append_of_pos hbefore, dropWhile_head (isspace_word hc)]
  have hbrace : (c :: q).head? ≠ some Kind.dict.opening := fun h =>
    isWord_ne hc (by decide) (Option.some.inj h)
  have htrim : trimEnd text 1 = w.length + 1 := by
    rw [hlast]
    exact (trimEnd_last hb hw).1
  unfold dictFromBuffer containerFromBuffer
  rw [hskip, htrim]
  exact if_neg hbrace

theorem dictFromBuffer_spaces (g : Bytes → Option Data) {w : Bytes} (hw : Spaces w) :
    dictFromBuffer g w = some .nil := by
  have hdrop : w.dropWhile isspace = [] := by
    have h : (w ++ []).dropWhile isspace = [] := List.dropWhile_append_of_pos hw
    rwa [List.append_nil] at h
  unfold dictFromBuffer containerFromBuffer
  rw [hdrop]
  exact readChildren_done g .dict (Nat.zero_le _) _

theorem dictFromBuffer_text (g : Bytes → Option Data) {es : Docs} (hok : es.Ok .dict)
    {w : Bytes} (hw : Spaces w) :
    dictFromBuffer g (es.text .dict ++ w) =
      readChildren g .dict (w.length + 1) (es.text .dict ++ w).length
        (es.strip.text .dict ++ w) := by
  cases es with
  | nil =>
    show dictFromBuffer g w = readChildren g .dict (w.length + 1) w.length w
    rw [dictFromBuffer_spaces g hw, readChildren_done g .dict (Nat.le_succ _)]
  | cons lead value rest =>
    obtain ⟨body, hbody⟩ := (Docs.text_last .dict (.cons lead value rest)).resolve_left
      (by simp)
    obtain ⟨⟨hbefore, hkey, -⟩, -⟩ := hok
    obtain ⟨c, key, hc⟩ := List.exists_cons_of_ne_nil hkey.ne_nil
    have hword : isWord c = true := hkey.words c (by rw [hc]; exact List.mem_cons_self)
    obtain ⟨q, hstrip⟩ : ∃ q, (Docs.cons lead value rest).strip.text .dict ++ w = c :: q :=
      ⟨_, by rw [Docs.strip, Docs.text, Lead.text, hc]; rfl⟩
    have hfirst : (Docs.cons lead value rest).text .dict ++ w = lead.before ++ (c :: q) := by
      rw [← hstrip]
      simp [Docs.text, Docs.strip, Lead.text]
    rw [hstrip]
    exact dictFromBuffer_open g (b := SEMICOLON) hbefore hword hfirst (by decide) hw
      (by rw [hbody, List.append_assoc]; rfl)

/-- A configuration that is fine is read back. -/
theorem accepts_of_fine {es : Docs} (hok : es.Ok .dict) (hfine : es.fine = true) {w : Bytes}
    (hw : Spaces w) : Accepts (es.text .dict ++ w) es.data := by
  obtain ⟨depth, hread⟩ := es.strip.read .dict (Docs.strip_ok hok) (es.strip_fine.trans hfine)
  refine ⟨depth, ?_⟩
  have hlen : (es.strip.text .dict).length ≤ (es.text .dict ++ w).length := by
    cases es with
    | nil => exact Nat.zero_le _
    | cons lead value rest =>
      simp only [Docs.strip, Docs.text, Lead.text, List.length_append, List.length_nil]
      omega
  rw [dictFromBuffer_text _ hok hw, hread depth (Nat.le_refl _) w _ hlen, es.strip_data]

/-! ## Strings without brackets -/

mutual

/-- No string is empty, and none has a bracket in it. -/
def Doc.tame : Doc → Bool
  | .num _ => true
  | .str s =>
    !s.isEmpty && s.all fun c => decide (c ∉ [LBRACE, RBRACE, LBRACKET, RBRACKET])
  | .node _ entries _ => entries.tame

def Docs.tame : Docs → Bool
  | .nil => true
  | .cons _ value rest => value.tame && rest.tame

end

theorem bracket_other {c : Byte} (hc : c ∉ [LBRACE, RBRACE, LBRACKET, RBRACKET]) (n : Nat × Nat) :
    bracket n c = n := by
  simp only [List.mem_cons, List.not_mem_nil, or_false, not_or] at hc
  obtain ⟨hlbrace, hrbrace, hlbracket, hrbracket⟩ := hc
  rw [bracket, if_neg hlbrace, if_neg hrbrace, if_neg hlbracket, if_neg hrbracket]

theorem foldl_bracket : ∀ {s : Bytes},
    (s.all fun c => decide (c ∉ [LBRACE, RBRACE, LBRACKET, RBRACKET])) = true →
    ∀ n : Nat × Nat, s.foldl bracket n = n := by
  intro s
  induction s with
  | nil => exact fun _ _ => rfl
  | cons c s ih =>
    intro h n
    obtain ⟨hc, hs⟩ := (Bool.and_eq_true _ _).mp h
    rw [List.foldl_cons, bracket_other (of_decide_eq_true hc)]
    exact ih hs n

theorem bracket_node (kind : Kind) (n : Nat × Nat) :
    bracket n kind.opening ≠ (0, 0) ∧ bracket (bracket n kind.opening) kind.closing = n := by
  cases kind with
  | array => exact ⟨fun h => absurd (congrArg Prod.snd h) (Nat.succ_ne_zero n.2), rfl⟩
  | dict => exact ⟨fun h => absurd (congrArg Prod.fst h) (Nat.succ_ne_zero n.1), rfl⟩

mutual

/-- Every bracket is closed again. -/
theorem Doc.opened_tame : ∀ v : Doc, v.tame = true → ∀ n : Nat × Nat, v.opened n = some n
  | .num _, _, _ => rfl
  | .str s, h, n => by
    exact congrArg some (foldl_bracket ((Bool.and_eq_true _ _).mp h).2 n)
  | .node kind entries _, h, n => by
    obtain ⟨hne, hclose⟩ := bracket_node kind n
    rw [Doc.opened, entries.opened_tame h _ hne, Option.map_some, hclose]

theorem Docs.opened_tame : ∀ es : Docs, es.tame = true → ∀ n : Nat × Nat, n ≠ (0, 0) →
    es.opened n = some n
  | .nil, _, _, _ => rfl
  | .cons _ value rest, h, n, hn => by
    obtain ⟨hvalue, hrest⟩ := (Bool.and_eq_true _ _).mp h
    rw [Docs.opened, value.opened_tame hvalue, Option.bind_some, if_neg hn]
    exact rest.opened_tame hrest n hn

end

mutual

theorem Doc.fine_of_tame : ∀ v : Doc, v.tame = true → v.fine = true
  | .num _, _ => rfl
  | .str _, h => ((Bool.and_eq_true _ _).mp h).1
  | .node _ entries _, h => entries.fine_of_tame h

theorem Docs.fine_of_tame : ∀ es : Docs, es.tame = true → es.fine = true
  | .nil, _ => rfl
  | .cons _ value rest, h => by
    obtain ⟨hvalue, hrest⟩ := (Bool.and_eq_true _ _).mp h
    rw [Docs.fine, value.fine_of_tame hvalue, value.opened_tame hvalue, rest.fine_of_tame hrest,
      Option.any_some, decide_eq_true rfl, Bool.or_true]
    rfl

end

/-- A configuration is read back if no string in it is empty or has a bracket. -/
theorem accepts_of_tame {es : Docs} (hok : es.Ok .dict) (htame : es.tame = true) {w : Bytes}
    (hw : Spaces w) : Accepts (es.text .dict ++ w) es.data :=
  accepts_of_fine hok (es.fine_of_tame htame) hw

end Nastd.Libconfig
