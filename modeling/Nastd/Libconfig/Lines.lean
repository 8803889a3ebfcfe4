import Nastd.Libconfig.Reading

/-!
# Where lines end

`getLineLenFrom:to:` looks for the semicolon behind a value by counting brackets, and it counts
those inside strings too. `Doc.opened` counts them along the tree that was written, and
`Doc.run_text` says that this is what the loop sees.
-/

namespace Nastd.Libconfig

/-! ## Bytes that say nothing -/

/-- Neither a semicolon nor a bracket nor a quote. -/
def isPlain (c : Byte) : Bool :=
  decide (c ∉ [SEMICOLON, LBRACE, RBRACE, LBRACKET, RBRACKET, QUOTE])

def Plain (text : Bytes) : Prop := ∀ c ∈ text, isPlain c = true

theorem isPlain_ne {c : Byte} (h : isPlain c = true) : c ≠ SEMICOLON ∧ c ≠ LBRACE ∧ c ≠ RBRACE ∧
    c ≠ LBRACKET ∧ c ≠ RBRACKET ∧ c ≠ QUOTE := by
  have hmem : c ∉ [SEMICOLON, LBRACE, RBRACE, LBRACKET, RBRACKET, QUOTE] := of_decide_eq_true h
  simpa using hmem

theorem isPlain_word {c : Byte} (hc : isWord c = true) : isPlain c = true := by
  have hall : [SEMICOLON, LBRACE, RBRACE, LBRACKET, RBRACKET, QUOTE].all (fun d => !isWord d)
      = true := by decide
  refine decide_eq_true fun hmem => ?_
  have hno := List.all_eq_true.mp hall c hmem
  rw [hc] at hno
  exact absurd hno (by simp)

theorem isPlain_space {c : Byte} (hc : isspace c = true) : isPlain c = true := by
  have hall : [SEMICOLON, LBRACE, RBRACE, LBRACKET, RBRACKET, QUOTE].all (fun d => !isspace d)
      = true := by decide
  refine decide_eq_true fun hmem => ?_
  have hno := List.all_eq_true.mp hall c hmem
  rw [hc] at hno
  exact absurd hno (by simp)

theorem Spaces.plain {w : Bytes} (hw : Spaces w) : Plain w := fun c hc => isPlain_space (hw c hc)

theorem Plain.cons {c : Byte} {text : Bytes} (hc : isPlain c = true) (h : Plain text) :
    Plain (c :: text) := by
  intro d hd
  rcases List.mem_cons.mp hd with rfl | hd
  · exact hc
  · exact h d hd

theorem Plain.append {a b : Bytes} (ha : Plain a) (hb : Plain b) : Plain (a ++ b) := by
  intro c hc
  rcases List.mem_append.mp hc with hc | hc
  · exact ha c hc
  · exact hb c hc

theorem Lead.plain {kind : Kind} {lead : Lead} (h : lead.Ok kind) : Plain (lead.text kind) := by
  cases kind with
  | array => exact h.1.plain
  | dict =>
    obtain ⟨hbefore, hkey, hbehind, hgap⟩ := h
    have hwords : Plain lead.key := fun c hc => isPlain_word (hkey.words c hc)
    have hequals : Plain (EQUALS :: lead.gap) := hgap.plain.cons (by decide)
    exact hbefore.plain.append (hwords.append (hbehind.plain.append hequals))

theorem decimal_plain (n : Int) : Plain (decimal n) := by
  have hdigits : Plain (digits n.natAbs) := by
    intro c hc
    apply isPlain_word
    unfold isWord
    rw [(digits_spec n.natAbs).1 c hc, Bool.or_true]
  unfold decimal
  split
  · exact hdigits.cons (by decide)
  · exact hdigits

/-! ## Line lengths -/

/-- The counts behind a text; `none` if one of its semicolons ends the line. -/
def Scan.run : Scan → Bytes → Option Scan
  | s, [] => some s
  | s, c :: rest => if s = .start ∧ c = SEMICOLON then none else (s.next c).run rest

theorem Scan.run_append (b : Bytes) : ∀ (s : Scan) (a : Bytes),
    s.run (a ++ b) = (s.run a).bind fun r => r.run b
  | _, [] => rfl
  | s, c :: a => by
    rw [List.cons_append, Scan.run, Scan.run]
    split
    · rfl
    · exact Scan.run_append b (s.next c) a

theorem lineLen_append (b : Bytes) : ∀ {s r : Scan} (a : Bytes), s.run a = some r →
    lineLen s (a ++ b) = a.length + lineLen r b
  | _, _, [], h => by
    obtain rfl := Option.some.inj h
    exact (Nat.zero_add _).symm
  | s, r, c :: a, h => by
    rw [Scan.run] at h
    split at h
    · exact absurd h (by simp)
    · next hc =>
      rw [List.cons_append, lineLen, if_neg hc, lineLen_append b a h, List.length_cons]
      omega

/-- The line is the whole text, or a semicolon ends it. -/
theorem lineLen_cases : ∀ (s : Scan) (text : Bytes),
    (∃ r, s.run text = some r ∧ lineLen s text = text.length) ∨
      ∃ a b, text = a ++ SEMICOLON :: b ∧ s.run a = some .start ∧ lineLen s text = a.length
  | s, [] => Or.inl ⟨s, rfl, rfl⟩
  | s, c :: rest => by
    by_cases hc : s = .start ∧ c = SEMICOLON
    · obtain ⟨rfl, rfl⟩ := hc
      exact Or.inr ⟨[], rest, rfl, rfl, if_pos ⟨rfl, rfl⟩⟩
    · have hlen : lineLen s (c :: rest) = lineLen (s.next c) rest + 1 := if_neg hc
      have hrun : ∀ a, s.run (c :: a) = (s.next c).run a := fun a => if_neg hc
      rcases lineLen_cases (s.next c) rest with ⟨r, hr, hline⟩ | ⟨a, b, rfl, ha, hline⟩
      · exact Or.inl ⟨r, (hrun rest).trans hr, by rw [hlen, hline, List.length_cons]⟩
      · exact Or.inr ⟨c :: a, b, rfl, (hrun a).trans ha, by rw [hlen, hline, List.length_cons]⟩

theorem lineLen_le (s : Scan) (text : Bytes) : lineLen s text ≤ text.length := by
  rcases lineLen_cases s text with ⟨r, -, h⟩ | ⟨a, b, rfl, -, h⟩
  · exact Nat.le_of_eq h
  · rw [h, List.length_append]
    exact Nat.le_add_right _ _

/-- The loops go on behind the semicolon. -/
theorem drop_line (a : Bytes) (c : Byte) (b : Bytes) : (a ++ c :: b).drop (a.length + 1) = b := by
  rw [List.drop_length_add_append]
  rfl

/-! ## Open brackets -/

/-- The braces and the brackets that are open, as they are counted: one that closes nothing does
not count. -/
def bracket (n : Nat × Nat) (c : Byte) : Nat × Nat :=
  if c = LBRACE then (n.1 + 1, n.2)
  else if c = RBRACE then (n.1 - 1, n.2)
  else if c = LBRACKET then (n.1, n.2 + 1)
  else if c = RBRACKET then (n.1, n.2 - 1)
  else n

mutual

/-- What is open behind a value with so much open before it, the brackets in strings included;
`none` if nothing is open at a semicolon in it. -/
def Doc.opened (n : Nat × Nat) : Doc → Option (Nat × Nat)
  | .num _ => some n
  | .str s => some (s.foldl bracket n)
  | .node kind entries _ =>
    (entries.opened (bracket n kind.opening)).map fun m => bracket m kind.closing

def Docs.opened (n : Nat × Nat) : Docs → Option (Nat × Nat)
  | .nil => some n
  | .cons _ value rest =>
    (value.opened n).bind fun m => if m = (0, 0) then none else rest.opened m

end

/-- The scan with so much open, inside a string or not. -/
def Scan.counts (quote : Bool) (n : Nat × Nat) : Scan := ⟨quote, n.1, n.2⟩

theorem Scan.counts_next {c : Byte} (hc : c ≠ QUOTE) (quote : Bool) (n : Nat × Nat) :
    (Scan.counts quote n).next c = .counts quote (bracket n c) := by
  unfold Scan.next bracket
  split
  · rfl
  · split
    · rfl
    · split
      · rfl
      · split
        · rfl
        · rfl

theorem Scan.counts_run {c : Byte} (hsemi : c ≠ SEMICOLON) (hquote : c ≠ QUOTE) (quote : Bool)
    (n : Nat × Nat) (rest : Bytes) :
    (Scan.counts quote n).run (c :: rest) = (Scan.counts quote (bracket n c)).run rest := by
  rw [Scan.run, if_neg fun h => hsemi h.2, Scan.counts_next hquote]

theorem Scan.run_plain {text : Bytes} (h : Plain text) (quote : Bool) (n : Nat × Nat) :
    (Scan.counts quote n).run text = some (.counts quote n) := by
  induction text with
  | nil => rfl
  | cons c text ih =>
    obtain ⟨hsemi, hlbrace, hrbrace, hlbracket, hrbracket, hquote⟩ :=
      isPlain_ne (h c List.mem_cons_self)
    have hn : bracket n c = n := by
      rw [bracket, if_neg hlbrace, if_neg hrbrace, if_neg hlbracket, if_neg hrbracket]
    rw [Scan.counts_run hsemi hquote, hn]
    exact ih fun d hd => h d (List.mem_cons_of_mem _ hd)

/-- Inside a string semicolons end no line. -/
theorem Scan.run_string : ∀ {s : Bytes}, QUOTE ∉ s → ∀ n : Nat × Nat,
    (Scan.counts true n).run s = some (.counts true (s.foldl bracket n)) := by
  intro s
  induction s with
  | nil => exact fun _ _ => rfl
  | cons c s ih =>
    intro hs n
    have hc : c ≠ QUOTE := fun h => hs (h ▸ List.mem_cons_self)
    have hstart : Scan.counts true n ≠ .start := by
      intro h
      exact absurd (congrArg Scan.quote h) (by simp [Scan.counts, Scan.start])
    rw [Scan.run, if_neg fun h => hstart h.1, Scan.counts_next hc]
    exact ih (fun h => hs (List.mem_cons_of_mem _ h)) (bracket n c)

mutual

/-- What the loop of `getLineLenFrom:to:` counts in a value. -/
theorem Doc.run_text : ∀ v : Doc, v.Ok → ∀ n : Nat × Nat,
    (Scan.counts false n).run v.text = (v.opened n).map (Scan.counts false)
  | .num n, _, _ => Scan.run_plain (decimal_plain n) _ _
  | .str s, hok, n => by
    have hopen : (Scan.counts false n).run (QUOTE :: (s ++ [QUOTE]))
        = (Scan.counts true n).run (s ++ [QUOTE]) := if_neg fun h => absurd h.2 (by decide)
    rw [Doc.text, hopen, Scan.run_append, Scan.run_string hok.2]
    rfl
  | .node kind entries trail, hok, n => by
    have hopening : kind.opening ≠ SEMICOLON ∧ kind.opening ≠ QUOTE := by cases kind <;> decide
    have hclosing : kind.closing ≠ SEMICOLON ∧ kind.closing ≠ QUOTE := by cases kind <;> decide
    rw [Doc.text, Doc.opened, Scan.counts_run hopening.1 hopening.2, Scan.run_append,
      entries.run_text kind hok.1]
    cases entries.opened (bracket n kind.opening) with
    | none => rfl
    | some m =>
      rw [Option.map_some, Option.bind_some, Scan.run_append, Scan.run_plain hok.2.plain,
        Option.bind_some, Scan.counts_run hclosing.1 hclosing.2]
      rfl

theorem Docs.run_text (kind : Kind) : ∀ es : Docs, es.Ok kind → ∀ n : Nat × Nat,
    (Scan.counts false n).run (es.text kind) = (es.opened n).map (Scan.counts false)
  | .nil, _, _ => rfl
  | .cons lead value rest, hok, n => by
    obtain ⟨hlead, hvalue, hrest⟩ := hok
    rw [Docs.text, Docs.opened, Scan.run_append, Scan.run_plain (Lead.plain hlead),
      Option.bind_some, Scan.run_append, value.run_text hvalue]
    cases value.opened n with
    | none => rfl
    | some m =>
      rw [Option.map_some, Option.bind_some, Option.bind_some, Scan.run]
      by_cases hm : m = (0, 0)
      · rw [if_pos hm, if_pos ⟨by rw [hm]; rfl, rfl⟩]
        rfl
      · have hne : ¬(Scan.counts false m = .start ∧ SEMICOLON = SEMICOLON) := by
          intro ⟨heq, _⟩
          exact hm (Prod.ext (congrArg Scan.french heq) (congrArg Scan.square heq))
        rw [if_neg hm, if_neg hne]
        exact rest.run_text kind hrest m

end

end Nastd.Libconfig
