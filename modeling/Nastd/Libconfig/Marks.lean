import Nastd.Libconfig.RoundTrip

/-!
# What a text weighs

Semicolons and opening brackets are marks. A tree needs so many of them to be written, its
`weight`, and a text has so many of them. `Neat` texts have their closing brackets behind marks,
as what is written has (`Docs.shape`); no part of a text loses this where a line ends.
-/

namespace Nastd.Libconfig

/-- A semicolon or an opening bracket. -/
def isMark (c : Byte) : Bool := decide (c = SEMICOLON ∨ c = LBRACE ∨ c = LBRACKET)

def marks (text : Bytes) : Nat := text.countP isMark

mutual

/-- The marks of a value, and the semicolon behind it. -/
def Data.weight : Data → Nat
  | .num _ => 1
  | .str s => marks s + 1
  | .node _ children => children.weight + 2

def Children.weight : Children → Nat
  | .nil => 0
  | .cons _ value rest => value.weight + rest.weight

end

/-! ## Shapes -/

/-- What the text so far ends in: in a string or not; and whether the last byte but for white
space was a mark. -/
structure Shape where
  quote : Bool
  marked : Bool
  deriving DecidableEq, Repr

def Shape.start : Shape := ⟨false, true⟩

/-- A closing bracket outside a string needs a mark before it. -/
def Shape.next (f : Shape) (c : Byte) : Option Shape :=
  if isspace c = true then some f
  else if (c = RBRACE ∨ c = RBRACKET) ∧ f.quote = false ∧ f.marked = false then none
  else some ⟨f.quote ^^ decide (c = QUOTE), isMark c⟩

def Shape.run : Shape → Bytes → Option Shape
  | f, [] => some f
  | f, c :: rest => (f.next c).bind fun g => g.run rest

/-- Closing brackets stand behind marks, and no string is open at the end. -/
def Neat (text : Bytes) : Prop := ∃ marked, Shape.start.run text = some ⟨false, marked⟩

theorem Shape.run_append (b : Bytes) : ∀ (f : Shape) (a : Bytes),
    f.run (a ++ b) = (f.run a).bind fun g => g.run b
  | _, [] => rfl
  | f, c :: a => by
    rw [List.cons_append, Shape.run, Shape.run]
    cases f.next c with
    | none => rfl
    | some g => exact Shape.run_append b g a

theorem Shape.run_split {f h : Shape} {a b : Bytes} (hrun : f.run (a ++ b) = some h) :
    ∃ g, f.run a = some g ∧ g.run b = some h := by
  rw [Shape.run_append] at hrun
  exact Option.bind_eq_some_iff.mp hrun

theorem Shape.run_cons {f h : Shape} {c : Byte} {rest : Bytes}
    (hrun : f.run (c :: rest) = some h) : ∃ g, f.next c = some g ∧ g.run rest = some h :=
  Option.bind_eq_some_iff.mp hrun

theorem Shape.next_mark {c : Byte} (hc : isMark c = true) (f : Shape) :
    f.next c = some ⟨f.quote, true⟩ := by
  have hall : ∀ q m, Shape.next ⟨q, m⟩ SEMICOLON = some ⟨q, true⟩ ∧
      Shape.next ⟨q, m⟩ LBRACE = some ⟨q, true⟩ ∧ Shape.next ⟨q, m⟩ LBRACKET = some ⟨q, true⟩ := by
    decide
  obtain ⟨hsemi, hbrace, hbracket⟩ := hall f.quote f.marked
  have hcases : c = SEMICOLON ∨ c = LBRACE ∨ c = LBRACKET := of_decide_eq_true hc
  rcases hcases with rfl | rfl | rfl
  · exact hsemi
  · exact hbrace
  · exact hbracket

/-- More marks do no harm. -/
theorem Shape.run_mono : ∀ (text : Bytes) {q m m' : Bool} {h : Shape}, (m = true → m' = true) →
    Shape.run ⟨q, m⟩ text = some h → ∃ marked, Shape.run ⟨q, m'⟩ text = some ⟨h.quote, marked⟩
  | [], q, m, m', h, _, hrun => by
    obtain rfl := Option.some.inj hrun
    exact ⟨m', rfl⟩
  | c :: text, q, m, m', h, hm, hrun => by
    obtain ⟨g, hg, hrest⟩ := Shape.run_cons hrun
    unfold Shape.next at hg
    rw [Shape.run, Shape.next]
    split at hg
    · next hc =>
      obtain rfl := Option.some.inj hg
      rw [if_pos hc]
      exact Shape.run_mono text hm hrest
    · next hc =>
      split at hg
      · exact absurd hg (by simp)
      · next hclose =>
        obtain rfl := Option.some.inj hg
        have hclose' : ¬((c = RBRACE ∨ c = RBRACKET) ∧ q = false ∧ m' = false) := by
          intro ⟨hb, hq, hm'⟩
          refine hclose ⟨hb, hq, ?_⟩
          cases m with
          | false => rfl
          | true => exact absurd (hm rfl) (by rw [hm']; simp)
        rw [if_neg hc, if_neg hclose']
        exact Shape.run_mono text id hrest

theorem Shape.run_spaces (f : Shape) : ∀ {w : Bytes}, Spaces w → f.run w = some f := by
  intro w
  induction w with
  | nil => exact fun _ => rfl
  | cons c w ih =>
    intro hw
    obtain ⟨hc, hw⟩ := spaces_cons hw
    rw [Shape.run, Shape.next, if_pos hc]
    exact ih hw

theorem Shape.next_quote {f h : Shape} {c : Byte} (hnext : f.next c = some h) :
    h.quote = (f.quote ^^ decide (c = QUOTE)) := by
  unfold Shape.next at hnext
  split at hnext
  · next hc =>
    obtain rfl := Option.some.inj hnext
    rw [decide_eq_false (isspace_ne hc (by decide)), Bool.xor_false]
  · split at hnext
    · exact absurd hnext (by simp)
    · obtain rfl := Option.some.inj hnext
      rfl

theorem Scan.next_quote (s : Scan) (c : Byte) :
    (s.next c).quote = (s.quote ^^ decide (c = QUOTE)) := by
  have hbracket : ∀ b : Byte, b ≠ QUOTE → c = b → s.quote = (s.quote ^^ decide (c = QUOTE)) := by
    rintro b hb rfl
    rw [decide_eq_false hb, Bool.xor_false]
  unfold Scan.next
  split
  · exact hbracket LBRACE (by decide) ‹_›
  · split
    · exact hbracket RBRACE (by decide) ‹_›
    · split
      · exact hbracket LBRACKET (by decide) ‹_›
      · split
        · exact hbracket RBRACKET (by decide) ‹_›
        · split
          · next hc => rw [decide_eq_true hc, Bool.xor_true]
          · next hc => rw [decide_eq_false hc, Bool.xor_false]

/-- The quotes are those that `getLineLenFrom:to:` counts. -/
theorem Shape.run_quote : ∀ (text : Bytes) {f h : Shape} {s r : Scan}, f.run text = some h →
    s.run text = some r → f.quote = s.quote → h.quote = r.quote
  | [], _, _, _, _, hf, hs, hq => by
    obtain rfl := Option.some.inj hf
    obtain rfl := Option.some.inj hs
    exact hq
  | c :: text, f, h, s, r, hf, hs, hq => by
    obtain ⟨g, hg, hrest⟩ := Shape.run_cons hf
    rw [Scan.run] at hs
    split at hs
    · exact absurd hs (by simp)
    · refine Shape.run_quote text (s := s.next c) hrest hs ?_
      rw [Shape.next_quote hg, Scan.next_quote, hq]

/-! ## Plain bytes -/

theorem Plain.marks {text : Bytes} (h : Plain text) : marks text = 0 := by
  refine List.countP_eq_zero.mpr fun c hc hmark => ?_
  obtain ⟨hsemi, hlbrace, -, hlbracket, -, -⟩ := isPlain_ne (h c hc)
  rcases of_decide_eq_true hmark with hsemi' | hlbrace' | hlbracket'
  · exact hsemi hsemi'
  · exact hlbrace hlbrace'
  · exact hlbracket hlbracket'

theorem Plain.run : ∀ {text : Bytes}, Plain text → ∀ f : Shape,
    ∃ marked, f.run text = some ⟨f.quote, marked⟩ := by
  intro text
  induction text with
  | nil => exact fun _ f => ⟨f.marked, rfl⟩
  | cons c text ih =>
    intro h f
    obtain ⟨-, -, hbrace, -, hbracket, hquote⟩ := isPlain_ne (h c List.mem_cons_self)
    have htext : Plain text := fun d hd => h d (List.mem_cons_of_mem _ hd)
    rw [Shape.run, Shape.next]
    split
    · exact ih htext f
    · rw [if_neg (by rintro ⟨hclose | hclose, -⟩; exacts [hbrace hclose, hbracket hclose])]
      obtain ⟨m, hm⟩ := ih htext ⟨f.quote ^^ decide (c = QUOTE), isMark c⟩
      refine ⟨m, hm.trans ?_⟩
      simp [hquote]

/-! ## Neat texts -/

theorem Neat.drop_plain {pre text : Bytes} (hpre : Plain pre) (h : Neat (pre ++ text)) :
    Neat text := by
  obtain ⟨marked, hrun⟩ := h
  obtain ⟨g, hg, htext⟩ := Shape.run_split hrun
  obtain ⟨m, hm⟩ := hpre.run .start
  obtain rfl := Option.some.inj (hm.symm.trans hg)
  exact Shape.run_mono text (fun _ => rfl) htext

/-- A text that is cut where a line ends. -/
theorem Neat.cut {a b : Bytes} (h : Neat (a ++ SEMICOLON :: b))
    (ha : Scan.start.run a = some .start) :
    Neat a ∧ Neat b := by
  obtain ⟨marked, hrun⟩ := h
  obtain ⟨f, hf, hrest⟩ := Shape.run_split hrun
  have hquote : f.quote = false := Shape.run_quote a hf ha rfl
  obtain ⟨g, hg, hb⟩ := Shape.run_cons hrest
  rw [Shape.next_mark (by decide), hquote] at hg
  obtain rfl := Option.some.inj hg
  exact ⟨⟨f.marked, by rw [hf, ← hquote]⟩, marked, hb⟩

/-! ## What is written -/

theorem marks_append (a b : Bytes) : marks (a ++ b) = marks a + marks b := List.countP_append

theorem marks_cons {c : Byte} (hc : isMark c = true) (text : Bytes) :
    marks (c :: text) = marks text + 1 := List.countP_cons_of_pos hc

mutual

theorem Doc.weight : ∀ v : Doc, v.Ok → v.data.weight = marks v.text + 1
  | .num n, _ => by
    rw [Doc.text, (decimal_plain n).marks]
    rfl
  | .str s, _ => by
    have hquote : marks [QUOTE] = 0 := by decide
    show marks s + 1 = marks ([QUOTE] ++ (s ++ [QUOTE])) + 1
    rw [marks_append, marks_append, hquote, Nat.zero_add, Nat.add_zero]
  | .node kind entries trail, hok => by
    show entries.data.weight + 2 = marks (kind.opening :: (entries.text kind ++ _)) + 1
    have hopening : isMark kind.opening = true := by cases kind <;> decide
    have hclosing : marks [kind.closing] = 0 := by cases kind <;> decide
    rw [entries.weight kind hok.1, marks_cons hopening, marks_append, marks_append,
      hok.2.plain.marks, hclosing]

theorem Docs.weight (kind : Kind) : ∀ es : Docs, es.Ok kind →
    es.data.weight = marks (es.text kind)
  | .nil, _ => rfl
  | .cons lead value rest, hok => by
    obtain ⟨hlead, hvalue, hrest⟩ := hok
    show value.data.weight + rest.data.weight = _
    rw [Docs.text, marks_append, marks_append, (Lead.plain hlead).marks, marks_cons (by decide),
      value.weight hvalue, rest.weight kind hrest]
    omega

end

/-- A string is not left before its quote. -/
theorem Shape.run_string : ∀ {s : Bytes}, QUOTE ∉ s → ∀ f : Shape, f.quote = true →
    ∃ marked, f.run s = some ⟨true, marked⟩ := by
  intro s
  induction s with
  | nil => exact fun _ f hf => ⟨f.marked, by rw [← hf]; rfl⟩
  | cons c s ih =>
    intro hs f hf
    have hc : c ≠ QUOTE := fun h => hs (h ▸ List.mem_cons_self)
    have hrest : QUOTE ∉ s := fun h => hs (List.mem_cons_of_mem _ h)
    rw [Shape.run, Shape.next]
    split
    · exact ih hrest f hf
    · rw [if_neg (by rw [hf]; simp)]
      exact ih hrest _ (by rw [hf, decide_eq_false hc]; rfl)

mutual

theorem Doc.shape : ∀ v : Doc, v.Ok → ∀ m : Bool,
    ∃ marked, Shape.run ⟨false, m⟩ v.text = some ⟨false, marked⟩
  | .num n, _, m => (decimal_plain n).run _
  | .str s, hok, m => by
    have hquote : ∀ q m, Shape.next ⟨q, m⟩ QUOTE = some ⟨!q, false⟩ := by decide
    obtain ⟨m', hm'⟩ := Shape.run_string hok.2 ⟨true, false⟩ rfl
    refine ⟨false, ?_⟩
    rw [Doc.text, Shape.run, hquote, Option.bind_some, Shape.run_append]
    show ((Shape.run ⟨true, false⟩ s).bind fun g => g.run [QUOTE]) = _
    rw [hm', Option.bind_some, Shape.run, hquote]
    rfl
  | .node kind entries trail, hok, m => by
    have hopening : isMark kind.opening = true := by cases kind <;> decide
    have hclosing : Shape.start.next kind.closing = some ⟨false, false⟩ := by cases kind <;> rfl
    have hentries : Shape.run ⟨false, true⟩ (entries.text kind) = some .start :=
      entries.shape kind hok.1
    refine ⟨false, ?_⟩
    rw [Doc.text, Shape.run, Shape.next_mark hopening, Option.bind_some, Shape.run_append,
      hentries, Option.bind_some, Shape.run_append, Shape.run_spaces _ hok.2, Option.bind_some,
      Shape.run, hclosing]
    rfl

theorem Docs.shape (kind : Kind) : ∀ es : Docs, es.Ok kind →
    Shape.start.run (es.text kind) = some .start
  | .nil, _ => rfl
  | .cons lead value rest, hok => by
    obtain ⟨hlead, hvalue, hrest⟩ := hok
    obtain ⟨m, hm⟩ := (Lead.plain hlead).run .start
    obtain ⟨m', hm'⟩ := value.shape hvalue m
    rw [Docs.text, Shape.run_append, hm, Option.bind_some, Shape.run_append]
    show ((Shape.run ⟨false, m⟩ value.text).bind _) = _
    rw [hm', Option.bind_some, Shape.run, Shape.next_mark (by decide), Option.bind_some]
    exact rest.shape kind hrest

end

end Nastd.Libconfig
