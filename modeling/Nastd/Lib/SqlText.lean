import Mathlib.Data.List.Basic

/-!
# Reading a SELECT

How a MySQL server reads `SELECT a,b FROM t WHERE k='text'`, on bytes: names that are
words without quotes, and one quoted literal. A literal ends at the first quote that is
neither doubled nor behind a backslash; a backslash stands for another byte together with
the next one, except that before `%` and `_` both are kept.

What a server takes for a name besides (no reserved word, and so on) is left open.

* `readLiteral_self`: which bytes mean themselves between two quotes.
* `readSelect_build`: a statement put together from its parts reads back as these parts if
  and only if all names are words and the literal means itself.
-/

namespace Nastd.Lib

def sqlQuote : UInt8 := 0x27

def sqlBackslash : UInt8 := 0x5c

def sqlComma : UInt8 := 0x2c

/-- What a backslash and this byte stand for. -/
def unescape (c : UInt8) : List UInt8 :=
  if c = 0x30 then [0]
  else if c = 0x62 then [8]
  else if c = 0x6e then [10]
  else if c = 0x72 then [13]
  else if c = 0x74 then [9]
  else if c = 0x5a then [26]
  else if c = 0x25 ∨ c = 0x5f then [sqlBackslash, c]
  else [c]

/-- Behind an opening quote: what the literal stands for, and what is behind its closing
quote; `none` if there is no closing quote. -/
def readLiteral : List UInt8 → Option (List UInt8 × List UInt8)
  | [] => none
  | [b] => if b = sqlQuote then some ([], []) else none
  | b :: c :: rest =>
    if b = sqlQuote then
      if c = sqlQuote then (readLiteral rest).map fun r => (sqlQuote :: r.1, r.2)
      else some ([], c :: rest)
    else if b = sqlBackslash then (readLiteral rest).map fun r => (unescape c ++ r.1, r.2)
    else (readLiteral (c :: rest)).map fun r => (b :: r.1, r.2)

/-- No quote, and no backslash but before `%` or `_`. -/
def plainLiteral : List UInt8 → Bool
  | [] => true
  | [b] => b != sqlQuote && b != sqlBackslash
  | b :: c :: rest =>
    if b = sqlQuote then false
    else if b = sqlBackslash then (c == 0x25 || c == 0x5f) && plainLiteral rest
    else plainLiteral (c :: rest)

/-- Two bytes stand for two only where both are kept. -/
theorem unescape_length (c : UInt8) :
    ((c = 0x25 ∨ c = 0x5f) ∧ unescape c = [sqlBackslash, c]) ∨ (unescape c).length = 1 := by
  by_cases hc : c = 0x25 ∨ c = 0x5f
  · refine Or.inl ⟨hc, ?_⟩
    rcases hc with rfl | rfl
    · rfl
    · rfl
  · apply Or.inr
    unfold unescape
    rw [if_neg hc]
    repeat' split
    all_goals rfl

theorem unescape_length_le (c : UInt8) : (unescape c).length ≤ 2 := by
  rcases unescape_length c with ⟨-, h⟩ | h
  · rw [h]
    exact Nat.le_refl 2
  · omega

/-- A literal stands for no more bytes than it is written with. -/
theorem readLiteral_length :
    ∀ {s v rest : List UInt8}, readLiteral s = some (v, rest) →
      v.length + rest.length + 1 ≤ s.length := by
  intro s
  fun_induction readLiteral s with
  | case1 => intro v rest h; exact absurd h (by simp)
  | case2 =>
    intro v rest h
    obtain ⟨rfl, rfl⟩ := Prod.mk.inj (Option.some.inj h)
    simp
  | case3 b hb => intro v rest h; exact absurd h (by simp)
  | case4 rest ih =>
    intro v rest' h
    obtain ⟨r, hr, hv⟩ := Option.map_eq_some_iff.mp h
    obtain ⟨rfl, rfl⟩ := Prod.mk.inj hv
    have hle := ih hr
    simp only [List.length_cons]
    omega
  | case5 c rest hc =>
    intro v rest' h
    obtain ⟨rfl, rfl⟩ := Prod.mk.inj (Option.some.inj h)
    simp
  | case6 c rest hq ih =>
    intro v rest' h
    obtain ⟨r, hr, hv⟩ := Option.map_eq_some_iff.mp h
    obtain ⟨rfl, rfl⟩ := Prod.mk.inj hv
    have hle := ih hr
    have htwo := unescape_length_le c
    simp only [List.length_cons, List.length_append]
    omega
  | case7 b c rest hq hb ih =>
    intro v rest' h
    obtain ⟨r, hr, hv⟩ := Option.map_eq_some_iff.mp h
    obtain ⟨rfl, rfl⟩ := Prod.mk.inj hv
    have hle := ih hr
    simp only [List.length_cons] at hle ⊢
    omega

/-- **Which bytes mean themselves between quotes.** -/
theorem readLiteral_self (s : List UInt8) :
    readLiteral (s ++ [sqlQuote]) = some (s, []) ↔ plainLiteral s = true := by
  fun_induction plainLiteral s with
  | case1 => exact ⟨fun _ => rfl, fun _ => rfl⟩
  | case2 b =>
    show readLiteral [b, sqlQuote] = _ ↔ _
    rw [readLiteral]
    by_cases hq : b = sqlQuote
    · simp [hq, readLiteral]
    · by_cases hb : b = sqlBackslash
      · simp [hb, readLiteral]
      · simp [hq, hb, readLiteral]
  | case3 c rest =>
    -- a quote ends the literal, or is doubled and one byte short
    show readLiteral (sqlQuote :: c :: (rest ++ [sqlQuote])) = _ ↔ _
    refine ⟨fun h => ?_, fun h => absurd h (by simp)⟩
    rw [readLiteral, if_pos rfl] at h
    split at h
    · obtain ⟨r, hr, hv⟩ := Option.map_eq_some_iff.mp h
      obtain ⟨hval, -⟩ := Prod.mk.inj hv
      obtain ⟨-, hval⟩ := List.cons.inj hval
      have hle := readLiteral_length hr
      rw [hval] at hle
      simp only [List.length_cons, List.length_append, List.length_nil] at hle
      omega
    · exact absurd (Prod.mk.inj (Option.some.inj h)).1 (by simp)
  | case4 c rest hq ih =>
    show readLiteral (sqlBackslash :: c :: (rest ++ [sqlQuote])) = _ ↔ _
    rw [readLiteral, if_neg hq, if_pos rfl, Bool.and_eq_true, ← ih]
    constructor
    · intro h
      obtain ⟨r, hr, hv⟩ := Option.map_eq_some_iff.mp h
      obtain ⟨hval, hrest⟩ := Prod.mk.inj hv
      have hr' : readLiteral (rest ++ [sqlQuote]) = some (r.1, r.2) := hr
      rcases unescape_length c with ⟨hc, hkeep⟩ | hone
      · rw [hkeep] at hval
        obtain ⟨-, hval⟩ := List.cons.inj hval
        obtain ⟨-, hval⟩ := List.cons.inj hval
        refine ⟨by rcases hc with rfl | rfl <;> rfl, ?_⟩
        rw [hr', hrest]
        exact congrArg (fun v => some (v, [])) hval
      · have hle := readLiteral_length hr'
        have hlen := congrArg List.length hval
        simp only [List.length_cons, List.length_append, List.length_nil] at hle hlen
        omega
    · intro ⟨hc, hrest⟩
      rw [hrest, Option.map_some]
      rcases unescape_length c with ⟨-, hkeep⟩ | hone
      · rw [hkeep]
        rfl
      · have hc' : c = 0x25 ∨ c = 0x5f := by simpa using hc
        rcases hc' with rfl | rfl
        · exact absurd hone (by decide)
        · exact absurd hone (by decide)
  | case5 b c rest hq hb ih =>
    show readLiteral (b :: c :: (rest ++ [sqlQuote])) = _ ↔ _
    rw [readLiteral, if_neg hq, if_neg hb, ← ih]
    constructor
    · intro h
      obtain ⟨r, hr, hv⟩ := Option.map_eq_some_iff.mp h
      obtain ⟨hval, hrest⟩ := Prod.mk.inj hv
      obtain ⟨-, hval⟩ := List.cons.inj hval
      rw [List.cons_append, hr, ← hval, ← hrest]
    · intro h
      rw [List.cons_append] at h
      rw [h]
      rfl

/-! ## Names -/

/-- A byte of a name that needs no quotes, or of a qualified one. -/
def isWordByte (b : UInt8) : Bool :=
  (0x30 ≤ b && b ≤ 0x39) || (0x41 ≤ b && b ≤ 0x5a) || (0x61 ≤ b && b ≤ 0x7a) || b == 0x5f ||
    b == 0x24 || b == 0x2e || 0x80 ≤ b

/-- Words with commas between them, and what is behind; `cur` is the word so far. -/
def readNames : List UInt8 → List UInt8 → List (List UInt8) × List UInt8
  | cur, [] => ([cur], [])
  | cur, b :: rest =>
    if isWordByte b then readNames (cur ++ [b]) rest
    else if b = sqlComma then
      let r := readNames [] rest
      (cur :: r.1, r.2)
    else ([cur], b :: rest)

/-- These bytes are behind the words, if not one of them. -/
def EndsWord (t : List UInt8) : Prop :=
  ∀ b rest, t = b :: rest → isWordByte b = false ∧ b ≠ sqlComma

theorem readNames_word {w : List UInt8} (hw : w.all isWordByte = true) :
    ∀ (cur t : List UInt8), readNames cur (w ++ t) = readNames (cur ++ w) t := by
  induction w with
  | nil => intro cur t; rw [List.nil_append, List.append_nil]
  | cons b w ih =>
    intro cur t
    rw [List.all_cons, Bool.and_eq_true] at hw
    rw [List.cons_append, readNames, if_pos hw.1, ih hw.2, List.append_assoc, List.singleton_append]

theorem readNames_end {t : List UInt8} (ht : EndsWord t) (cur : List UInt8) :
    readNames cur t = ([cur], t) := by
  cases t with
  | nil => rfl
  | cons b rest =>
    obtain ⟨hb, hcomma⟩ := ht b rest rfl
    rw [readNames, hb, if_neg (by simp), if_neg hcomma]

/-- A list of words is read as what it is. -/
theorem readNames_join {t : List UInt8} (ht : EndsWord t) :
    ∀ {ns : List (List UInt8)}, ns ≠ [] → (∀ w ∈ ns, w.all isWordByte = true) →
      readNames [] ([sqlComma].intercalate ns ++ t) = (ns, t) := by
  intro ns
  induction ns with
  | nil => intro hne _; exact absurd rfl hne
  | cons n ns ih =>
    intro _ hall
    have hn := hall n List.mem_cons_self
    cases ns with
    | nil =>
      rw [List.intercalate_singleton, readNames_word hn, readNames_end ht, List.nil_append]
    | cons m ns =>
      have hrest := ih (List.cons_ne_nil m ns) fun w hw => hall w (List.mem_cons_of_mem _ hw)
      have hcomma : isWordByte sqlComma = false := by decide
      rw [List.intercalate_cons_cons, List.append_assoc, List.append_assoc, readNames_word hn,
        List.singleton_append, readNames, hcomma, if_neg (by simp), if_pos rfl, hrest,
        List.nil_append]

/-- All that is read are words. -/
theorem readNames_words :
    ∀ {s cur : List UInt8}, cur.all isWordByte = true →
      (readNames cur s).1 ≠ [] ∧ ∀ w ∈ (readNames cur s).1, w.all isWordByte = true := by
  intro s
  induction s with
  | nil =>
    intro cur hcur
    refine ⟨by simp [readNames], fun w hw => ?_⟩
    obtain rfl := List.mem_singleton.mp hw
    exact hcur
  | cons b rest ih =>
    intro cur hcur
    rw [readNames]
    split
    · next hb =>
      apply ih
      rw [List.all_append, hcur, List.all_cons, hb]
      rfl
    · split
      · refine ⟨by simp, fun w hw => ?_⟩
        rcases List.mem_cons.mp hw with rfl | hw
        · exact hcur
        · exact (ih rfl).2 w hw
      · refine ⟨by simp, fun w hw => ?_⟩
        obtain rfl := List.mem_singleton.mp hw
        exact hcur

/-! ## Statements -/

/-- The text of a keyword. -/
def keyword (s : String) : List UInt8 := s.toList.map fun c => UInt8.ofNat c.toNat

/-- What a SELECT of this form asks for. -/
structure SelectStmt where
  names : List (List UInt8)
  table : List UInt8
  keycol : List UInt8
  value : List UInt8
  deriving DecidableEq, Repr

/-- The statement put together, the value as it is. -/
def SelectStmt.build (q : SelectStmt) : List UInt8 :=
  keyword "SELECT " ++ ([sqlComma].intercalate q.names ++ (keyword " FROM " ++ (q.table ++
    (keyword " WHERE " ++ (q.keycol ++ (keyword "='" ++ (q.value ++ [sqlQuote])))))))

/-- What is behind this text. -/
def expect (p s : List UInt8) : Option (List UInt8) :=
  if p.isPrefixOf s then some (s.drop p.length) else none

/-- A word that the server takes for a name. -/
def isName (ident : List UInt8 → Bool) (w : List UInt8) : Bool :=
  !w.isEmpty && w.all isWordByte && ident w

/-- Read a statement; nothing may be behind its literal. -/
def readSelect (ident : List UInt8 → Bool) (s : List UInt8) : Option SelectStmt := do
  let s ← expect (keyword "SELECT ") s
  let names := readNames [] s
  let s ← expect (keyword " FROM ") names.2
  let table := s.takeWhile isWordByte
  let s ← expect (keyword " WHERE ") (s.drop table.length)
  let keycol := s.takeWhile isWordByte
  let s ← expect (keyword "='") (s.drop keycol.length)
  let lit ← readLiteral s
  if lit.2 = [] ∧ (names.1 ++ [table, keycol]).all (isName ident) = true then
    some ⟨names.1, table, keycol, lit.1⟩
  else none

theorem expect_append (p s : List UInt8) : expect p (p ++ s) = some s := by
  unfold expect
  rw [if_pos (List.isPrefixOf_iff_prefix.mpr (List.prefix_append p s)), List.drop_left]

theorem takeWhile_word {w t : List UInt8} (hw : w.all isWordByte = true) (ht : EndsWord t) :
    (w ++ t).takeWhile isWordByte = w := by
  rw [List.takeWhile_append_of_pos (List.all_eq_true.mp hw)]
  cases t with
  | nil => rw [List.takeWhile_nil, List.append_nil]
  | cons b rest =>
    rw [List.takeWhile_cons_of_neg (by rw [(ht b rest rfl).1]; simp), List.append_nil]

/-- With words for names, what is read depends on the literal alone. -/
theorem readSelect_words (ident : List UInt8 → Bool) {q : SelectStmt} (hne : q.names ≠ [])
    (hwords : ∀ w ∈ q.names ++ [q.table, q.keycol], w.all isWordByte = true) :
    readSelect ident q.build
      = (readLiteral (q.value ++ [sqlQuote])).bind fun lit =>
          if lit.2 = [] ∧ (q.names ++ [q.table, q.keycol]).all (isName ident) = true then
            some ⟨q.names, q.table, q.keycol, lit.1⟩
          else none := by
  have hkey : ∀ {k : String} {b : UInt8} {r t : List UInt8}, keyword k = b :: r →
      isWordByte b = false → b ≠ sqlComma → EndsWord (keyword k ++ t) := by
    intro k b r t hk hb hcomma c rest hc
    rw [hk, List.cons_append] at hc
    obtain ⟨rfl, -⟩ := List.cons.inj hc
    exact ⟨hb, hcomma⟩
  have hfrom : ∀ t, EndsWord (keyword " FROM " ++ t) :=
    fun t => hkey rfl (by decide) (by decide)
  have hwhere : ∀ t, EndsWord (keyword " WHERE " ++ t) :=
    fun t => hkey rfl (by decide) (by decide)
  have hequals : ∀ t, EndsWord (keyword "='" ++ t) :=
    fun t => hkey rfl (by decide) (by decide)
  have htable := hwords q.table (by simp)
  have hkeycol := hwords q.keycol (by simp)
  unfold readSelect SelectStmt.build
  rw [expect_append]
  simp only [Option.bind_eq_bind, Option.bind_some]
  rw [readNames_join (hfrom _) hne fun w hw => hwords w (by simp [hw])]
  simp only [expect_append, Option.bind_some, takeWhile_word htable (hwhere _), List.drop_left,
    takeWhile_word hkeycol (hequals _)]

/-- What is read has words for names. -/
theorem readSelect_names {ident : List UInt8 → Bool} {s : List UInt8} {q : SelectStmt}
    (h : readSelect ident s = some q) :
    q.names ≠ [] ∧ ∀ w ∈ q.names ++ [q.table, q.keycol], isName ident w = true := by
  unfold readSelect at h
  simp only [Option.bind_eq_bind, Option.bind_eq_some_iff] at h
  obtain ⟨s₁, -, s₂, -, s₃, -, s₄, -, lit, -, h⟩ := h
  split at h
  · next hall =>
    obtain rfl := Option.some.inj h
    exact ⟨(readNames_words rfl).1, List.all_eq_true.mp hall.2⟩
  · exact absurd h (by simp)

/-- **When a statement reads back as its parts.** -/
theorem readSelect_build (ident : List UInt8 → Bool) (q : SelectStmt) :
    readSelect ident q.build = some q ↔
      q.names ≠ [] ∧ (∀ w ∈ q.names ++ [q.table, q.keycol], isName ident w = true) ∧
        plainLiteral q.value = true := by
  constructor
  · intro h
    obtain ⟨hne, hnames⟩ := readSelect_names h
    refine ⟨hne, hnames, ?_⟩
    rw [readSelect_words ident hne fun w hw => ?_] at h
    · obtain ⟨lit, hlit, hq⟩ := Option.bind_eq_some_iff.mp h
      split at hq
      · next hend =>
        rw [← readLiteral_self, hlit]
        have hvalue := congrArg SelectStmt.value (Option.some.inj hq)
        exact congrArg some (Prod.ext hvalue hend.1)
      · exact absurd hq (by simp)
    · have hw' := hnames w hw
      unfold isName at hw'
      rw [Bool.and_eq_true, Bool.and_eq_true] at hw'
      exact hw'.1.2
  · intro ⟨hne, hnames, hplain⟩
    rw [readSelect_words ident hne fun w hw => ?_, (readLiteral_self q.value).mpr hplain,
      Option.bind_some, if_pos ⟨rfl, List.all_eq_true.mpr hnames⟩]
    have hw' := hnames w hw
    unfold isName at hw'
    rw [Bool.and_eq_true, Bool.and_eq_true] at hw'
    exact hw'.1.2

end Nastd.Lib
