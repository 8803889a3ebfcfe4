import Mathlib.Data.Nat.Digits.Defs
import Nastd.Libconfig.Parser

/-!
# Configurations as they are written

A configuration with the white space it is written with. `Docs.text` writes it, `Docs.data` is
what it says: every entry is `key = value;` and every element of an array `value;`, with any
white space before keys, values and elements, behind keys and before closing brackets.
-/

namespace Nastd.Libconfig

/-- What stands before a value: `before` is white space, and in a dictionary the key follows,
`behind` it white space, the equals sign and white space again. -/
structure Lead where
  before : Bytes
  key : Bytes
  behind : Bytes
  gap : Bytes
  deriving DecidableEq, Repr

def Lead.text (kind : Kind) (lead : Lead) : Bytes :=
  match kind with
  | .array => lead.before
  | .dict => lead.before ++ (lead.key ++ (lead.behind ++ EQUALS :: lead.gap))

mutual

/-- A value. -/
inductive Doc where
  | num (n : Int)
  | str (s : Bytes)
  /-- `trail` is the white space before the closing bracket. -/
  | node (kind : Kind) (entries : Docs) (trail : Bytes)

/-- The entries of a dictionary or elements of an array. -/
inductive Docs where
  | nil
  | cons (lead : Lead) (value : Doc) (rest : Docs)

end

/-- The digits of a number. -/
def digits (n : Nat) : Bytes :=
  if n = 0 then [0x30] else (Nat.digits 10 n).reverse.map fun d => UInt8.ofNat (0x30 + d)

/-- A `long` in decimal. -/
def decimal (n : Int) : Bytes := if n < 0 then 0x2d :: digits n.natAbs else digits n.natAbs

mutual

def Doc.text : Doc → Bytes
  | .num n => decimal n
  | .str s => QUOTE :: (s ++ [QUOTE])
  | .node kind entries trail => kind.opening :: (entries.text kind ++ (trail ++ [kind.closing]))

def Docs.text (kind : Kind) : Docs → Bytes
  | .nil => []
  | .cons lead value rest => lead.text kind ++ (value.text ++ SEMICOLON :: rest.text kind)

end

mutual

def Doc.data : Doc → Data
  | .num n => .num n
  | .str s => .str s
  | .node kind entries _ => .node kind entries.data

def Docs.data : Docs → Children
  | .nil => .nil
  | .cons lead value rest => .cons lead.key value.data rest.data

end

/-- White space only. -/
def Spaces (text : Bytes) : Prop := ∀ c ∈ text, isspace c = true

/-- A letter, a digit or an underscore. -/
def isWord (c : Byte) : Bool :=
  decide (0x61 ≤ c ∧ c ≤ 0x7a) || decide (0x41 ≤ c ∧ c ≤ 0x5a) || decide (c = 0x5f) || isDigit 10 c

/-- An identifier. -/
def Identifier (key : Bytes) : Prop :=
  ∃ c rest, key = c :: rest ∧ isDigit 10 c = false ∧ ∀ x ∈ key, isWord x = true

def Lead.Ok (kind : Kind) (lead : Lead) : Prop :=
  match kind with
  | .array => Spaces lead.before ∧ lead.key = []
  | .dict => Spaces lead.before ∧ Identifier lead.key ∧ Spaces lead.behind ∧ Spaces lead.gap

mutual

/-- Numbers are `long`s, strings have neither a NUL nor a quote, keys are identifiers. -/
def Doc.Ok : Doc → Prop
  | .num n => LONG_MIN ≤ n ∧ n ≤ LONG_MAX
  | .str s => 0 ∉ s ∧ QUOTE ∉ s
  | .node kind entries trail => entries.Ok kind ∧ Spaces trail

def Docs.Ok (kind : Kind) : Docs → Prop
  | .nil => True
  | .cons lead value rest => lead.Ok kind ∧ value.Ok ∧ rest.Ok kind

end

instance (text : Bytes) : Decidable (Spaces text) :=
  decidable_of_iff (text.all isspace = true) List.all_eq_true

instance : ∀ key : Bytes, Decidable (Identifier key)
  | [] => isFalse fun ⟨_, _, h, _⟩ => absurd h (by simp)
  | c :: rest =>
    decidable_of_iff (isDigit 10 c = false ∧ (c :: rest).all isWord = true)
      ⟨fun h => ⟨c, rest, rfl, h.1, List.all_eq_true.mp h.2⟩,
        fun ⟨_, _, heq, h⟩ => ⟨(List.cons.inj heq).1 ▸ h.1, List.all_eq_true.mpr h.2⟩⟩

instance : ∀ (kind : Kind) (lead : Lead), Decidable (lead.Ok kind)
  | .array, lead => inferInstanceAs (Decidable (Spaces lead.before ∧ lead.key = []))
  | .dict, lead => inferInstanceAs (Decidable
      (Spaces lead.before ∧ Identifier lead.key ∧ Spaces lead.behind ∧ Spaces lead.gap))

mutual

instance Doc.decidableOk : ∀ v : Doc, Decidable v.Ok
  | .num n => inferInstanceAs (Decidable (LONG_MIN ≤ n ∧ n ≤ LONG_MAX))
  | .str s => inferInstanceAs (Decidable (0 ∉ s ∧ QUOTE ∉ s))
  | .node kind entries trail =>
    have := entries.decidableOk kind
    inferInstanceAs (Decidable (entries.Ok kind ∧ Spaces trail))

instance Docs.decidableOk (kind : Kind) : ∀ es : Docs, Decidable (es.Ok kind)
  | .nil => isTrue trivial
  | .cons lead value rest =>
    have := value.decidableOk
    have := rest.decidableOk kind
    inferInstanceAs (Decidable (lead.Ok kind ∧ value.Ok ∧ rest.Ok kind))

end

/-! ## Bytes -/

theorem isWord_ne {c d : Byte} (hc : isWord c = true) (hd : isWord d = false) : c ≠ d := by
  rintro rfl
  exact absurd (hc.symm.trans hd) (by simp)

theorem isspace_ne {c d : Byte} (hc : isspace c = true) (hd : isspace d = false) : c ≠ d := by
  rintro rfl
  exact absurd (hc.symm.trans hd) (by simp)

/-- The bytes that `isspace` knows. -/
theorem isspace_cases {c : Byte} (h : isspace c = true) :
    c = 0x20 ∨ c = 0x09 ∨ c = 0x0a ∨ c = 0x0b ∨ c = 0x0c ∨ c = 0x0d := by
  simp only [isspace, Bool.or_eq_true, Bool.and_eq_true, decide_eq_true_eq,
    UInt8.le_iff_toNat_le, ← UInt8.toNat_inj] at h ⊢
  simp at h ⊢
  omega

theorem isspace_word {c : Byte} (hc : isWord c = true) : isspace c = false := by
  by_contra h
  have hs : isspace c = true := by simpa using h
  rcases isspace_cases hs with rfl | rfl | rfl | rfl | rfl | rfl <;> exact absurd hc (by decide)

theorem Identifier.words {key : Bytes} (h : Identifier key) : ∀ c ∈ key, isWord c = true := by
  obtain ⟨c, rest, -, -, hall⟩ := h
  exact hall

theorem Identifier.ne_nil {key : Bytes} (h : Identifier key) : key ≠ [] := by
  obtain ⟨c, rest, rfl, -⟩ := h
  exact List.cons_ne_nil c rest

end Nastd.Libconfig
