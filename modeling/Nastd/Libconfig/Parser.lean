import Nastd.Nastipc

/-!
# The configuration parser

`libconfig/`: `getLineLenFrom:to:` and `getDataFrom:` of `Parser.m`, and `setFromBuffer` of the
four kinds of data. A pointer into the buffer is modelled by the text from there to the NUL, so
`offset < buffer+len` compares lengths: `stop` is the number of bytes from `buffer+len` on. The
text itself has no NUL. Allocations succeed, and the warnings and error texts on `stderr`
are left out; `nil` is `none`.

`ArrayData` and `DictData` have the same `setFromBuffer` but for the brackets and the keys:
`containerFromBuffer` with a `Kind`. An array's children have no key.
-/

namespace Nastd.Libconfig

def SEMICOLON : Byte := 0x3b
def EQUALS : Byte := 0x3d
def QUOTE : Byte := 0x22
def LBRACE : Byte := 0x7b
def RBRACE : Byte := 0x7d
def LBRACKET : Byte := 0x5b
def RBRACKET : Byte := 0x5d

/-- `isspace` of `ctype.h`, in the C locale. -/
def isspace (c : Byte) : Bool := decide (c = 0x20) || decide (0x09 ≤ c) && decide (c ≤ 0x0d)

/-- `ArrayData` or `DictData`. -/
inductive Kind where
  | array
  | dict
  deriving DecidableEq, Repr

def Kind.opening : Kind → Byte
  | array => LBRACKET
  | dict => LBRACE

def Kind.closing : Kind → Byte
  | array => RBRACKET
  | dict => RBRACE

mutual

/-- `DataObject`. -/
inductive Data where
  | num (data : Int)
  | str (data : Bytes)
  | node (kind : Kind) (data : Children)

/-- The children of an array or a dictionary, in order. -/
inductive Children where
  | nil
  | cons (key : Bytes) (value : Data) (rest : Children)

end

/-! ## `Parser.m` -/

/-- `quote`, `frenchBraces` and `squareBraces`. -/
structure Scan where
  quote : Bool
  french : Nat
  square : Nat
  deriving DecidableEq, Repr

def Scan.start : Scan := ⟨false, 0, 0⟩

/-- The `switch` of `getLineLenFrom:to:`. Brackets count inside quotes too, and a closing one
without an opening one changes nothing. -/
def Scan.next (s : Scan) (c : Byte) : Scan :=
  if c = LBRACE then { s with french := s.french + 1 }
  else if c = RBRACE then { s with french := s.french - 1 }
  else if c = LBRACKET then { s with square := s.square + 1 }
  else if c = RBRACKET then { s with square := s.square - 1 }
  else if c = QUOTE then { s with quote := !s.quote }
  else s

/-- The loop of `getLineLenFrom:to:`, over the bytes up to `endAddr`. -/
def lineLen : Scan → Bytes → Nat
  | _, [] => 0
  | s, c :: rest => if s = .start ∧ c = SEMICOLON then 0 else lineLen (s.next c) rest + 1

/-- `getLineLenFrom:to:`. -/
def getLineLenFrom (line : Bytes) : Nat := lineLen .start line

/-! ## Numbers and strings -/

/-- The value of a digit in any base up to 36; 36 for what is none. -/
def digitValue (c : Byte) : Nat :=
  if 0x30 ≤ c ∧ c ≤ 0x39 then c.toNat - 0x30
  else if 0x61 ≤ c ∧ c ≤ 0x7a then c.toNat - 0x57
  else if 0x41 ≤ c ∧ c ≤ 0x5a then c.toNat - 0x37
  else 36

def isDigit (base : Nat) (c : Byte) : Bool := decide (digitValue c < base)

/-- A `long` has 64 bits. -/
def LONG_MAX : Int := 0x7fffffffffffffff

def LONG_MIN : Int := -0x8000000000000000

/-- The base `strtol` finds out, and the text behind the prefix of a hexadecimal number. -/
def strtolBase : Bytes → Nat × Bytes
  | 0x30 :: x :: d :: rest =>
    if (x = 0x78 ∨ x = 0x58) ∧ isDigit 16 d = true then (16, d :: rest)
    else (8, 0x30 :: x :: d :: rest)
  | 0x30 :: rest => (8, 0x30 :: rest)
  | text => (10, text)

/-- `strtol(text, &endPtr, 0)`, and what `endPtr` points to. -/
def strtol (text : Bytes) : Int × Bytes :=
  let t := text.dropWhile isspace
  let signed := t.head? = some 0x2d ∨ t.head? = some 0x2b
  let b := strtolBase (if signed then t.tail else t)
  let digits := b.2.takeWhile (isDigit b.1)
  let value : Int := (digits.foldl (fun n c => n * b.1 + digitValue c) 0 : Nat)
  if digits = [] then (0, text)
  else (max LONG_MIN (min LONG_MAX (if t.head? = some 0x2d then -value else value)),
    b.2.dropWhile (isDigit b.1))

/-- `setFromBuffer` of `NumData.m`. -/
def numFromBuffer (buffer : Bytes) : Option Int :=
  if (strtol buffer).2 = [] then some (strtol buffer).1 else none

/-- `setFromBuffer` of `StringData.m`: the bytes between the first quote and the last one. The
search for the last stops behind the first byte of the string. -/
def strFromBuffer (buffer : Bytes) : Option Bytes :=
  match buffer.dropWhile (· ≠ QUOTE) with
  | [] => none
  | _ :: start =>
    match (start.drop 1).reverse.dropWhile (· ≠ QUOTE) with
    | [] => none
    | _ :: before => some (start.take 1 ++ before.reverse)

/-! ## Arrays and dictionaries -/

/-- White space is skipped while at least so many bytes are left. -/
def skipSpace (least : Nat) : Bytes → Bytes
  | [] => []
  | c :: p => if least ≤ p.length + 1 ∧ isspace c = true then skipSpace least p else c :: p

/-- `len` goes back over white space: the number of bytes from `buffer+len` on. -/
def trimEnd (buffer : Bytes) (k : Nat) : Nat :=
  k + ((buffer.take (buffer.length + 1 - k)).reverse.takeWhile isspace).length

/-- The key in the text before the equals sign. -/
def trimKey (text : Bytes) : Bytes :=
  text.take 1 ++ ((text.drop 1).reverse.dropWhile isspace).reverse

/-- The key of an entry, and the text from its value on; `none` without an equals sign. An
element of an array has no key. -/
def readKey (kind : Kind) (stop : Nat) (offset : Bytes) : Option (Bytes × Bytes) :=
  match kind with
  | .array => some ([], offset)
  | .dict =>
    match offset.dropWhile (· ≠ EQUALS) with
    | [] => none
    | _ :: p => some (trimKey (offset.takeWhile (· ≠ EQUALS)), skipSpace (stop + 1) p)

/-- The loop over the children. It moves on in each step, so it takes no more of them than there
are bytes. -/
def readChildren (getDataFrom : Bytes → Option Data) (kind : Kind) (stop : Nat) :
    Nat → Bytes → Option Children
  | 0, offset => if stop < offset.length then none else some .nil
  | n + 1, offset =>
    if stop < offset.length then
      (readKey kind stop (skipSpace stop offset)).bind fun x =>
        let strLen := getLineLenFrom (x.2.take (x.2.length - stop))
        (getDataFrom (x.2.take strLen)).bind fun d =>
          (readChildren getDataFrom kind stop n (x.2.drop (strLen + 1))).map fun rest =>
            .cons x.1 d rest
    else some .nil

/-- `setFromBuffer` of `ArrayData.m` and `DictData.m`, with the length of the text. -/
def containerFromBuffer (getDataFrom : Bytes → Option Data) (kind : Kind) (buffer : Bytes) :
    Option Children :=
  let offset := buffer.dropWhile isspace
  let k := trimEnd buffer 1
  if offset.head? = some kind.opening then
    if (buffer.drop (buffer.length - k)).head? = some kind.closing then
      readChildren getDataFrom kind (trimEnd buffer (k + 1)) buffer.length offset.tail
    else none
  else readChildren getDataFrom kind k buffer.length offset

/-- `setFromBuffer` of `ArrayData.m`. -/
def arrayFromBuffer (getDataFrom : Bytes → Option Data) : Bytes → Option Children :=
  containerFromBuffer getDataFrom .array

/-- `setFromBuffer` of `DictData.m`. -/
def dictFromBuffer (getDataFrom : Bytes → Option Data) : Bytes → Option Children :=
  containerFromBuffer getDataFrom .dict

/-- `getDataFrom:`, down to this depth of nesting. -/
def getDataFrom : Nat → Bytes → Option Data
  | 0, _ => none
  | depth + 1, dataStr =>
    if dataStr.head? = some LBRACE then
      (dictFromBuffer (getDataFrom depth) dataStr).map (.node .dict)
    else if dataStr.head? = some LBRACKET then
      (arrayFromBuffer (getDataFrom depth) dataStr).map (.node .array)
    else if dataStr.head? = some QUOTE then (strFromBuffer dataStr).map .str
    else (numFromBuffer dataStr).map .num

/-- `setFromBuffer` of a `DictData` accepts the text, with these entries. -/
def Accepts (text : Bytes) (entries : Children) : Prop :=
  ∃ depth, dictFromBuffer (getDataFrom depth) text = some entries

end Nastd.Libconfig
