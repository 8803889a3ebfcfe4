import Nastd.Nastipc

/-!
# Looking a key up in a CDB file

`server/cdb_hash.c`, `server/cdb_unpack.c` and `server/cdb_find.c`. The file is an
`Image`: its length and its bytes. All offsets are those of the source: `uint32_t`
where it computes with them, plain positions in the image where it has pointers.

A key comes with what lies in memory behind it, because `match` may read there: it
compares 32 bytes at a time and does not shorten the last piece.
-/

namespace Nastd.Server

/-- A mapped CDB file. -/
structure Image where
  len : Nat
  byte : Nat → Byte

/-- The image with these table pointers at these positions, no other tables, and `tail`
behind the pointers. -/
def Image.ofParts (pointers : List (Nat × Bytes)) (tail : Bytes) : Image where
  len := 2048 + tail.length
  byte p :=
    if p < 2048 then
      match pointers.find? fun q => decide (q.1 ≤ p ∧ p < q.1 + 8) with
      | some q => q.2.getD (p - q.1) 0
      | none => 0
    else tail.getD (p - 2048) 0

/-- `cdb_hash`. -/
def cdbHash (buf : Bytes) : UInt32 :=
  buf.foldl (fun h b => (h + (h <<< 5)) ^^^ b.toUInt32) 5381

/-- `cdb_unpack`: four bytes, the lowest first. -/
def cdbUnpack (buf : Bytes) : UInt32 :=
  let at' := fun i => (buf.getD i 0).toUInt32
  (((((at' 3 <<< 8) + at' 2) <<< 8) + at' 1) <<< 8) + at' 0

/-- `cdb_bread`: `len` bytes and the pointer behind them, or -1 past the end. -/
def cdbBread (img : Image) (ptr len : Nat) : Option (Bytes × Nat) :=
  if ptr + len > img.len then none
  else some ((List.range len).map fun i => img.byte (ptr + i), ptr + len)

/-- What the key pointer reads: the key, then whatever is in memory behind it. -/
def keyMem (key : Bytes) (after : Nat → Byte) (i : Nat) : Byte :=
  key.getD i (after (i - key.length))

/-- Within the key it is the key. -/
theorem keyMem_lt {key : Bytes} {i : Nat} (h : i < key.length) (after : Nat → Byte) :
    keyMem key after i = key[i] := by
  simp [keyMem, h]

/-- What `match` returns: -1, 0, or 1 with the pointer moved behind the key. -/
inductive MatchResult where
  | ioError
  | differ
  | equal (ptr : Nat)
  deriving DecidableEq, Repr

/-- The loop of `match`: `n` stays what it was for the first piece, and `len` is
unsigned. Each round moves `ptr`, so one round a byte of the image is enough. -/
def matchLoop (img : Image) (mem : Nat → Byte) (n : Nat) :
    Nat → Nat → Nat → UInt32 → MatchResult
  | 0, _, _, _ => .ioError
  | rounds + 1, ptr, key, len =>
    if len = 0 then .equal ptr
    else
      match cdbBread img ptr n with
      | none => .ioError
      | some (buf, ptr') =>
        if buf ≠ (List.range n).map (fun i => mem (key + i)) then .differ
        else matchLoop img mem n rounds ptr' (key + n) (len - UInt32.ofNat n)

/-- `match`. -/
def matchKey (img : Image) (key : Bytes) (after : Nat → Byte) (ptr : Nat) : MatchResult :=
  let n := if 32 > key.length then key.length else 32
  matchLoop img (keyMem key after) n (img.len + 2) ptr 0 (UInt32.ofNat key.length)

/-- What `cdb_find` returns: -1, 0, or 1 with `*ret` and `*retlen`. -/
inductive FindResult where
  | ioError
  | absent
  | found (ret : Nat) (retlen : UInt32)
  deriving DecidableEq, Repr

/-- The record at `poskd`, for a slot with the right hash. `none`: not this one. -/
def cdbCompare (img : Image) (key : Bytes) (after : Nat → Byte) (poskd : UInt32) :
    Option FindResult :=
  if poskd.toNat > img.len then some .ioError
  else
    match cdbBread img poskd.toNat 8 with
    | none => some .ioError
    | some (packbuf, cur) =>
      if cdbUnpack packbuf = UInt32.ofNat key.length then
        match matchKey img key after cur with
        | .ioError => some .ioError
        | .equal cur' => some (.found cur' (cdbUnpack (packbuf.drop 4)))
        | .differ => none
      else none

/-- The loop over the slots of one hash table. -/
def cdbLoop (img : Image) (key : Bytes) (after : Nat → Byte) (h pos lenhash : UInt32) :
    Nat → UInt32 → FindResult
  | 0, _ => .absent
  | loop + 1, h2 =>
    let cur := (pos + 8 * h2).toNat
    if cur > img.len then .ioError
    else
      match cdbBread img cur 8 with
      | none => .ioError
      | some (packbuf, _) =>
        let poskd := cdbUnpack (packbuf.drop 4)
        let next := if h2 + 1 = lenhash then 0 else h2 + 1
        if poskd = 0 then .absent
        else if cdbUnpack packbuf = h then
          match cdbCompare img key after poskd with
          | some r => r
          | none => cdbLoop img key after h pos lenhash loop next
        else cdbLoop img key after h pos lenhash loop next

/-- `cdb_find`. -/
def cdbFind (img : Image) (key : Bytes) (after : Nat → Byte) : FindResult :=
  let h := cdbHash key
  let cur := (8 * (h &&& 255)).toNat
  if cur > img.len then .ioError
  else
    match cdbBread img cur 8 with
    | none => .ioError
    | some (packbuf, _) =>
      let pos := cdbUnpack packbuf
      let lenhash := cdbUnpack (packbuf.drop 4)
      if lenhash = 0 then .absent
      else cdbLoop img key after h pos lenhash lenhash.toNat ((h >>> 8) % lenhash)

end Nastd.Server
