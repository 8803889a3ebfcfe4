import Nastd.Client.Api

/-!
# Requests with a key, of any length

`nast_get`, `nast_add`, `nast_del` and `nast_upd` of `client/nastapi.c`, for keys that may
not fit. `snprintf` cuts the text to the buffer; the length beside it is a `short` that
`strlen` is added to, so it may be larger than the buffer, negative, or small again.
`sendcmd` writes that many bytes from the buffer on, and none if it is not positive.

What is in memory where nothing was written is an argument (`behind`), and so is what
`getresponse` then returns. The handle is not NULL and the socket takes what is written.
Left out is what `sendcmd` does to the response table before it writes: it grows it and calls
`delresponse`, which for id 0 reaches in front of it (`Client/Responses.lean`).
-/

namespace Nastd.Client

/-- What a call did: its return code, and the bytes it wrote to the socket. -/
structure ApiCall where
  rc : Int
  sent : Bytes
  deriving DecidableEq, Repr

/-- What `sendcmd` writes. -/
def sendcmdWrites (mem : Nat → Byte) (len : Int) : Bytes := (List.range len.toNat).map mem

/-- The buffer and what lies behind it. -/
def bufferMem (buffer : Bytes) (behind : Nat → Byte) (i : Nat) : Byte := buffer.getD i (behind i)

section Keys

variable (tid : UInt16) (key : Bytes) (behind : Nat → Byte) (answer : Int)

/-- A command and a key, as `nast_get` puts them together. -/
def keyRequest (cmd : Byte) : ApiCall :=
  let text := [NASTCMD, cmd] ++ cstr key
  let bufflen := UInt16.ofNat (4 + text.length)
  let buffer := htons bufflen ++ htons tid ++ snprintf 508 text
  ⟨answer, sendcmdWrites (bufferMem buffer behind) (short bufflen)⟩

/-- `nast_get`. -/
def nastGet : ApiCall := keyRequest tid key behind answer NASTGET

/-- `nast_add`. -/
def nastAdd : ApiCall := keyRequest tid key behind answer NASTADD

/-- `nast_del`. -/
def nastDel : ApiCall := keyRequest tid key behind answer NASTDEL

end Keys

/-- `memcpy` of these bytes to `p`. -/
def copyTo (mem : Nat → Byte) (p : Nat) (s : Bytes) (i : Nat) : Byte :=
  if p ≤ i then s.getD (i - p) (mem i) else mem i

/-- How the value loop of `nast_upd` ends. -/
inductive UpdLoop where
  /-- NAST_NOMEM: the call returns -1. -/
  | refused
  /-- A `memcpy` of a negative length or to before the buffer. -/
  | wild
  | built (mem : Nat → Byte) (bufflen : Int)

/-- The value loop of `nast_upd`. The sum that is compared with 512 is unsigned there, so a
negative one is refused. -/
def updLoop : (Nat → Byte) → Int → List Bytes → UpdLoop
  | mem, bufflen, [] => .built mem bufflen
  | mem, bufflen, str :: rest =>
    let slen := short (UInt16.ofNat str.length)
    if bufflen + slen < 0 ∨ bufflen + slen > 512 then .refused
    else if bufflen < 0 ∨ slen < 0 then .wild
    else
      let mem' := copyTo mem bufflen.toNat (str.take slen.toNat)
      let bufflen' := bufflen + slen
      if rest = [] then updLoop mem' bufflen' rest
      else updLoop (copyTo mem' bufflen'.toNat [NASTSEP]) (bufflen' + 1) rest

/-- `nast_upd`, for any key; `none` for one of the wild `memcpy`s. -/
def nastUpdCall (tid : UInt16) (key : Bytes) (valarray : List Bytes) (behind : Nat → Byte)
    (answer : Int) : Option ApiCall :=
  let text := [NASTCMD, NASTUPD] ++ cstr key ++ [NASTSEP]
  let buffer := [0, 0] ++ htons tid ++ snprintf 508 text
  match updLoop (bufferMem buffer behind) (short (UInt16.ofNat (4 + text.length))) valarray with
  | .refused => some ⟨-1, []⟩
  | .wild => none
  | .built mem bufflen =>
    some ⟨answer, sendcmdWrites (copyTo mem 0 (htons (UInt16.ofNat (bufflen.toNat)))) bufflen⟩

end Nastd.Client
