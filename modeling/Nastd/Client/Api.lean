import Nastd.Nastipc

/-!
# Requests, as the client builds them

The frames of `client/nastapi.c`. Each builder writes into a buffer of 512 bytes and
keeps a length beside it; `snprintf` is told how much room is left, the length is not
corrected when it did not fit.
-/

namespace Nastd.Client

/-- What `snprintf(s, size, …)` puts into `s` for this text: as much as leaves room
for a NUL, and the NUL. -/
def snprintf (size : Nat) (text : Bytes) : Bytes := text.take (size - 1) ++ [0]

/-- The value loop of `nast_upd`, over the `bufflen` bytes used so far; `none` for
`NAST_NOMEM`. -/
def addValues : Bytes → List Bytes → Option Bytes
  | buffer, [] => some buffer
  | buffer, str :: rest =>
    if buffer.length + str.length > 512 then none
    else addValues (if rest = [] then buffer ++ str else buffer ++ str ++ [NASTSEP]) rest

/-- `nast_upd`: the frame it hands to `sendcmd`. The key is a C string. A key that leaves no room
is only noticed when a value is added, so without values more is sent than was written
(`none` as well). -/
def nastUpd (tid : UInt16) (key : Bytes) (valarray : List Bytes) : Option Bytes :=
  let text := [NASTCMD, NASTUPD] ++ cstr key ++ [NASTSEP]
  let head := [0, 0] ++ htons tid ++ (snprintf 508 text).take text.length
  if 4 + text.length > 512 then none
  else
    (addValues head valarray).map fun buffer =>
      htons (UInt16.ofNat buffer.length) ++ buffer.drop 2

/-- The length `nast_upd` computes for a request: what has to fit 512 bytes. -/
def updSize (key : Bytes) (vals : List Bytes) : Nat :=
  7 + key.length + ([NASTSEP].intercalate vals).length

/-- The value loop joins the values, if they fit. -/
theorem addValues_eq :
    ∀ {vals : List Bytes} {buffer : Bytes},
      buffer.length + ([NASTSEP].intercalate vals).length ≤ 512 →
      addValues buffer vals = some (buffer ++ [NASTSEP].intercalate vals) := by
  intro vals
  induction vals with
  | nil =>
    intro buffer _
    simp [addValues]
  | cons str rest ih =>
    intro buffer h
    rw [addValues]
    cases rest with
    | nil =>
      have hone : [NASTSEP].intercalate [str] = str := by simp
      rw [hone] at h ⊢
      rw [if_neg (by omega)]
      rfl
    | cons t rest =>
      have hcons : [NASTSEP].intercalate (str :: t :: rest)
          = str ++ [NASTSEP] ++ [NASTSEP].intercalate (t :: rest) := by
        simp [List.intercalate]
      rw [hcons, List.length_append, List.length_append] at h
      have hsep : [NASTSEP].length = 1 := rfl
      rw [if_neg (by omega), if_neg (List.cons_ne_nil t rest), ih ?_, hcons]
      · simp only [List.append_assoc]
      · rw [List.length_append, List.length_append]
        omega

/-- A text that fits is printed whole. -/
theorem snprintf_take {size : Nat} {text : Bytes} (h : text.length < size) :
    (snprintf size text).take text.length = text := by
  have hwhole : text.take (size - 1) = text := List.take_of_length_le (by omega)
  unfold snprintf
  rw [hwhole, List.take_left']
  rfl

/-- The frame of an update that fits and whose text was not cut off. -/
theorem nastUpd_eq {tid : UInt16} {key : Bytes} {vals : List Bytes}
    (hnul : 0 ∉ key) (hsize : updSize key vals ≤ 512) (htext : key.length ≤ 504) :
    nastUpd tid key vals
      = some (htons (UInt16.ofNat (updSize key vals)) ++ htons tid ++ [NASTCMD, NASTUPD] ++
          key ++ [NASTSEP] ++ [NASTSEP].intercalate vals) := by
  unfold updSize at hsize
  have hlen : ([NASTCMD, NASTUPD] ++ key ++ [NASTSEP]).length = key.length + 3 := by
    simp only [List.length_append, List.length_cons, List.length_nil]
    omega
  have hhead : ([0, 0] ++ htons tid ++ ([NASTCMD, NASTUPD] ++ key ++ [NASTSEP])).length
      = 7 + key.length := by
    rw [List.length_append, hlen]
    show 4 + (key.length + 3) = _
    omega
  unfold nastUpd
  have htext : ([NASTCMD, NASTUPD] ++ key ++ [NASTSEP]).length < 508 := by omega
  simp only [cstr_of_not_mem hnul, snprintf_take htext]
  rw [if_neg (by omega), addValues_eq (by rw [hhead]; omega), Option.map_some, List.length_append,
    hhead]
  simp [updSize]

end Nastd.Client
