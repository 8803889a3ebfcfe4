import Nastd.Client.KeyRequests
import Nastd.Server.InputBounds
import Nastd.Server.Stream

/-!
# A key from client to server

What `process_cmd` makes of the requests of `Client/KeyRequests.lean`. `Faithful` is what
one would want of a call with a key of any length: it is refused and nothing is sent, or
one request is sent, with its length, and what is dispatched has the caller's id, the
command and this key.

The code does not refuse. A key that is too long goes out cut off, with a length that
counts all of it; from 32762 bytes on the length is negative, nothing is sent and
`getresponse` waits in vain. `key_requests_iff` is exactly when all goes well.
-/

namespace Nastd.Server

open Nastd.Client

/-- The key in the arguments of a command: `do_update` looks for the first separator. -/
def keyArg (cmd : Byte) (args : Bytes) : Bytes :=
  if cmd = NASTUPD then args.takeWhile (· ≠ NASTSEP) else args

/-- These bytes are one request, and `process_cmd` dispatches it as this one. -/
structure OneRequest (tid : UInt16) (cmd : Byte) (key sent : Bytes) : Prop where
  length : short (ntohs (sent.getD 0 0) (sent.getD 1 0)) = sent.length
  decoded : ∀ (env : Nat → Shared → Shared) (around : Int → Byte) (sock : Nat)
    (opts : NastOptions) (srv : Shared), ∃ args r,
      dispatchCmd env (bufMem sent around) sock sent.length sent.length opts srv
        = some ([⟨tid, cmd, args⟩], r) ∧ keyArg cmd args = key

/-- Refused without a byte, or sent as it is meant. -/
def Faithful (tid : UInt16) (cmd : Byte) (key : Bytes) (c : ApiCall) : Prop :=
  (c.rc = -1 ∧ c.sent = []) ∨ OneRequest tid cmd key c.sent

/-! ## One request -/

/-- A frame is dispatched as what it is. -/
theorem oneRequest_frame (c : Cmd) (hc : c.Framed) :
    OneRequest c.reqid c.cmd (keyArg c.cmd c.args) c.frame := by
  have hlen : c.frame.length = c.size := c.frame_length
  have h6 : 6 ≤ c.size := Nat.le_add_right 6 _
  have hat := fun around => bufMem_at c.frame around
  refine ⟨?_, fun env around sock opts srv => ⟨c.args, ?_⟩⟩
  · show short (ntohs (UInt8.ofNat ((UInt16.ofNat c.size).toNat / 256))
      (UInt8.ofNat ((UInt16.ofNat c.size).toNat % 256))) = _
    rw [ntohs_htons, short_ofNat hc, hlen]
  · obtain ⟨k, hk⟩ := Nat.exists_eq_add_of_le' (show 1 ≤ c.frame.length by omega)
    unfold dispatchCmd
    rw [if_neg (by omega)]
    rw [hk, dispatchLoop_cmd (hat around) hc (by omega)]
    dsimp only
    split
    · exact ⟨_, rfl, rfl⟩
    · rw [dispatchLoop_end (by omega)]
      exact ⟨_, rfl, rfl⟩

/-- What is dispatched are the bytes behind the header. -/
theorem OneRequest.args {tid : UInt16} {cmd : Byte} {key sent : Bytes}
    (h : OneRequest tid cmd key sent) : 6 ≤ sent.length ∧ keyArg cmd (sent.drop 6) = key := by
  obtain ⟨args, r, hd, hkey⟩ := h.decoded (fun _ srv => srv) (fun _ => 0) 0 defaultOpts quietServer
  unfold dispatchCmd at hd
  split at hd
  · exact absurd (congrArg Prod.fst (Option.some.inj hd)) (by simp)
  · next h6 =>
    refine ⟨by omega, ?_⟩
    obtain ⟨k, hk⟩ := Nat.exists_eq_add_of_le' (show 1 ≤ sent.length by omega)
    have hat := bufMem_at sent fun _ => 0
    have hlen : lenAt (bufMem sent fun _ => 0) 0 = sent.length := by
      obtain ⟨hi, lo, i, j, m, rest, rfl⟩ := eq_head (show 5 ≤ sent.length by omega)
      rw [(at_head hat).1]
      exact h.length
    -- the arguments are read from behind the header
    have hread : (List.range ((sent.length : Int) - 6).toNat).map
        (fun j : Nat => bufMem sent (fun _ => 0) (0 + 6 + j)) = sent.drop 6 := by
      have hdrop := at_map (at_drop hat 6)
      rw [List.length_drop] at hdrop
      have hcount : ((sent.length : Int) - 6).toNat = sent.length - 6 := by omega
      rw [hcount]
      exact hdrop
    have hargs : args = sent.drop 6 := by
      rw [hk, dispatchLoop, if_pos (by omega)] at hd
      dsimp only at hd
      split at hd
      · exact absurd (congrArg Prod.fst (Option.some.inj hd)) (by simp)
      split at hd
      · exact absurd hd (by simp)
      rw [← hread, ← hlen]
      split at hd
      · exact (Cmd.mk.inj (List.cons.inj (congrArg Prod.fst (Option.some.inj hd))).1).2.2.symm
      · obtain ⟨x, -, hx⟩ := Option.map_eq_some_iff.mp hd
        exact (Cmd.mk.inj (List.cons.inj (congrArg Prod.fst hx)).1).2.2.symm
    rw [← hargs, hkey]

/-! ## What is written -/

section Write

variable {buffer : Bytes} {behind : Nat → Byte}

theorem sendcmdWrites_length (mem : Nat → Byte) (len : Int) :
    (sendcmdWrites mem len).length = len.toNat := by
  simp [sendcmdWrites]

theorem sendcmdWrites_drop (mem : Nat → Byte) (len : Int) (n : Nat) :
    (sendcmdWrites mem len).drop n = (List.range (len.toNat - n)).map fun i => mem (n + i) := by
  refine List.ext_getElem (by simp [sendcmdWrites]) fun i hi hi' => ?_
  simp [sendcmdWrites]

/-- `sendcmd` hands over nothing for a length that is not positive. -/
theorem sendcmdWrites_eq_nil {mem : Nat → Byte} {len : Int} :
    sendcmdWrites mem len = [] ↔ len ≤ 0 := by
  rw [← List.length_eq_zero_iff, sendcmdWrites_length]
  omega

/-- As much as is in the buffer. -/
theorem sendcmdWrites_buffer {n : Nat} (h : n ≤ buffer.length) :
    sendcmdWrites (bufferMem buffer behind) n = buffer.take n := by
  refine List.ext_getElem (by simp [sendcmdWrites, h]) fun i hi hi' => ?_
  rw [List.length_take] at hi'
  have hlt : i < buffer.length := by omega
  simp [sendcmdWrites, bufferMem, hlt]

theorem snprintf_length (size : Nat) (text : Bytes) :
    (snprintf size text).length = min (size - 1) text.length + 1 := by
  unfold snprintf
  rw [List.length_append, List.length_take]
  rfl

/-- What was written behind the length. -/
theorem bufferMem_written {w : Bytes} {i : Nat} (a b c : Byte) (hi : i < w.length) :
    bufferMem ([a, b] ++ (w ++ [c])) behind (2 + i) = w[i] := by
  have hget : ([a, b] ++ (w ++ [c]))[2 + i]? = some w[i] := by
    rw [Nat.add_comm]
    show (w ++ [c])[i]? = _
    rw [List.getElem?_append_left hi, List.getElem?_eq_getElem hi]
  unfold bufferMem
  rw [List.getD_eq_getElem?_getD, hget]
  rfl

/-- A text that does not fit ends the buffer with its NUL. -/
theorem bufferMem_last (behind : Nat → Byte) (head : Bytes) {text : Bytes}
    (hhead : head.length = 4) (htext : 508 ≤ text.length) :
    bufferMem (head ++ snprintf 508 text) behind 511 = 0 := by
  have hcut : (head ++ text.take 507).length = 511 := by
    rw [List.length_append, List.length_take]
    omega
  unfold bufferMem snprintf
  show (head ++ (text.take 507 ++ [0])).getD 511 _ = 0
  rw [← List.append_assoc, List.getD_eq_getElem?_getD, List.getElem?_append_right (by omega), hcut]
  rfl

end Write

/-! ## When a call is faithful -/

section Calls

variable {tid : UInt16} {cmd : Byte} {key : Bytes} {rc : Int}

/-- A call that sends a frame is faithful if the frame has its key. -/
theorem faithful_frame_iff {args : Bytes} (hsize : 6 + args.length < 0x8000) :
    Faithful tid cmd key ⟨rc, (⟨tid, cmd, args⟩ : Cmd).frame⟩ ↔ keyArg cmd args = key := by
  constructor
  · rintro (⟨-, hnone⟩ | hone)
    · exact absurd hnone (by simp [Cmd.frame, htons])
    · obtain ⟨-, hkey⟩ := hone.args
      exact hkey
  · intro hkey
    apply Or.inr
    have hframe := oneRequest_frame ⟨tid, cmd, args⟩ hsize
    dsimp only at hframe
    rw [hkey] at hframe
    exact hframe

/-- A call that does not send its key is faithful if it sends nothing and says so. -/
theorem faithful_writes_iff {mem : Nat → Byte} {len : Int}
    (hnot : ¬ OneRequest tid cmd key (sendcmdWrites mem len)) :
    Faithful tid cmd key ⟨rc, sendcmdWrites mem len⟩ ↔ len ≤ 0 ∧ rc = -1 := by
  constructor
  · rintro (⟨hrc, hnone⟩ | hone)
    · exact ⟨sendcmdWrites_eq_nil.mp hnone, hrc⟩
    · exact absurd hone hnot
  · intro ⟨hlen, hrc⟩
    exact Or.inl ⟨hrc, sendcmdWrites_eq_nil.mpr hlen⟩

/-- A key that reaches the last byte of the buffer has the NUL there. -/
theorem OneRequest.nul {mem : Nat → Byte} {len : Int}
    (h : OneRequest tid cmd key (sendcmdWrites mem len)) (hcmd : cmd ≠ NASTUPD)
    (hlong : 505 < key.length) (hlast : mem 511 = 0) : 0 ∈ key := by
  obtain ⟨-, hkey⟩ := h.args
  rw [keyArg, if_neg hcmd, sendcmdWrites_drop] at hkey
  have hlen := congrArg List.length hkey
  rw [List.length_map, List.length_range] at hlen
  rw [← hkey]
  exact List.mem_map.mpr ⟨505, List.mem_range.mpr (by omega), hlast⟩

end Calls

/-! ## GET, ADD and DEL -/

/-- A key that fits, or so long a one that nothing is sent and nobody answers. -/
def KeySendable (keylen : Nat) (answer : Int) : Prop :=
  keylen ≤ 505 ∨ (short (UInt16.ofNat (6 + keylen)) ≤ 0 ∧ answer = -1)

section Key

variable {tid : UInt16} {key : Bytes} {behind : Nat → Byte} {answer : Int} {cmd : Byte}

theorem keyText_length (hnul : 0 ∉ key) :
    ([NASTCMD, cmd] ++ cstr key).length = key.length + 2 := by
  rw [cstr_of_not_mem hnul]
  rfl

/-- What is sent is counted by the key, not by what is left of it in the buffer. -/
theorem keyRequest_eq (hnul : 0 ∉ key) :
    keyRequest tid key behind answer cmd
      = ⟨answer, sendcmdWrites (bufferMem (htons (UInt16.ofNat (6 + key.length)) ++ htons tid ++
          snprintf 508 ([NASTCMD, cmd] ++ cstr key)) behind)
          (short (UInt16.ofNat (6 + key.length)))⟩ := by
  have hsum : 4 + (key.length + 2) = 6 + key.length := by omega
  unfold keyRequest
  dsimp only
  rw [keyText_length hnul, hsum]

/-- A key that fits is in the buffer whole, and what is sent is its frame. -/
theorem keyRequest_frame (hnul : 0 ∉ key) (hfits : key.length ≤ 505) :
    keyRequest tid key behind answer cmd = ⟨answer, (⟨tid, cmd, key⟩ : Cmd).frame⟩ := by
  have htext : ([NASTCMD, cmd] ++ cstr key).length = key.length + 2 := keyText_length hnul
  have hwhole := snprintf_take (show ([NASTCMD, cmd] ++ cstr key).length < 508 by omega)
  have h4 : (htons (UInt16.ofNat (6 + key.length)) ++ htons tid).length = 4 := rfl
  have hrest : 6 + key.length - 4 = key.length + 2 := by omega
  have htake : (htons (UInt16.ofNat (6 + key.length)) ++ htons tid ++
      snprintf 508 ([NASTCMD, cmd] ++ cstr key)).take (6 + key.length)
        = (⟨tid, cmd, key⟩ : Cmd).frame := by
    unfold Cmd.frame Cmd.size
    rw [htext] at hwhole
    rw [List.take_append, h4, hrest, hwhole, List.take_of_length_le (by omega),
      cstr_of_not_mem hnul, ← List.append_assoc]
  rw [keyRequest_eq hnul, short_ofNat (by omega), sendcmdWrites_buffer, htake]
  rw [List.length_append, snprintf_length, htext, h4]
  omega

theorem keyRequest_faithful (hnul : 0 ∉ key) (hcmd : cmd ≠ NASTUPD) :
    Faithful tid cmd key (keyRequest tid key behind answer cmd)
      ↔ KeySendable key.length answer := by
  unfold KeySendable
  by_cases hfits : key.length ≤ 505
  · rw [keyRequest_frame hnul hfits, faithful_frame_iff (by omega)]
    exact ⟨fun _ => Or.inl hfits, fun _ => if_neg hcmd⟩
  · have htext : ([NASTCMD, cmd] ++ cstr key).length = key.length + 2 := keyText_length hnul
    have hlast := bufferMem_last behind (htons (UInt16.ofNat (6 + key.length)) ++ htons tid) rfl
      (show 508 ≤ ([NASTCMD, cmd] ++ cstr key).length by omega)
    rw [keyRequest_eq hnul, faithful_writes_iff]
    · exact ⟨Or.inr, fun h => h.resolve_left hfits⟩
    · -- the byte in front of the end of the buffer is a NUL and not the key's
      intro hone
      exact absurd (hone.nul hcmd (by omega) hlast) hnul

end Key

/-! ## UPD -/

/-- Where the lengths of the values take the length of a request: `some none` if one of
them is refused, `none` if one is copied to somewhere else. -/
def valuesEnd : Int → List Int → Option (Option Int)
  | bufflen, [] => some (some bufflen)
  | bufflen, slen :: rest =>
    if bufflen + slen < 0 ∨ bufflen + slen > 512 then some none
    else if bufflen < 0 ∨ slen < 0 then none
    else valuesEnd (if rest = [] then bufflen + slen else bufflen + slen + 1) rest

/-- The lengths of values, as `nast_upd` reads them. -/
def valueLengths (vals : List Bytes) : List Int := vals.map fun v => short (UInt16.ofNat v.length)

/-- The values are refused; or the key fits and has no separator; or it is so long that
nothing is sent, and nobody answers. -/
def UpdSendable (key : Bytes) (vals : List Bytes) (answer : Int) : Prop :=
  match valuesEnd (short (UInt16.ofNat (7 + key.length))) (valueLengths vals) with
  | none => False
  | some none => True
  | some (some bufflen) =>
    if key.length ≤ 504 then NASTSEP ∉ key else bufflen ≤ 0 ∧ answer = -1

/-- The value loop follows the lengths. What it has built holds all that was there before,
and is within 512 bytes if there is a value. -/
theorem updLoop_end :
    ∀ (vals : List Bytes) (mem : Nat → Byte) (bufflen : Int),
      match updLoop mem bufflen vals with
      | .wild => valuesEnd bufflen (valueLengths vals) = none
      | .refused => valuesEnd bufflen (valueLengths vals) = some none
      | .built mem' bufflen' => valuesEnd bufflen (valueLengths vals) = some (some bufflen') ∧
          bufflen ≤ bufflen' ∧ (∀ i : Nat, (i : Int) < bufflen → mem' i = mem i) ∧
          ((vals = [] ∧ bufflen' = bufflen) ∨ bufflen' ≤ 512) := by
  intro vals
  induction vals with
  | nil =>
    intro mem bufflen
    exact ⟨rfl, Int.le_refl _, fun i _ => rfl, Or.inl ⟨rfl, rfl⟩⟩
  | cons str rest ih =>
    intro mem bufflen
    have hlens : valueLengths (str :: rest)
        = short (UInt16.ofNat str.length) :: valueLengths rest := rfl
    have hrest : valueLengths rest = [] ↔ rest = [] := List.map_eq_nil_iff
    rw [updLoop, hlens, valuesEnd]
    dsimp only
    generalize short (UInt16.ofNat str.length) = slen
    by_cases hroom : bufflen + slen < 0 ∨ bufflen + slen > 512
    · rw [if_pos hroom, if_pos hroom]
    rw [if_neg hroom, if_neg hroom]
    by_cases hwild : bufflen < 0 ∨ slen < 0
    · rw [if_pos hwild, if_pos hwild]
    rw [if_neg hwild, if_neg hwild]
    -- a value behind the bytes so far, and then perhaps a separator
    have hkeep : ∀ (s : Bytes) (i : Nat), (i : Int) < bufflen →
        copyTo mem bufflen.toNat s i = mem i := fun s i hi => if_neg (by omega)
    by_cases hlast : rest = []
    · subst hlast
      exact ⟨rfl, by omega, fun i hi => hkeep _ i hi, Or.inr (by omega)⟩
    · rw [if_neg hlast, if_neg fun h => hlast (hrest.mp h)]
      have hih := ih (copyTo (copyTo mem bufflen.toNat (str.take slen.toNat))
        (bufflen + slen).toNat [NASTSEP]) (bufflen + slen + 1)
      split at hih
      · exact hih
      · exact hih
      · obtain ⟨hend, hle, hsame, hmax⟩ := hih
        refine ⟨hend, by omega, fun i hi => ?_, Or.inr (hmax.resolve_left fun h => hlast h.1)⟩
        rw [hsame i (by omega), ← hkeep _ i hi]
        exact if_neg (by omega)

theorem short_lt (n : UInt16) : short n < 0x8000 := by
  have hlt : n.toNat < 65536 := n.toNat_lt
  rw [short]
  split
  · next h =>
    rw [UInt16.lt_iff_toNat_lt] at h
    have h' : n.toNat < 0x8000 := h
    omega
  · omega

/-- What `takeWhile` passes over it takes. -/
theorem mem_takeWhile_of_getElem {p : Byte → Bool} {l : Bytes} {n : Nat}
    (hlong : n ≤ (l.takeWhile p).length) (hn : n < l.length) (hp : p l[n] = true) :
    l[n] ∈ l.takeWhile p := by
  induction l generalizing n with
  | nil => exact absurd hn (by simp)
  | cons a l ih =>
    cases n with
    | zero =>
      have ha : p a = true := hp
      show a ∈ _
      rw [List.takeWhile_cons_of_pos ha]
      exact List.mem_cons_self
    | succ n =>
      by_cases ha : p a = true
      · rw [List.takeWhile_cons_of_pos ha] at hlong ⊢
        simp only [List.length_cons] at hlong hn
        exact List.mem_cons_of_mem _ (ih (by omega) (by omega) hp)
      · rw [List.takeWhile_cons_of_neg ha] at hlong
        exact absurd hlong (by simp)

section Upd

variable {tid : UInt16} {key : Bytes} {behind : Nat → Byte} {answer : Int} {vals : List Bytes}

/-- Behind the two bytes of the length everything is as it was. -/
theorem copyTo_length (mem : Nat → Byte) (n : UInt16) {i : Nat} (hi : 2 ≤ i) :
    copyTo mem 0 (htons n) i = mem i := by
  have hout : (htons n)[i]? = none := List.getElem?_eq_none hi
  unfold copyTo
  rw [if_pos (Nat.zero_le i), Nat.sub_zero, List.getD_eq_getElem?_getD, hout]
  rfl

/-- A key that fits is sent whole, with its separator behind it. -/
theorem updSent_frame {mem : Nat → Byte} (len : Nat) (hfits : key.length ≤ 504)
    (hlen : 7 + key.length ≤ len)
    (hsame : ∀ i : Nat, (i : Int) < (7 + key.length : Nat) → mem i
      = bufferMem ([0, 0] ++ htons tid ++
          snprintf 508 ([NASTCMD, NASTUPD] ++ key ++ [NASTSEP])) behind i) :
    ∃ tail, sendcmdWrites (copyTo mem 0 (htons (UInt16.ofNat len))) len
      = (⟨tid, NASTUPD, key ++ NASTSEP :: tail⟩ : Cmd).frame := by
  obtain ⟨k, rfl⟩ := Nat.exists_eq_add_of_le hlen
  refine ⟨(List.range k).map fun i => mem (7 + key.length + i), ?_⟩
  have hw : (htons tid ++ [NASTCMD, NASTUPD] ++ key ++ [NASTSEP]).length = 5 + key.length := by
    simp only [List.length_append, htons_length, List.length_cons, List.length_nil]
    omega
  have hcut : 7 + key.length + k = 2 + (5 + key.length + k) := by omega
  have hmem : ∀ n : Nat, (List.range n).map (fun i => copyTo mem 0
      (htons (UInt16.ofNat (7 + key.length + k))) (2 + (5 + key.length + i)))
        = (List.range n).map fun i => mem (7 + key.length + i) := by
    intro n
    refine List.map_congr_left fun i _ => ?_
    rw [copyTo_length mem _ (by omega)]
    congr 1
    omega
  have hbuffer : [0, 0] ++ htons tid ++ snprintf 508 ([NASTCMD, NASTUPD] ++ key ++ [NASTSEP])
      = [0, 0] ++ ((htons tid ++ [NASTCMD, NASTUPD] ++ key ++ [NASTSEP]) ++ [0]) := by
    have hwhole : ([NASTCMD, NASTUPD] ++ key ++ [NASTSEP]).take (508 - 1)
        = [NASTCMD, NASTUPD] ++ key ++ [NASTSEP] := by
      apply List.take_of_length_le
      simp only [List.length_append, List.length_cons, List.length_nil]
      omega
    rw [snprintf, hwhole]
    simp only [List.append_assoc]
  have hlow : (List.range 2).map (copyTo mem 0 (htons (UInt16.ofNat (7 + key.length + k))))
      = htons (UInt16.ofNat (7 + key.length + k)) := rfl
  have hmid : (List.range (5 + key.length)).map (fun i => copyTo mem 0
      (htons (UInt16.ofNat (7 + key.length + k))) (2 + i))
        = htons tid ++ [NASTCMD, NASTUPD] ++ key ++ [NASTSEP] := by
    refine List.ext_getElem (by rw [List.length_map, List.length_range, hw]) fun i hi hi' => ?_
    rw [hw] at hi'
    rw [List.getElem_map, List.getElem_range, copyTo_length mem _ (by omega),
      hsame (2 + i) (by omega), hbuffer]
    exact bufferMem_written 0 0 0 _
  unfold sendcmdWrites
  rw [Int.toNat_natCast, hcut, List.range_add, List.map_append, ← hcut, hlow, List.map_map,
    List.range_add, List.map_append, List.map_map]
  show htons _ ++ ((List.range (5 + key.length)).map (fun i => copyTo mem 0 _ (2 + i)) ++
    (List.range k).map (fun i => copyTo mem 0 _ (2 + (5 + key.length + i)))) = _
  rw [hmid, hmem]
  unfold Cmd.frame Cmd.size
  have hargs : 6 + (key ++ NASTSEP :: (List.range k).map fun i => mem (7 + key.length + i)).length
      = 7 + key.length + k := by
    simp only [List.length_append, List.length_cons, List.length_map, List.length_range]
    omega
  rw [hargs]
  simp only [List.append_assoc, List.cons_append, List.nil_append]

/-- `do_update` finds the whole key if there is no separator in it. -/
theorem keyArg_upd_iff {tail : Bytes} :
    keyArg NASTUPD (key ++ NASTSEP :: tail) = key ↔ NASTSEP ∉ key := by
  rw [keyArg, if_pos rfl]
  constructor
  · intro hkey hsep
    rw [← hkey] at hsep
    exact absurd (List.all_eq_true.mp List.all_takeWhile _ hsep) (by decide)
  · intro hsep
    have hall : ∀ b ∈ key, decide (b ≠ NASTSEP) = true := by
      intro b hb
      have hne : b ≠ NASTSEP := fun he => hsep (he ▸ hb)
      simpa using hne
    rw [List.takeWhile_append_of_pos hall, List.takeWhile_cons_of_neg (by simp), List.append_nil]

/-- The NUL at the end of the buffer is no separator, so `do_update` takes it for a part of a
key that comes so far. -/
theorem OneRequest.nul_upd {mem : Nat → Byte} {len : Int}
    (h : OneRequest tid NASTUPD key (sendcmdWrites mem len)) (hlong : 504 < key.length)
    (hlen : 512 ≤ len) (hlast : mem 511 = 0) : 0 ∈ key := by
  obtain ⟨-, hkey⟩ := h.args
  rw [keyArg, if_pos rfl, sendcmdWrites_drop] at hkey
  have hlt : 505 < ((List.range (len.toNat - 6)).map fun i => mem (6 + i)).length := by
    rw [List.length_map, List.length_range]
    omega
  have hat : ((List.range (len.toNat - 6)).map fun i => mem (6 + i))[505] = 0 := by
    rw [List.getElem_map, List.getElem_range]
    exact hlast
  have hbyte := mem_takeWhile_of_getElem (n := 505) (p := fun b => decide (b ≠ NASTSEP))
    (l := (List.range (len.toNat - 6)).map fun i => mem (6 + i))
    (by rw [hkey]; omega) hlt (by rw [hat]; decide)
  rw [hkey, hat] at hbyte
  exact hbyte

/-- A request with so long a key fills the buffer before the values: with its length above
32767 it is not sent at all. -/
theorem updLength_long {mem : Nat → Byte} {bufflen : Int} (hlong : ¬ key.length ≤ 504)
    (hmax : bufflen = short (UInt16.ofNat (7 + key.length)) ∨ bufflen ≤ 512)
    (hone : OneRequest tid NASTUPD key (sendcmdWrites mem bufflen)) :
    512 ≤ short (UInt16.ofNat (7 + key.length)) := by
  obtain ⟨h6, hkey⟩ := hone.args
  rw [sendcmdWrites_length] at h6
  rw [keyArg, if_pos rfl, sendcmdWrites_drop] at hkey
  -- the key is among what is sent
  have hsent := (List.takeWhile_sublist (fun b => decide (b ≠ NASTSEP))
    (l := (List.range (bufflen.toNat - 6)).map fun i => mem (6 + i))).length_le
  rw [hkey, List.length_map, List.length_range] at hsent
  by_cases hwrap : 7 + key.length < 0x8000
  · rw [short_ofNat hwrap]
    omega
  · have hhigh := short_lt (UInt16.ofNat (7 + key.length))
    rcases hmax with h | h
    · have hedge : key.length = 32761 := by omega
      rw [hedge] at h
      have hneg : short (UInt16.ofNat (7 + 32761)) < 0 := by decide
      omega
    · omega

theorem nastUpdCall_faithful (hnul : 0 ∉ key) :
    (∃ c, nastUpdCall tid key vals behind answer = some c ∧ Faithful tid NASTUPD key c)
      ↔ UpdSendable key vals answer := by
  have htext : ([NASTCMD, NASTUPD] ++ key ++ [NASTSEP]).length = key.length + 3 := by
    rw [List.length_append, List.length_append]
    show 2 + key.length + 1 = key.length + 3
    omega
  have hsum : 4 + (key.length + 3) = 7 + key.length := by omega
  have hend := updLoop_end vals
    (bufferMem ([0, 0] ++ htons tid ++
      snprintf 508 ([NASTCMD, NASTUPD] ++ key ++ [NASTSEP])) behind)
    (short (UInt16.ofNat (7 + key.length)))
  unfold nastUpdCall UpdSendable
  dsimp only
  rw [cstr_of_not_mem hnul, htext, hsum]
  generalize updLoop _ _ vals = l at hend ⊢
  cases l with
  | wild =>
    simp only at hend
    rw [hend]
    exact ⟨fun ⟨c, hc, _⟩ => absurd hc (by simp), fun h => h.elim⟩
  | refused =>
    simp only at hend
    rw [hend]
    exact ⟨fun _ => trivial, fun _ => ⟨⟨-1, []⟩, rfl, Or.inl ⟨rfl, rfl⟩⟩⟩
  | built mem bufflen =>
    obtain ⟨hvals, hle, hsame, hmax⟩ := hend
    rw [hvals]
    dsimp only
    have hcall : ∀ {c₀ : ApiCall}, (∃ c, some c₀ = some c ∧ Faithful tid NASTUPD key c)
        ↔ Faithful tid NASTUPD key c₀ := by
      intro c₀
      exact ⟨fun ⟨c, hc, h⟩ => Option.some.inj hc ▸ h, fun h => ⟨c₀, rfl, h⟩⟩
    rw [hcall]
    by_cases hfits : key.length ≤ 504
    · rw [if_pos hfits]
      rw [short_ofNat (by omega)] at hle hsame hmax
      obtain ⟨len, rfl⟩ := Int.eq_ofNat_of_zero_le (show 0 ≤ bufflen by omega)
      obtain ⟨tail, htail⟩ := updSent_frame len hfits (by omega) hsame
      have hsize : len = 6 + (key ++ NASTSEP :: tail).length := by
        have hlens := congrArg List.length htail
        rw [sendcmdWrites_length, Cmd.frame_length] at hlens
        exact hlens
      have hmax' : len ≤ 512 := by
        rcases hmax with ⟨-, h⟩ | h
        · omega
        · omega
      have hsent : sendcmdWrites (copyTo mem 0 (htons (UInt16.ofNat ((len : Int).toNat)))) len
          = (⟨tid, NASTUPD, key ++ NASTSEP :: tail⟩ : Cmd).frame := htail
      rw [hsent, faithful_frame_iff (by omega), keyArg_upd_iff]
    · rw [if_neg hfits]
      refine faithful_writes_iff fun hone => ?_
      have hshort := updLength_long hfits (hmax.imp_left And.right) hone
      have hlast := bufferMem_last behind ([0, 0] ++ htons tid) rfl
        (show 508 ≤ ([NASTCMD, NASTUPD] ++ key ++ [NASTSEP]).length by omega)
      refine absurd (hone.nul_upd (by omega) (by omega) ?_) hnul
      rw [copyTo_length mem _ (by omega), hsame 511 (by omega), hlast]

end Upd

/-! ## All four -/

/-- **When a key gets to the server.** `nast_get`, `nast_add` and `nast_del` send the key as
it is, or refuse it, if and only if it has at most 505 bytes, or so many that the length is
not positive and `getresponse` returns -1. For `nast_upd` it is 504 bytes without a
separator, unless the values are refused. -/
theorem key_requests_iff (tid : UInt16) (key : Bytes) (vals : List Bytes) (behind : Nat → Byte)
    (answer : Int) (hnul : 0 ∉ key) :
    (Faithful tid NASTGET key (nastGet tid key behind answer) ↔ KeySendable key.length answer) ∧
      (Faithful tid NASTADD key (nastAdd tid key behind answer)
        ↔ KeySendable key.length answer) ∧
      (Faithful tid NASTDEL key (nastDel tid key behind answer)
        ↔ KeySendable key.length answer) ∧
      ((∃ c, nastUpdCall tid key vals behind answer = some c ∧ Faithful tid NASTUPD key c)
        ↔ UpdSendable key vals answer) :=
  ⟨keyRequest_faithful hnul (by decide), keyRequest_faithful hnul (by decide),
    keyRequest_faithful hnul (by decide), nastUpdCall_faithful hnul⟩

/-- A short key, with an update of one value. -/
theorem key_requests_iff_short :
    Faithful 7 NASTGET [98, 111, 98] (nastGet 7 [98, 111, 98] (fun _ => 0) 0) ∧
      ∃ c, nastUpdCall 7 [98, 111, 98] [[55]] (fun _ => 0) 0 = some c ∧
        Faithful 7 NASTUPD [98, 111, 98] c := by
  have h := key_requests_iff 7 [98, 111, 98] [[55]] (fun _ => 0) 0 (by decide)
  have hupd : UpdSendable [98, 111, 98] [[55]] 0 := by
    have hend : valuesEnd (short (UInt16.ofNat (7 + 3))) (valueLengths [[55]])
        = some (some 11) := by decide
    show match valuesEnd (short (UInt16.ofNat (7 + 3))) (valueLengths [[55]]) with
      | none => False
      | some none => True
      | some (some bufflen) =>
        if ([98, 111, 98] : Bytes).length ≤ 504 then NASTSEP ∉ ([98, 111, 98] : Bytes)
        else bufflen ≤ 0 ∧ (0 : Int) = -1
    rw [hend]
    decide
  exact ⟨h.1.mpr (Or.inl (by decide)), h.2.2.2.mpr hupd⟩

/-- A key of 506 bytes is sent with a NUL for its last byte. -/
theorem long_key_cut :
    ¬ ∀ (tid : UInt16) (key : Bytes) (behind : Nat → Byte) (answer : Int), 0 ∉ key →
      Faithful tid NASTGET key (nastGet tid key behind answer) := by
  intro h
  obtain ⟨key, hlen, hnul⟩ : ∃ key : Bytes, key.length = 506 ∧ 0 ∉ key :=
    ⟨List.replicate 506 97, List.length_replicate, fun hmem =>
      absurd (List.eq_of_mem_replicate hmem) (by decide)⟩
  have hsendable := (keyRequest_faithful hnul (by decide)).mp (h 7 key (fun _ => 0) 0 hnul)
  unfold KeySendable at hsendable
  rw [hlen, short_ofNat (by omega)] at hsendable
  omega

end Nastd.Server
