import Nastd.Server.Io

/-!
# Well-framed buffers

A client that keeps the format sends `Cmd.frame`s, one behind the other. On such a
buffer the pointer arithmetic of `process_cmd` is exact: `processLoop_cmd` peels off
one command, with its own id and arguments, and goes on at the next.
-/

namespace Nastd.Server

/-- One request of a client. -/
structure Cmd where
  reqid : UInt16
  cmd : Byte
  args : Bytes
  deriving DecidableEq, Repr

/-- Its length on the wire. -/
def Cmd.size (c : Cmd) : Nat := 6 + c.args.length

/-- The request on the wire. -/
def Cmd.frame (c : Cmd) : Bytes :=
  htons (UInt16.ofNat c.size) ++ htons c.reqid ++ [NASTCMD, c.cmd] ++ c.args

/-- Its length fits the length field, a `short`. -/
def Cmd.Framed (c : Cmd) : Prop := c.size < 0x8000

theorem Cmd.frame_length (c : Cmd) : c.frame.length = c.size := by
  unfold Cmd.frame Cmd.size
  rw [List.length_append, List.length_append, List.length_append]
  rfl

/-- These bytes are in memory from `p` on. -/
def At (mem : Int → Byte) (p : Int) (bytes : Bytes) : Prop :=
  ∀ j (h : j < bytes.length), mem (p + j) = bytes[j]

theorem at_append {mem : Int → Byte} {p : Int} {a b : Bytes} (h : At mem p (a ++ b)) :
    At mem p a ∧ At mem (p + a.length) b := by
  constructor
  · intro j hj
    rw [h j (by rw [List.length_append]; omega), List.getElem_append_left hj]
  · intro j hj
    have hmem := h (a.length + j) (by rw [List.length_append]; omega)
    rw [List.getElem_append_right (by omega)] at hmem
    have hpos : p + a.length + (j : Int) = p + ((a.length + j : Nat) : Int) := by
      push_cast
      omega
    have hidx : a.length + j - a.length = j := by omega
    rw [hpos, hmem]
    congr 1

/-- A buffer at position 0. -/
theorem bufMem_at (buffer : Bytes) (around : Int → Byte) : At (bufMem buffer around) 0 buffer := by
  intro j hj
  unfold bufMem
  rw [Int.zero_add, if_pos (by omega), Int.toNat_natCast]
  simp [hj]

/-- Bytes one behind the other. -/
theorem at_append_of {mem : Int → Byte} {p : Int} {a b : Bytes} (ha : At mem p a)
    (hb : At mem (p + a.length) b) : At mem p (a ++ b) := by
  intro j hj
  rcases Nat.lt_or_ge j a.length with hlt | hge
  · rw [List.getElem_append_left hlt]
    exact ha j hlt
  · obtain ⟨k, rfl⟩ := Nat.exists_eq_add_of_le hge
    have hk : k < b.length := by
      rw [List.length_append] at hj
      omega
    have hpos : p + ((a.length + k : Nat) : Int) = p + a.length + k := by
      push_cast
      omega
    have hidx : a.length + k - a.length = k := by omega
    rw [List.getElem_append_right hge, hpos, hb k hk]
    congr 1
    exact hidx.symm

/-- The first bytes of a request, with its mark. -/
def Cmd.head (c : Cmd) : Bytes := htons (UInt16.ofNat c.size) ++ htons c.reqid ++ [NASTCMD]

theorem Cmd.frame_eq (c : Cmd) : c.frame = c.head ++ (c.cmd :: c.args) := by
  unfold Cmd.frame Cmd.head
  simp

@[simp] theorem Cmd.head_length (c : Cmd) : c.head.length = 5 := rfl

section Loop

variable {env : Nat → Shared → Shared} {mem : Int → Byte} {sock : Nat} {bufflen : Int}

/-- Reading the arguments. -/
theorem at_map {p : Int} {bytes : Bytes} (h : At mem p bytes) :
    (List.range bytes.length).map (fun j : Nat => mem (p + j)) = bytes := by
  refine List.ext_getElem (by simp) fun j hj hj' => ?_
  rw [List.getElem_map, List.getElem_range]
  exact h j hj'

/-- What is read is in memory. -/
theorem at_of_map {p : Int} {bytes : Bytes}
    (h : (List.range bytes.length).map (fun j : Nat => mem (p + j)) = bytes) : At mem p bytes := by
  intro j hj
  have hget := List.getElem_of_eq h (i := j) (by simpa using hj)
  rw [List.getElem_map, List.getElem_range] at hget
  exact hget

/-- Reading the first bytes of a request. -/
theorem Cmd.read_head {c : Cmd} {p : Int} (hat : At mem p c.head) (hc : c.Framed) :
    short (ntohs (mem p) (mem (p + 1))) = (c.size : Int) ∧
      ntohs (mem (p + 2)) (mem (p + 3)) = c.reqid ∧ mem (p + 4) = NASTCMD := by
  have hsize : c.size < 0x8000 := hc
  have h0 : mem (p + (0 : Nat)) = UInt8.ofNat ((UInt16.ofNat c.size).toNat / 256) :=
    hat 0 (by simp)
  rw [Int.natCast_zero, Int.add_zero] at h0
  have h1 : mem (p + 1) = UInt8.ofNat ((UInt16.ofNat c.size).toNat % 256) := hat 1 (by simp)
  have h2 : mem (p + 2) = UInt8.ofNat (c.reqid.toNat / 256) := hat 2 (by simp)
  have h3 : mem (p + 3) = UInt8.ofNat (c.reqid.toNat % 256) := hat 3 (by simp)
  refine ⟨?_, ?_, hat 4 (by simp)⟩
  · rw [h0, h1, ntohs_htons, short_ofNat hsize]
  · rw [h2, h3, ntohs_htons]

theorem Cmd.args_count (c : Cmd) : ((c.size : Int) - 6).toNat = c.args.length := by
  unfold Cmd.size
  omega

/-- Reading the rest. -/
theorem Cmd.read_rest {c : Cmd} {p : Int} (hat : At mem p c.frame) :
    mem (p + 5) = c.cmd ∧
      (List.range ((c.size : Int) - 6).toNat).map (fun j : Nat => mem (p + 6 + j)) = c.args := by
  rw [c.frame_eq] at hat
  obtain ⟨-, hrest⟩ := at_append hat
  rw [← List.singleton_append] at hrest
  obtain ⟨hcmd, hargs⟩ := at_append hrest
  refine ⟨?_, ?_⟩
  · have h5 : mem (p + c.head.length + (0 : Nat)) = c.cmd := hcmd 0 (by simp)
    rw [Int.natCast_zero, Int.add_zero] at h5
    exact h5
  · rw [c.args_count]
    have hpos : p + (c.head.length : Int) + ([c.cmd] : Bytes).length = p + 6 := by
      simp only [Cmd.head_length, List.length_singleton]
      omega
    rw [hpos] at hargs
    exact at_map hargs

/-- What is read as a request is in memory. -/
theorem Cmd.at_of_read {c : Cmd} {p : Int} (hhead : At mem p c.head) (hcmd : mem (p + 5) = c.cmd)
    (hargs : (List.range ((c.size : Int) - 6).toNat).map (fun j : Nat => mem (p + 6 + j))
      = c.args) : At mem p c.frame := by
  rw [c.args_count] at hargs
  rw [c.frame_eq, ← List.singleton_append]
  refine at_append_of hhead (at_append_of ?_ ?_)
  · intro j hj
    rw [List.length_singleton] at hj
    obtain rfl : j = 0 := by omega
    have hpos : p + (c.head.length : Int) + (0 : Nat) = p + 5 := by
      rw [Cmd.head_length]
      omega
    rw [hpos, hcmd]
    rfl
  · have hpos : p + (c.head.length : Int) + ([c.cmd] : Bytes).length = p + 6 := by
      simp only [Cmd.head_length, List.length_singleton]
      omega
    rw [hpos]
    exact at_of_map hargs

/-- One command of a well-framed buffer. -/
theorem processLoop_cmd {c : Cmd} {p : Int} (hat : At mem p c.frame) (hc : c.Framed)
    (hp : p < bufflen) (fuel i : Nat) (opts : NastOptions) (srv : Shared) :
    processLoop env mem sock bufflen (fuel + 1) p i opts srv
      = (let r := handleCmd sock c.reqid c.cmd c.args (fun j => mem (p + c.size + j)) opts
          (env i srv)
        if r.1.rc = -1 ∨ r.1.rc = 1 then some r
        else (processLoop env mem sock bufflen fuel (p + c.size) (i + 1) r.2.1 r.2.2).map
          fun x => (r.1.andThen x.1, x.2)) := by
  obtain ⟨hlen, hid, hmark⟩ := Cmd.read_head (at_append (c.frame_eq ▸ hat)).1 hc
  obtain ⟨hcmd, hargs⟩ := Cmd.read_rest hat
  have h6 : ¬ (c.size : Int) < 6 := by
    unfold Cmd.size
    omega
  rw [processLoop, if_pos hp]
  simp only [hlen, hid, hmark, hcmd, hargs, h6, false_and, if_false, ne_eq, not_true_eq_false]

/-- Behind the last command. -/
theorem processLoop_end {p : Int} (hp : ¬ p < bufflen) (fuel i : Nat) (opts : NastOptions)
    (srv : Shared) :
    processLoop env mem sock bufflen fuel p i opts srv = some (.idle 0, opts, srv) := by
  cases fuel with
  | zero => rw [processLoop, if_neg hp]
  | succ fuel => rw [processLoop, if_neg hp]

end Loop

end Nastd.Server
