import Nastd.Server.CdbProbe

/-!
# What `cdb_find` touches

The bytes `cdb_find` reads and writes, in order, for any image and any key: bytes of the
mapping, bytes of the key, and bytes of its own `packbuf` and `buf`. The traces go along
with the functions of `Server/CdbFind.lean` and branch on what these return.

`findTrace_inside` is when all of them are inside. In the image they always are, since
`cdb_bread` checks. But `match` compares whole pieces of 32 bytes: where a record holds
a key of another length, and there is room in the image, it reads on behind the key.
-/

namespace Nastd.Server

open Nastd.Lib

/-- A byte that is read or written. -/
inductive Access where
  /-- Byte `p` of the mapping. -/
  | image (p : Nat)
  /-- Byte `i` of a key of `size` bytes. -/
  | key (size i : Nat)
  /-- Byte `i` of an array of `size` bytes. -/
  | buffer (size i : Nat)
  deriving DecidableEq

/-- It is there. `len` is the length of the mapping. -/
def Access.Inside (len : Nat) : Access → Prop
  | .image p => p < len
  | .key size i => i < size
  | .buffer size i => i < size

/-- `n` bytes of the mapping are read from `p` on. -/
def imageReads (p n : Nat) : List Access := (List.range n).map fun i => .image (p + i)

/-- `n` bytes are written to the start of an array. -/
def bufferWrites (size n : Nat) : List Access := (List.range n).map fun i => .buffer size i

/-- `memcpy` out of the mapping into an array. -/
def copyTrace (p n size : Nat) : List Access := imageReads p n ++ bufferWrites size n

/-- `cdb_bread` into an array of `size` bytes. -/
def breadTrace (img : Image) (ptr len size : Nat) : List Access :=
  if ptr + len > img.len then [] else copyTrace ptr len size

/-- The inner loop of `match`: the key's bytes up to the first that differs. -/
def comparedTrace (size : Nat) (mem : Nat → Byte) : Nat → Bytes → List Access
  | _, [] => []
  | k, b :: buf => .key size k :: if b ≠ mem k then [] else comparedTrace size mem (k + 1) buf

/-- The outer loop of `match`. -/
def matchTrace (img : Image) (mem : Nat → Byte) (size n : Nat) :
    Nat → Nat → Nat → UInt32 → List Access
  | 0, _, _, _ => []
  | rounds + 1, ptr, key, len =>
    if len = 0 then []
    else
      breadTrace img ptr n 32 ++
        match cdbBread img ptr n with
        | none => []
        | some (buf, ptr') =>
          comparedTrace size mem key buf ++
            if buf ≠ (List.range n).map (fun i => mem (key + i)) then []
            else matchTrace img mem size n rounds ptr' (key + n) (len - UInt32.ofNat n)

/-- `match`. -/
def matchKeyTrace (img : Image) (key : Bytes) (after : Nat → Byte) (ptr : Nat) : List Access :=
  let n := if 32 > key.length then key.length else 32
  matchTrace img (keyMem key after) key.length n (img.len + 2) ptr 0 (UInt32.ofNat key.length)

/-- The record at `poskd`. -/
def compareTrace (img : Image) (key : Bytes) (after : Nat → Byte) (poskd : UInt32) :
    List Access :=
  if poskd.toNat > img.len then []
  else
    breadTrace img poskd.toNat 8 8 ++
      match cdbBread img poskd.toNat 8 with
      | none => []
      | some (packbuf, cur) =>
        if cdbUnpack packbuf = UInt32.ofNat key.length then matchKeyTrace img key after cur else []

/-- The loop over the slots. -/
def loopTrace (img : Image) (key : Bytes) (after : Nat → Byte) (h pos lenhash : UInt32) :
    Nat → UInt32 → List Access
  | 0, _ => []
  | loop + 1, h2 =>
    let cur := (pos + 8 * h2).toNat
    if cur > img.len then []
    else
      breadTrace img cur 8 8 ++
        match cdbBread img cur 8 with
        | none => []
        | some (packbuf, _) =>
          let poskd := cdbUnpack (packbuf.drop 4)
          let next := if h2 + 1 = lenhash then 0 else h2 + 1
          if poskd = 0 then []
          else if cdbUnpack packbuf = h then
            compareTrace img key after poskd ++
              match cdbCompare img key after poskd with
              | some _ => []
              | none => loopTrace img key after h pos lenhash loop next
          else loopTrace img key after h pos lenhash loop next

/-- `cdb_find`. It begins with the hash of the key. -/
def findTrace (img : Image) (key : Bytes) (after : Nat → Byte) : List Access :=
  let h := cdbHash key
  let cur := (8 * (h &&& 255)).toNat
  (List.range key.length).map (fun i => .key key.length i) ++
    if cur > img.len then []
    else
      breadTrace img cur 8 8 ++
        match cdbBread img cur 8 with
        | none => []
        | some (packbuf, _) =>
          let pos := cdbUnpack packbuf
          let lenhash := cdbUnpack (packbuf.drop 4)
          if lenhash = 0 then []
          else loopTrace img key after h pos lenhash lenhash.toNat ((h >>> 8) % lenhash)

/-! ## Inside -/

/-- All of it is there. -/
def AllInside (len : Nat) (l : List Access) : Prop := ∀ a ∈ l, a.Inside len

variable {img : Image} {key : Bytes} {after : Nat → Byte} {mem : Nat → Byte} {L : Nat}

theorem allInside_nil : AllInside L [] := by
  intro a ha
  exact absurd ha (by simp)

theorem allInside_append {l l' : List Access} :
    AllInside L (l ++ l') ↔ AllInside L l ∧ AllInside L l' := List.forall_mem_append

theorem allInside_flatMap {α : Type} {l : List α} {f : α → List Access} :
    AllInside L (l.flatMap f) ↔ ∀ x ∈ l, AllInside L (f x) := by
  constructor
  · intro h x hx a ha
    exact h a (List.mem_flatMap.mpr ⟨x, hx, ha⟩)
  · intro h a ha
    obtain ⟨x, hx, hax⟩ := List.mem_flatMap.mp ha
    exact h x hx a hax

theorem allInside_reads {p n : Nat} : AllInside L (imageReads p n) ↔ n = 0 ∨ p + n ≤ L := by
  constructor
  · intro h
    rcases Nat.eq_zero_or_pos n with hn | hn
    · exact Or.inl hn
    · have hlast := h _ (List.mem_map.mpr ⟨n - 1, List.mem_range.mpr (by omega), rfl⟩)
      have hlt : p + (n - 1) < L := hlast
      exact Or.inr (by omega)
  · intro h a ha
    obtain ⟨i, hi, rfl⟩ := List.mem_map.mp ha
    have hin : i < n := List.mem_range.mp hi
    show p + i < L
    omega

theorem allInside_writes {size n : Nat} : AllInside L (bufferWrites size n) ↔ n ≤ size := by
  constructor
  · intro h
    rcases Nat.eq_zero_or_pos n with hn | hn
    · omega
    · have hlast := h _ (List.mem_map.mpr ⟨n - 1, List.mem_range.mpr (by omega), rfl⟩)
      have hlt : n - 1 < size := hlast
      omega
  · intro h a ha
    obtain ⟨i, hi, rfl⟩ := List.mem_map.mp ha
    have hin : i < n := List.mem_range.mp hi
    show i < size
    omega

/-- `cdb_bread` stays inside if its array is large enough. -/
theorem breadTrace_inside {ptr n size : Nat} (h : n ≤ size) (hL : img.len ≤ L) :
    AllInside L (breadTrace img ptr n size) := by
  unfold breadTrace
  split
  · exact allInside_nil
  · exact allInside_append.mpr ⟨allInside_reads.mpr (Or.inr (by omega)), allInside_writes.mpr h⟩

/-! ## The key -/

/-- A byte of the key is read once all before it have agreed. -/
theorem mem_comparedTrace {size : Nat} {a : Access} {buf : Bytes} :
    ∀ {k : Nat}, a ∈ comparedTrace size mem k buf ↔
      ∃ j, j < buf.length ∧ (∀ i (h : i < buf.length), i < j → buf[i] = mem (k + i)) ∧
        a = .key size (k + j) := by
  induction buf with
  | nil => intro k; simp [comparedTrace]
  | cons b buf ih =>
    intro k
    rw [comparedTrace, List.mem_cons]
    constructor
    · rintro (rfl | h)
      · exact ⟨0, by simp, fun i _ hi => absurd hi (by omega), rfl⟩
      · by_cases hb : b ≠ mem k
        · rw [if_pos hb] at h
          exact absurd h (by simp)
        · rw [if_neg hb] at h
          obtain ⟨j, hj, hagree, rfl⟩ := ih.mp h
          refine ⟨j + 1, by simpa using hj, fun i hi hij => ?_, by rw [Nat.add_right_comm]; rfl⟩
          cases i with
          | zero => exact not_not.mp hb
          | succ i =>
            have hi' : i < buf.length := by simpa using hi
            have hnext := hagree i hi' (by omega)
            rw [Nat.add_right_comm] at hnext
            exact hnext
    · rintro ⟨j, hj, hagree, rfl⟩
      cases j with
      | zero => exact Or.inl rfl
      | succ j =>
        have hb : b = mem k := hagree 0 (by simp) (by omega)
        rw [if_neg (not_not_intro hb)]
        refine Or.inr (ih.mpr ⟨j, by simpa using hj, fun i hi hij => ?_, ?_⟩)
        · have hnext := hagree (i + 1) (by simpa using hi) (by omega)
          rw [Nat.add_right_comm]
          exact hnext
        · rw [Nat.add_right_comm]
          rfl

/-- The piece of the image that `cdb_bread` copies. -/
theorem piece_agrees {ptr k n j : Nat} (hj : j ≤ n) :
    (∀ i (h : i < ((List.range n).map fun i => img.byte (ptr + i)).length), i < j →
        ((List.range n).map fun i => img.byte (ptr + i))[i] = mem (k + i)) ↔
      ∀ i, i < j → img.byte (ptr + i) = mem (k + i) := by
  constructor
  · intro h i hi
    have hget := h i (by rw [List.length_map, List.length_range]; omega) hi
    rw [List.getElem_map, List.getElem_range] at hget
    exact hget
  · intro h i _ hi
    rw [List.getElem_map, List.getElem_range]
    exact h i hi

/-- A piece within the key. -/
theorem comparedTrace_within {size k : Nat} {buf : Bytes} (h : k + buf.length ≤ size) :
    AllInside L (comparedTrace size mem k buf) := by
  intro a ha
  obtain ⟨j, hj, -, rfl⟩ := mem_comparedTrace.mp ha
  show k + j < size
  omega

/-- A piece of which only `r` bytes are the key's: the comparison stays in the key unless they
all agree. -/
theorem comparedTrace_across {ptr k n r : Nat} (hr : r < n) :
    AllInside L (comparedTrace (k + r) mem k ((List.range n).map fun i => img.byte (ptr + i))) ↔
      ¬ ∀ i, i < r → img.byte (ptr + i) = mem (k + i) := by
  have hlen : ((List.range n).map fun i => img.byte (ptr + i)).length = n := by
    rw [List.length_map, List.length_range]
  constructor
  · intro h hagree
    have hpast := h _ (mem_comparedTrace.mpr
      ⟨r, by rw [hlen]; exact hr, (piece_agrees (Nat.le_of_lt hr)).mpr hagree, rfl⟩)
    exact absurd hpast (Nat.lt_irrefl _)
  · intro h a ha
    obtain ⟨j, hj, hagree, rfl⟩ := mem_comparedTrace.mp ha
    rw [hlen] at hj
    show k + j < k + r
    by_contra hge
    rw [piece_agrees (Nat.le_of_lt hj)] at hagree
    exact h fun i hi => hagree i (by omega)

/-! ## `match` -/

/-- One round inside the image. -/
theorem matchTrace_round {size n rounds ptr k : Nat} {len : UInt32} (hne : len ≠ 0)
    (hin : ptr + n ≤ img.len) :
    matchTrace img mem size n (rounds + 1) ptr k len
      = breadTrace img ptr n 32 ++
          (comparedTrace size mem k ((List.range n).map fun i => img.byte (ptr + i)) ++
            if ∀ i, i < n → img.byte (ptr + i) = mem (k + i) then
              matchTrace img mem size n rounds (ptr + n) (k + n) (len - UInt32.ofNat n)
            else []) := by
  rw [matchTrace, if_neg hne]
  simp only [cdbBread, if_neg (show ¬ ptr + n > img.len by omega)]
  by_cases h : ∀ i, i < n → img.byte (ptr + i) = mem (k + i)
  · have hchunk : (List.range n).map (fun i => img.byte (ptr + i))
        = (List.range n).map fun i => mem (k + i) :=
      List.map_inj_left.mpr fun i hi => h i (List.mem_range.mp hi)
    rw [if_neg (not_not_intro hchunk), if_pos h]
  · have hchunk : (List.range n).map (fun i => img.byte (ptr + i))
        ≠ (List.range n).map fun i => mem (k + i) := by
      intro heq
      exact h fun i hi => List.map_inj_left.mp heq i (List.mem_range.mpr hi)
    rw [if_pos hchunk, if_neg h]

/-- Past the end nothing is touched. -/
theorem matchTrace_end {size n rounds ptr k : Nat} {len : UInt32} (h : ptr + n > img.len) :
    matchTrace img mem size n rounds ptr k len = [] := by
  cases rounds with
  | zero => rfl
  | succ rounds =>
    have hbread : cdbBread img ptr n = none := if_pos h
    have htrace : breadTrace img ptr n 32 = [] := if_pos h
    rw [matchTrace, hbread, htrace]
    exact ite_self _

/-- The number of bytes that are left, after a piece. -/
theorem left_after {n rest : Nat} {len : UInt32} (hlen : len.toNat = n + rest) :
    (len - UInt32.ofNat n).toNat = rest := by
  have hmax := len.toNat_lt
  have hnn : (UInt32.ofNat n).toNat = n := by
    rw [UInt32.toNat_ofNat']
    omega
  rw [UInt32.toNat_sub_of_le _ _ (by rw [UInt32.le_iff_toNat_le, hnn]; omega), hnn]
  omega

/-- Whole pieces stay inside. -/
theorem matchTrace_whole {size n : Nat} (hn : n ≤ 32) (hL : img.len ≤ L) :
    ∀ {c rounds ptr k : Nat} {len : UInt32}, len.toNat = n * c → k + n * c ≤ size →
      AllInside L (matchTrace img mem size n rounds ptr k len) := by
  intro c
  induction c with
  | zero =>
    intro rounds ptr k len hlen _
    have hzero : len = 0 := UInt32.toNat_inj.mp hlen
    cases rounds with
    | zero => exact allInside_nil
    | succ rounds =>
      rw [matchTrace, if_pos hzero]
      exact allInside_nil
  | succ c ih =>
    intro rounds ptr k len hlen hsize
    have hmul : n * (c + 1) = n + n * c := (Nat.mul_succ n c).trans (Nat.add_comm ..)
    by_cases hend : ptr + n > img.len
    · rw [matchTrace_end hend]
      exact allInside_nil
    · cases rounds with
      | zero => exact allInside_nil
      | succ rounds =>
        by_cases hzero : len = 0
        · rw [matchTrace, if_pos hzero]
          exact allInside_nil
        · rw [matchTrace_round hzero (by omega)]
          refine allInside_append.mpr ⟨breadTrace_inside hn hL, allInside_append.mpr ⟨?_, ?_⟩⟩
          · apply comparedTrace_within
            rw [List.length_map, List.length_range]
            omega
          · split
            · exact ih (left_after (hlen.trans hmul)) (by omega)
            · exact allInside_nil

/-- With a last piece that is only partly key, they do unless the key is in the image and
the last piece too. -/
theorem matchTrace_across {r : Nat} (hr0 : 0 < r) (hr : r < 32) (hL : img.len ≤ L) :
    ∀ {c rounds ptr k : Nat} {len : UInt32}, len.toNat = 32 * c + r →
      ptr + 32 * rounds > img.len →
      (AllInside L (matchTrace img mem (k + (32 * c + r)) 32 rounds ptr k len) ↔
        ¬ (ptr + 32 * (c + 1) ≤ img.len ∧
          ∀ i, i < 32 * c + r → img.byte (ptr + i) = mem (k + i))) := by
  intro c
  induction c with
  | zero =>
    intro rounds ptr k len hlen hrounds
    have hne : len ≠ 0 := by
      intro h0
      rw [h0] at hlen
      have hz : (0 : UInt32).toNat = 0 := rfl
      omega
    by_cases hend : ptr + 32 > img.len
    · rw [matchTrace_end hend]
      exact iff_of_true allInside_nil fun h => absurd h.1 (by omega)
    · obtain ⟨rounds, rfl⟩ : ∃ m, rounds = m + 1 := ⟨rounds - 1, by omega⟩
      rw [matchTrace_round hne (by omega), allInside_append, allInside_append,
        Nat.mul_zero, Nat.zero_add, comparedTrace_across hr]
      constructor
      · intro h hkey
        exact h.2.1 hkey.2
      · intro h
        have hdiffer : ¬ ∀ i, i < r → img.byte (ptr + i) = mem (k + i) :=
          fun hagree => h ⟨by omega, hagree⟩
        refine ⟨breadTrace_inside (Nat.le_refl 32) hL, hdiffer, ?_⟩
        rw [if_neg fun hall => hdiffer fun i hi => hall i (by omega)]
        exact allInside_nil
  | succ c ih =>
    intro rounds ptr k len hlen hrounds
    have hne : len ≠ 0 := by
      intro h0
      rw [h0] at hlen
      have hz : (0 : UInt32).toNat = 0 := rfl
      omega
    by_cases hend : ptr + 32 > img.len
    · rw [matchTrace_end hend]
      exact iff_of_true allInside_nil fun h => absurd h.1 (by omega)
    · obtain ⟨rounds, rfl⟩ : ∃ m, rounds = m + 1 := ⟨rounds - 1, by omega⟩
      have hsum : 32 * (c + 1) + r = 32 + (32 * c + r) := by omega
      have hwithin : AllInside L (comparedTrace (k + (32 * (c + 1) + r)) mem k
          ((List.range 32).map fun i => img.byte (ptr + i))) := by
        apply comparedTrace_within
        rw [List.length_map, List.length_range]
        omega
      rw [matchTrace_round hne (by omega), allInside_append, allInside_append,
        and_iff_right (breadTrace_inside (Nat.le_refl 32) hL), and_iff_right hwithin, hsum]
      by_cases hall : ∀ i, i < 32 → img.byte (ptr + i) = mem (k + i)
      · have hnext : AllInside L (matchTrace img mem (k + 32 + (32 * c + r)) 32 rounds (ptr + 32)
            (k + 32) (len - UInt32.ofNat 32)) ↔
            ¬ (ptr + 32 + 32 * (c + 1) ≤ img.len ∧
              ∀ i, i < 32 * c + r → img.byte (ptr + 32 + i) = mem (k + 32 + i)) :=
          ih (left_after (hlen.trans hsum)) (by omega)
        rw [if_pos hall, agree_add, and_iff_right hall, ← Nat.add_assoc k 32 _, hnext]
        have hroom : ptr + 32 + 32 * (c + 1) = ptr + 32 * (c + 1 + 1) := by omega
        rw [hroom]
      · rw [if_neg hall]
        exact iff_of_true allInside_nil fun h => hall (agree_add.mp h.2).1

/-- `match` compares the key in whole pieces. -/
def WholePieces (keylen : Nat) : Prop := keylen ≤ 32 ∨ 32 ∣ keylen

instance (keylen : Nat) : Decidable (WholePieces keylen) :=
  inferInstanceAs (Decidable (_ ∨ _))

theorem matchKeyTrace_whole {ptr : Nat} (hL : img.len ≤ L) (hkey : key.length < 2 ^ 32)
    (hwhole : WholePieces key.length) : AllInside L (matchKeyTrace img key after ptr) := by
  have hlen : (UInt32.ofNat key.length).toNat = key.length := by
    rw [UInt32.toNat_ofNat']
    omega
  unfold matchKeyTrace
  by_cases h32 : 32 > key.length
  · rw [if_pos h32]
    exact matchTrace_whole (by omega) hL (c := 1) (by omega) (by omega)
  · rw [if_neg h32]
    have hdvd : 32 ∣ key.length := by
      rcases hwhole with h | h
      · rw [show key.length = 32 by omega]
      · exact h
    exact matchTrace_whole (Nat.le_refl 32) hL (c := key.length / 32) (by omega) (by omega)

theorem matchKeyTrace_across {ptr : Nat} (hL : img.len ≤ L) (hkey : key.length < 2 ^ 32)
    (hpieces : ¬ WholePieces key.length) :
    AllInside L (matchKeyTrace img key after ptr) ↔
      ¬ (ptr + 32 * (key.length / 32 + 1) ≤ img.len ∧
        ∀ i (h : i < key.length), img.byte (ptr + i) = key[i]) := by
  obtain ⟨h32, hdvd⟩ := not_or.mp hpieces
  have hlen : (UInt32.ofNat key.length).toNat = key.length := by
    rw [UInt32.toNat_ofNat']
    omega
  have hsplit : 32 * (key.length / 32) + key.length % 32 = key.length := Nat.div_add_mod ..
  have hmatch : AllInside L (matchTrace img (keyMem key after)
      (0 + (32 * (key.length / 32) + key.length % 32)) 32 (img.len + 2) ptr 0
      (UInt32.ofNat key.length)) ↔
      ¬ (ptr + 32 * (key.length / 32 + 1) ≤ img.len ∧
        ∀ i, i < 32 * (key.length / 32) + key.length % 32 →
          img.byte (ptr + i) = keyMem key after (0 + i)) :=
    matchTrace_across (by omega) (Nat.mod_lt _ (by omega)) hL (hlen.trans hsplit.symm) (by omega)
  rw [hsplit, Nat.zero_add] at hmatch
  unfold matchKeyTrace
  rw [if_neg (show ¬ 32 > key.length by omega), hmatch]
  refine not_congr (and_congr_right fun _ => ?_)
  constructor
  · intro h i hi
    rw [h i hi, Nat.zero_add, keyMem_lt hi]
  · intro h i hi
    rw [h i hi, Nat.zero_add, keyMem_lt hi]

/-! ## The slots -/

/-- The slot at this offset refers to a record of the key at `q`. -/
structure HoldsKey (img : Image) (key : Bytes) (slot q : Nat) : Prop where
  within : slot + 8 ≤ img.len
  used : img.word (slot + 4) ≠ 0
  pos : (img.word (slot + 4)).toNat = q
  hash : img.word slot = cdbHash key
  inside : q + 8 + key.length ≤ img.len
  klen : (img.word q).toNat = key.length
  bytes : ∀ i (h : i < key.length), img.byte (q + 8 + i) = key[i]

/-- The last piece of 32 bytes that `match` reads of it passes the end of the key, and is
inside the image. -/
def PassesKey (img : Image) (keylen q : Nat) : Prop :=
  ¬ WholePieces keylen ∧ q + 8 + 32 * (keylen / 32 + 1) ≤ img.len

/-- What is touched for one slot. -/
def slotTrace (img : Image) (key : Bytes) (after : Nat → Byte) (slot : Nat) : List Access :=
  breadTrace img slot 8 8 ++
    if slot + 8 ≤ img.len ∧ img.word (slot + 4) ≠ 0 ∧ img.word slot = cdbHash key then
      compareTrace img key after (img.word (slot + 4))
    else []

theorem compareTrace_inside (hL : img.len ≤ L) (hkey : key.length < 2 ^ 32) {poskd : UInt32} :
    AllInside L (compareTrace img key after poskd) ↔
      ¬ (PassesKey img key.length poskd.toNat ∧ (img.word poskd.toNat).toNat = key.length ∧
        ∀ i (h : i < key.length), img.byte (poskd.toNat + 8 + i) = key[i]) := by
  unfold compareTrace
  by_cases hin : poskd.toNat + 8 > img.len
  · have hbread : cdbBread img poskd.toNat 8 = none := if_pos hin
    have htrace : breadTrace img poskd.toNat 8 8 = [] := if_pos hin
    rw [hbread, htrace]
    refine iff_of_true ?_ fun h => absurd h.1.2 (by omega)
    split
    · exact allInside_nil
    · exact allInside_nil
  · obtain ⟨buf, hread, hword, -⟩ := cdbBread_word img poskd.toNat (by omega)
    have hklen : img.word poskd.toNat = UInt32.ofNat key.length ↔
        (img.word poskd.toNat).toNat = key.length := by
      rw [← UInt32.toNat_inj, UInt32.toNat_ofNat', Nat.mod_eq_of_lt hkey]
    rw [if_neg (show ¬ poskd.toNat > img.len by omega), allInside_append,
      and_iff_right (breadTrace_inside (Nat.le_refl 8) hL), hread]
    dsimp only
    rw [hword]
    by_cases hk : (img.word poskd.toNat).toNat = key.length
    · rw [if_pos (hklen.mpr hk)]
      by_cases hwhole : WholePieces key.length
      · exact iff_of_true (matchKeyTrace_whole hL hkey hwhole) fun h => h.1.1 hwhole
      · rw [matchKeyTrace_across hL hkey hwhole]
        refine not_congr ⟨fun h => ⟨⟨hwhole, h.1⟩, hk, h.2⟩, fun h => ⟨h.1.2, h.2.2⟩⟩
    · rw [if_neg fun h => hk (hklen.mp h)]
      exact iff_of_true allInside_nil fun h => hk h.2.1

/-- A slot stays inside unless the key's record is there and `match` reads on behind the
key. -/
theorem slotTrace_inside (hL : img.len ≤ L) (hkey : key.length < 2 ^ 32) {slot : Nat} :
    AllInside L (slotTrace img key after slot) ↔
      ∀ q, HoldsKey img key slot q → ¬ PassesKey img key.length q := by
  unfold slotTrace
  rw [allInside_append, and_iff_right (breadTrace_inside (Nat.le_refl 8) hL)]
  by_cases hslot : slot + 8 ≤ img.len ∧ img.word (slot + 4) ≠ 0 ∧ img.word slot = cdbHash key
  · obtain ⟨hin, hused, hhash⟩ := id hslot
    rw [if_pos hslot, compareTrace_inside hL hkey]
    constructor
    · intro h q hq hpass
      obtain rfl := hq.pos
      exact h ⟨hpass, hq.klen, hq.bytes⟩
    · intro h ⟨hpass, hklen, hbytes⟩
      have hroom := hpass.2
      refine h _ ⟨hin, hused, rfl, hhash, ?_, hklen, hbytes⟩ hpass
      have hdiv := Nat.div_add_mod key.length 32
      omega
  · rw [if_neg hslot]
    exact iff_of_true allInside_nil fun q hq _ => hslot ⟨hq.within, hq.used, hq.hash⟩

/-- The offset of a slot. -/
def slotAt (pos : UInt32) (slot : Nat) : Nat := (pos.toNat + 8 * slot) % 2 ^ 32

/-- One round of the loop. -/
theorem loopTrace_round (hkey : key.length < 2 ^ 32) (pos lenhash : UInt32) (m : Nat)
    (h2 : UInt32) :
    loopTrace img key after (cdbHash key) pos lenhash (m + 1) h2
      = slotTrace img key after (slotAt pos h2.toNat) ++
        if (slotVerdict img key after (slotAt pos h2.toNat)).isNone then
          loopTrace img key after (cdbHash key) pos lenhash m
            (if h2 + 1 = lenhash then 0 else h2 + 1)
        else [] := by
  have hcur : (pos + 8 * h2).toNat = slotAt pos h2.toNat := by
    rw [UInt32.toNat_add, UInt32.toNat_mul]
    show (pos.toNat + 8 * h2.toNat % 2 ^ 32) % 2 ^ 32 = (pos.toNat + 8 * h2.toNat) % 2 ^ 32
    omega
  rw [loopTrace, hcur]
  generalize slotAt pos h2.toNat = slot
  unfold slotTrace
  by_cases hin : slot + 8 > img.len
  · have hbread : cdbBread img slot 8 = none := if_pos hin
    have htrace : breadTrace img slot 8 8 = [] := if_pos hin
    have hverdict : slotVerdict img key after slot = some .ioError := if_pos hin
    have hnot : ¬ (slot + 8 ≤ img.len ∧ img.word (slot + 4) ≠ 0 ∧ img.word slot = cdbHash key) :=
      fun h => absurd h.1 (by omega)
    rw [hbread, htrace, hverdict, if_neg hnot]
    exact ite_self _
  · obtain ⟨buf, hread, hword, hword'⟩ := cdbBread_word img slot (by omega)
    have hverdict : slotVerdict img key after slot
        = if img.word (slot + 4) = 0 then some .absent
          else if img.word slot = cdbHash key then cdbCompare img key after (img.word (slot + 4))
          else none := by
      rw [cdbCompare_eq hkey]
      exact if_neg hin
    simp only [if_neg (show ¬ slot > img.len by omega), hread, hword, hword', hverdict]
    by_cases hempty : img.word (slot + 4) = 0
    · have hnot : ¬ (slot + 8 ≤ img.len ∧ img.word (slot + 4) ≠ 0 ∧
          img.word slot = cdbHash key) := fun h => h.2.1 hempty
      rw [if_pos hempty, if_pos hempty, if_neg hnot, List.append_nil]
      exact (List.append_nil _).symm
    · rw [if_neg hempty, if_neg hempty]
      by_cases hhash : img.word slot = cdbHash key
      · have hcand : slot + 8 ≤ img.len ∧ img.word (slot + 4) ≠ 0 ∧
            img.word slot = cdbHash key := ⟨by omega, hempty, hhash⟩
        rw [if_pos hhash, if_pos hhash, if_pos hcand, List.append_assoc]
        cases cdbCompare img key after (img.word (slot + 4)) with
        | none => rfl
        | some r => rfl
      · have hnot : ¬ (slot + 8 ≤ img.len ∧ img.word (slot + 4) ≠ 0 ∧
            img.word slot = cdbHash key) := fun h => hhash h.2.2
        rw [if_neg hhash, if_neg hhash, if_neg hnot, List.append_nil]
        rfl

/-- The loop touches what its slots do, up to the first decisive one. -/
theorem loopTrace_eq (hkey : key.length < 2 ^ 32) {pos lenhash : UInt32} (hsize : lenhash ≠ 0)
    {s : Nat} :
    ∀ {m k : Nat} {h2 : UInt32}, h2.toNat = (s + k) % lenhash.toNat →
      loopTrace img key after (cdbHash key) pos lenhash m h2
        = (examined (fun slot => slotVerdict img key after (slotAt pos slot))
            ((List.range' k m).map fun j => (s + j) % lenhash.toNat)).flatMap
              fun slot => slotTrace img key after (slotAt pos slot) := by
  intro m
  induction m with
  | zero => intro k h2 _; rfl
  | succ m ih =>
    intro k h2 hh2
    rw [loopTrace_round hkey, List.range'_succ, List.map_cons, examined, List.flatMap_cons, ← hh2,
      ih (next_slot hsize hh2)]
    split
    · rfl
    · rfl

/-! ## The lookup -/

/-- The record of the key that the probing comes to: one of the slots up to the first
decisive one refers to it. -/
def ComesTo (img : Image) (key : Bytes) (after : Nat → Byte) (q : Nat) : Prop :=
  let table := 8 * (cdbHash key &&& 255).toNat
  table + 8 ≤ img.len ∧ img.word (table + 4) ≠ 0 ∧
    ∃ slot ∈ examined (fun slot => slotVerdict img key after (slotAt (img.word table) slot))
        (slotOrder key (img.word (table + 4))),
      HoldsKey img key (slotAt (img.word table) slot) q

/-- **When `cdb_find` stays inside.** Always in the image; in the key if and only if `match`
does not read on behind it in a record that has it. -/
theorem findTrace_inside (hL : img.len ≤ L) (hkey : key.length < 2 ^ 32) :
    AllInside L (findTrace img key after) ↔
      ∀ q, ComesTo img key after q → ¬ PassesKey img key.length q := by
  have ht : (cdbHash key &&& 255).toNat < 256 := by
    rw [UInt32.toNat_and]
    have hle : (cdbHash key).toNat &&& (255 : UInt32).toNat ≤ 255 := Nat.and_le_right
    omega
  have hcur : (8 * (cdbHash key &&& 255)).toNat = 8 * (cdbHash key &&& 255).toNat := by
    rw [UInt32.toNat_mul]
    show 8 * (cdbHash key &&& 255).toNat % 2 ^ 32 = _
    omega
  have hhash : AllInside L ((List.range key.length).map fun i => .key key.length i) := by
    intro a ha
    obtain ⟨i, hi, rfl⟩ := List.mem_map.mp ha
    exact List.mem_range.mp hi
  unfold findTrace ComesTo
  simp only [hcur]
  rw [allInside_append, and_iff_right hhash]
  generalize 8 * (cdbHash key &&& 255).toNat = table
  by_cases hin : table + 8 > img.len
  · have hbread : cdbBread img table 8 = none := if_pos hin
    have htrace : breadTrace img table 8 8 = [] := if_pos hin
    rw [hbread, htrace]
    refine iff_of_true ?_ fun q hq => absurd hq.1 (by omega)
    split
    · exact allInside_nil
    · exact allInside_nil
  · obtain ⟨buf, hread, hword, hword'⟩ := cdbBread_word img table (by omega)
    simp only [if_neg (show ¬ table > img.len by omega), hread, hword, hword']
    rw [allInside_append, and_iff_right (breadTrace_inside (Nat.le_refl 8) hL)]
    by_cases hsize : img.word (table + 4) = 0
    · rw [if_pos hsize]
      exact iff_of_true allInside_nil fun q hq => absurd hsize hq.2.1
    · have hstart : ((cdbHash key >>> 8) % img.word (table + 4)).toNat
          = ((cdbHash key >>> 8).toNat % (img.word (table + 4)).toNat + 0)
            % (img.word (table + 4)).toNat := by
        simp [UInt32.toNat_mod]
      rw [if_neg hsize, loopTrace_eq hkey hsize hstart, ← List.range_eq_range', allInside_flatMap]
      constructor
      · intro h q ⟨_, _, slot, hslot, hq⟩
        exact (slotTrace_inside hL hkey).mp (h slot hslot) q hq
      · intro h slot hslot
        refine (slotTrace_inside hL hkey).mpr fun q hq => h q ⟨by omega, hsize, slot, hslot, hq⟩

/-- When `match` says that the key is there. -/
theorem matchKey_found {ptr : Nat} (hkey : key.length < 2 ^ 32) (hptr : ptr ≤ img.len) :
    (∃ p, matchKey img key after ptr = .equal p) ↔
      WholePieces key.length ∧ ptr + key.length ≤ img.len ∧
        ∀ i (h : i < key.length), img.byte (ptr + i) = key[i] := by
  constructor
  · intro ⟨p, h⟩
    obtain ⟨hwhole, rfl, hend⟩ := matchKey_equal hkey h
    rw [matchKey_decides (hend hptr) hkey hwhole] at h
    refine ⟨hwhole, hend hptr, ?_⟩
    by_contra hne
    rw [if_neg hne] at h
    exact absurd h (by simp)
  · intro ⟨hwhole, hin, hbytes⟩
    exact ⟨_, (matchKey_decides hin hkey hwhole).trans (if_pos hbytes)⟩

/-- When a slot decides that the key is there. -/
theorem slotVerdict_found (hkey : key.length < 2 ^ 32) {slot ret : Nat} {retlen : UInt32} :
    slotVerdict img key after slot = some (.found ret retlen) ↔
      WholePieces key.length ∧ ∃ q, HoldsKey img key slot q ∧ ret = q + 8 + key.length ∧
        retlen = img.word (q + 4) := by
  unfold slotVerdict
  by_cases hin : slot + 8 > img.len
  · rw [if_pos hin]
    refine iff_of_false (by simp) ?_
    intro ⟨_, q, hq, _⟩
    exact absurd hq.within (by omega)
  by_cases hempty : img.word (slot + 4) = 0
  · rw [if_neg hin, if_pos hempty]
    refine iff_of_false (by simp) ?_
    intro ⟨_, q, hq, _⟩
    exact hq.used hempty
  by_cases hhash : img.word slot = cdbHash key
  · rw [if_neg hin, if_neg hempty, if_pos hhash]
    dsimp only
    by_cases hrec : (img.word (slot + 4)).toNat + 8 > img.len
    · rw [if_pos hrec]
      refine iff_of_false (by simp) ?_
      intro ⟨_, q, hq, _⟩
      obtain rfl := hq.pos
      exact absurd hq.inside (by omega)
    by_cases hklen : (img.word (img.word (slot + 4)).toNat).toNat = key.length
    · have hfound : (∃ p, matchKey img key after ((img.word (slot + 4)).toNat + 8) = .equal p) ↔
          WholePieces key.length ∧ (img.word (slot + 4)).toNat + 8 + key.length ≤ img.len ∧
            ∀ i (h : i < key.length), img.byte ((img.word (slot + 4)).toNat + 8 + i) = key[i] :=
        matchKey_found hkey (Nat.le_of_not_lt hrec)
      rw [if_neg hrec, if_pos hklen]
      constructor
      · intro h
        cases hmatch : matchKey img key after ((img.word (slot + 4)).toNat + 8) with
        | ioError => rw [hmatch] at h; exact absurd h (by simp)
        | differ => rw [hmatch] at h; exact absurd h (by simp)
        | equal p =>
          rw [hmatch] at h
          obtain ⟨hret, hretlen⟩ := FindResult.found.inj (Option.some.inj h)
          obtain ⟨hwhole, hinside, hbytes⟩ := hfound.mp ⟨p, hmatch⟩
          exact ⟨hwhole, _, ⟨by omega, hempty, rfl, hhash, hinside, hklen, hbytes⟩, hret.symm,
            hretlen.symm⟩
      · rintro ⟨hwhole, q, hq, rfl, rfl⟩
        obtain rfl := hq.pos
        obtain ⟨p, hp⟩ := hfound.mpr ⟨hwhole, hq.inside, hq.bytes⟩
        rw [hp]
    · rw [if_neg hrec, if_neg hklen]
      refine iff_of_false (by simp) ?_
      intro ⟨_, q, hq, _⟩
      obtain rfl := hq.pos
      exact hklen hq.klen
  · rw [if_neg hin, if_neg hempty, if_neg hhash]
    refine iff_of_false (by simp) ?_
    intro ⟨_, q, hq, _⟩
    exact hhash hq.hash

/-- `cdb_find` returns the record the probing comes to, if it compares the key in whole
pieces. -/
theorem cdbFind_found (hkey : key.length < 2 ^ 32) {ret : Nat} {retlen : UInt32} :
    cdbFind img key after = .found ret retlen ↔
      WholePieces key.length ∧ ∃ q, ComesTo img key after q ∧ ret = q + 8 + key.length ∧
        retlen = img.word (q + 4) := by
  rw [cdbFind_eq img key after hkey]
  unfold probeFind ComesTo
  dsimp only
  generalize 8 * (cdbHash key &&& 255).toNat = table
  by_cases hin : table + 8 > img.len
  · rw [if_pos hin]
    refine iff_of_false (by simp) ?_
    intro ⟨_, q, hq, _⟩
    exact absurd hq.1 (by omega)
  by_cases hsize : img.word (table + 4) = 0
  · rw [if_neg hin, if_pos hsize]
    refine iff_of_false (by simp) ?_
    intro ⟨_, q, hq, _⟩
    exact hq.2.1 hsize
  rw [if_neg hin, if_neg hsize]
  have hget : ∀ o : Option FindResult, o.getD .absent = .found ret retlen ↔
      o = some (.found ret retlen) := by
    intro o
    cases o with
    | none => simp
    | some r => simp
  rw [hget, findSome?_examined]
  constructor
  · intro ⟨slot, hslot, hverdict⟩
    obtain ⟨hwhole, q, hq, hret, hretlen⟩ := (slotVerdict_found hkey).mp hverdict
    exact ⟨hwhole, q, ⟨by omega, hsize, slot, hslot, hq⟩, hret, hretlen⟩
  · intro ⟨hwhole, q, ⟨_, _, slot, hslot, hq⟩, hret, hretlen⟩
    exact ⟨slot, hslot, (slotVerdict_found hkey).mpr ⟨hwhole, q, hq, hret, hretlen⟩⟩

end Nastd.Server
