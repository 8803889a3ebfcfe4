import Nastd.Server.CdbFind
import Nastd.Lib.Probe

/-!
# `cdb_find` on a well-formed file

`Layout img recs` says that the image lays out the records in the constant-database
format: a pointer for each of 256 tables, every record as two lengths, key and data,
and every table filled by linear probing in list order.

On such an image the probing can be forgotten: `cdbFind_eq_scan` reduces `cdb_find`
to a scan of the record list in its order, comparing keys with `match` wherever the
hash agrees. What is left is `match`. For a key of at most 32 bytes, or of a multiple
of 32, it decides equality (`matchKey_whole`). For any other length its last round
compares 32 bytes where fewer are left, the length wraps below zero, and it can only
find a difference or run past the end of the file (`matchKey_partial`): it never says
that the key is there.
-/

namespace Nastd.Server

open Nastd.Lib

/-- One record and where the image holds it. -/
structure Record where
  key : Bytes
  data : Bytes
  pos : Nat

/-- The number stored at a position. -/
def Image.word (img : Image) (p : Nat) : UInt32 :=
  cdbUnpack ((List.range 4).map fun i => img.byte (p + i))

/-- The record's lengths, key and data are at its position, behind the 256 table
pointers and inside the image. -/
structure Image.Holds (img : Image) (r : Record) : Prop where
  behind : 2048 ≤ r.pos
  inside : r.pos + 8 + r.key.length + r.data.length ≤ img.len
  klen : (img.word r.pos).toNat = r.key.length
  dlen : (img.word (r.pos + 4)).toNat = r.data.length
  key : ∀ i (h : i < r.key.length), img.byte (r.pos + 8 + i) = r.key[i]
  data : ∀ i (h : i < r.data.length), img.byte (r.pos + 8 + r.key.length + i) = r.data[i]

/-- The table a key belongs to. -/
def tableOf (key : Bytes) : UInt32 := cdbHash key &&& 255

/-- The slot of a table where the probing for a key begins. -/
def slotFrom (size : Nat) (key : Bytes) : Nat := (cdbHash key >>> 8).toNat % size

/-- Table `t` of the image holds the records with that table number, entered one
after the other. -/
structure Image.HoldsTable (img : Image) (recs : List Record) (t : Nat) : Prop where
  inside : (img.word (8 * t)).toNat + 8 * (img.word (8 * t + 4)).toNat ≤ img.len
  filled : ∃ slots,
    probeFill (img.word (8 * t + 4)).toNat (fun r => slotFrom (img.word (8 * t + 4)).toNat r.key)
      (fun _ => none) (recs.filter fun r => decide ((tableOf r.key).toNat = t)) = some slots ∧
    ∀ i, i < (img.word (8 * t + 4)).toNat →
      match slots i with
      | none => img.word ((img.word (8 * t)).toNat + 8 * i + 4) = 0
      | some r => img.word ((img.word (8 * t)).toNat + 8 * i) = cdbHash r.key ∧
        (img.word ((img.word (8 * t)).toNat + 8 * i + 4)).toNat = r.pos

/-- The image lays out the records. -/
structure Layout (img : Image) (recs : List Record) : Prop where
  small : img.len < 2 ^ 32
  header : 2048 ≤ img.len
  held : ∀ r ∈ recs, img.Holds r
  table : ∀ t, t < 256 → img.HoldsTable recs t

variable {img : Image} {recs : List Record} {key : Bytes} {after : Nat → Byte}

/-! ## Reading words -/

/-- Eight bytes inside the image are two words. -/
theorem cdbBread_word (img : Image) (p : Nat) (h : p + 8 ≤ img.len) :
    ∃ buf, cdbBread img p 8 = some (buf, p + 8) ∧ cdbUnpack buf = img.word p ∧
      cdbUnpack (buf.drop 4) = img.word (p + 4) := by
  refine ⟨_, if_neg (by omega), rfl, ?_⟩
  unfold Image.word cdbUnpack
  simp [List.range_succ, Nat.add_assoc]

/-! ## From slots to records -/

/-- The scan the probing amounts to: the first record with the right hash on which
`cdbCompare` does not go on. -/
def scanRecords (img : Image) (key : Bytes) (after : Nat → Byte) : List Record → FindResult
  | [] => .absent
  | r :: rs =>
    if cdbHash r.key = cdbHash key then
      match cdbCompare img key after (UInt32.ofNat r.pos) with
      | some x => x
      | none => scanRecords img key after rs
    else scanRecords img key after rs

/-- The scan passes over a record of another hash, or on which the comparison goes on. -/
theorem scanRecords_skip {r : Record} {rs : List Record}
    (h : cdbHash r.key = cdbHash key → cdbCompare img key after (UInt32.ofNat r.pos) = none) :
    scanRecords img key after (r :: rs) = scanRecords img key after rs := by
  rw [scanRecords]
  by_cases hr : cdbHash r.key = cdbHash key
  · rw [if_pos hr, h hr]
  · rw [if_neg hr]

/-- The scan ends where the comparison does. -/
theorem scanRecords_stop {r : Record} {rs : List Record} {x : FindResult}
    (hr : cdbHash r.key = cdbHash key)
    (h : cdbCompare img key after (UInt32.ofNat r.pos) = some x) :
    scanRecords img key after (r :: rs) = x := by
  rw [scanRecords, if_pos hr, h]

/-- Records with another hash do not matter. -/
theorem scanRecords_filter (l : List Record) :
    scanRecords img key after (l.filter fun r => decide (cdbHash r.key = cdbHash key))
      = scanRecords img key after l := by
  induction l with
  | nil => rfl
  | cons r rs ih =>
    by_cases hr : cdbHash r.key = cdbHash key
    · rw [List.filter_cons_of_pos (by simpa using hr), scanRecords, scanRecords, if_pos hr,
        if_pos hr, ih]
    · rw [List.filter_cons_of_neg (by simpa using hr), scanRecords, if_neg hr, ih]

/-- The next slot, as the code counts it. -/
theorem next_slot {size h2 : UInt32} {s k : Nat} (hsize : size ≠ 0)
    (hh2 : h2.toNat = (s + k) % size.toNat) :
    (if h2 + 1 = size then 0 else h2 + 1 : UInt32).toNat = (s + (k + 1)) % size.toNat := by
  have hpos : 0 < size.toNat := by
    rw [Nat.pos_iff_ne_zero]
    intro h0
    exact hsize (UInt32.toNat_inj.mp h0)
  have hlt : h2.toNat < size.toNat := by
    rw [hh2]
    exact Nat.mod_lt _ hpos
  have hmax : size.toNat < 4294967296 := size.toNat_lt
  have hadd : (h2 + 1).toNat = h2.toNat + 1 := by
    rw [UInt32.toNat_add]
    show (h2.toNat + 1) % 4294967296 = h2.toNat + 1
    omega
  have hsucc : (s + (k + 1)) % size.toNat = (h2.toNat + 1) % size.toNat := by
    rw [hh2, ← Nat.add_assoc, Nat.mod_add_mod]
  rw [hsucc]
  by_cases heq : h2 + 1 = size
  · have hend : h2.toNat + 1 = size.toNat := by rw [← hadd, heq]
    rw [if_pos heq, hend, Nat.mod_self]
    rfl
  · have hne : h2.toNat + 1 ≠ size.toNat := fun he => heq (UInt32.toNat_inj.mp (hadd.trans he))
    rw [if_neg heq, hadd, Nat.mod_eq_of_lt (by omega)]

/-- The loop over the slots is a scan of the records met. -/
theorem cdbLoop_eq_scan {pos size : UInt32} {s : Nat} {slots : Nat → Option Record}
    (hsize : size ≠ 0) (hin : pos.toNat + 8 * size.toNat ≤ img.len) (hsmall : img.len < 2 ^ 32)
    (hslots : ∀ i, i < size.toNat →
      match slots i with
      | none => img.word (pos.toNat + 8 * i + 4) = 0
      | some r => img.word (pos.toNat + 8 * i) = cdbHash r.key ∧
        (img.word (pos.toNat + 8 * i + 4)).toNat = r.pos)
    (hbehind : ∀ i r, slots i = some r → 2048 ≤ r.pos) :
    ∀ {m k : Nat} {h2 : UInt32}, h2.toNat = (s + k) % size.toNat →
      cdbLoop img key after (cdbHash key) pos size m h2
        = scanRecords img key after (visits size.toNat slots s m k) := by
  intro m
  induction m with
  | zero => intro k h2 _; rfl
  | succ m ih =>
    intro k h2 hh2
    have hpos : 0 < size.toNat := by
      rw [Nat.pos_iff_ne_zero]
      intro h0
      exact hsize (UInt32.toNat_inj.mp h0)
    have hlt : h2.toNat < size.toNat := by
      rw [hh2]
      exact Nat.mod_lt _ hpos
    -- the table lies inside a small image, so the 32-bit sum does not wrap
    have hcur : (pos + 8 * h2).toNat = pos.toNat + 8 * h2.toNat := by
      rw [UInt32.toNat_add, UInt32.toNat_mul]
      show (pos.toNat + 8 * h2.toNat % 2 ^ 32) % 2 ^ 32 = _
      omega
    obtain ⟨buf, hread, hword, hword'⟩ := cdbBread_word img (pos.toNat + 8 * h2.toNat) (by omega)
    have hnext := ih (next_slot hsize hh2)
    have hslot := hslots h2.toNat hlt
    rw [cdbLoop, visits, ← hh2]
    simp only [hcur, if_neg (show ¬ pos.toNat + 8 * h2.toNat > img.len by omega), hread, hword,
      hword']
    cases hr : slots h2.toNat with
    | none =>
      rw [hr] at hslot
      rw [if_pos hslot]
      rfl
    | some r =>
      -- a record lies behind the 2048 bytes of table pointers, so its position is not 0
      rw [hr] at hslot
      obtain ⟨hhash, hrpos⟩ := hslot
      have hr0 : img.word (pos.toNat + 8 * h2.toNat + 4) ≠ 0 := by
        intro h0
        have hb := hbehind _ r hr
        rw [h0] at hrpos
        have hz : (0 : UInt32).toNat = 0 := rfl
        omega
      have hrof : img.word (pos.toNat + 8 * h2.toNat + 4) = UInt32.ofNat r.pos := by
        rw [← hrpos, UInt32.ofNat_toNat]
      rw [if_neg hr0, hhash, hrof, hnext]
      rfl

/-- **On a well-formed file `cdb_find` scans the records in list order.** -/
theorem cdbFind_eq_scan (hl : Layout img recs) :
    cdbFind img key after = scanRecords img key after recs := by
  have ht : (tableOf key).toNat < 256 := by
    unfold tableOf
    rw [UInt32.toNat_and]
    have hle : (cdbHash key).toNat &&& (255 : UInt32).toNat ≤ 255 := Nat.and_le_right
    omega
  have hcur : (8 * tableOf key).toNat = 8 * (tableOf key).toNat := by
    rw [UInt32.toNat_mul]
    show 8 * (tableOf key).toNat % 2 ^ 32 = _
    omega
  have hheader := hl.header
  obtain ⟨buf, hread, hword, hword'⟩ := cdbBread_word img (8 * (tableOf key).toNat) (by omega)
  obtain ⟨hin, slots, hfill, hslots⟩ := hl.table _ ht
  have hcur' : (8 * (cdbHash key &&& 255)).toNat = 8 * (tableOf key).toNat := hcur
  have hnot : ¬ 8 * (tableOf key).toNat > img.len := by omega
  simp only [cdbFind, hcur', if_neg hnot, hread, hword, hword']
  -- what is met from the key's slot, cut down to the key's hash, is the list cut down to it
  have hmet : ∀ {size : Nat} {T : Nat → Option Record},
      probeFill size (fun r => slotFrom size r.key) (fun _ => none)
        (recs.filter fun r => decide ((tableOf r.key).toNat = (tableOf key).toNat)) = some T →
      (visits size T (slotFrom size key) size 0).filter
          (fun r => decide (cdbHash r.key = cdbHash key))
        = recs.filter fun r => decide (cdbHash r.key = cdbHash key) := by
    intro size T hT
    have hvisits := visits_fill settled_empty hT (slotFrom size key)
    have hempty :
        visits size (fun _ => (none : Option Record)) (slotFrom size key) size 0 = [] := by
      cases size <;> rfl
    rw [hempty, List.filter_nil, List.nil_append, List.filter_filter] at hvisits
    have hcut := congrArg (List.filter fun r => decide (cdbHash r.key = cdbHash key)) hvisits
    rw [List.filter_filter, List.filter_filter] at hcut
    refine Eq.trans (List.filter_congr fun r _ => ?_) (hcut.trans (List.filter_congr fun r _ => ?_))
    · by_cases hr : cdbHash r.key = cdbHash key
      · simp [slotFrom, hr]
      · simp [hr]
    · by_cases hr : cdbHash r.key = cdbHash key
      · simp [slotFrom, tableOf, hr]
      · simp [hr]
  by_cases hsize : img.word (8 * (tableOf key).toNat + 4) = 0
  · -- an empty table: no record has this table number
    rw [if_pos hsize]
    rw [hsize] at hfill
    rw [← scanRecords_filter, ← hmet hfill]
    rfl
  · rw [if_neg hsize, ← scanRecords_filter recs, ← hmet hfill, scanRecords_filter]
    have hs : ((cdbHash key >>> 8) % img.word (8 * (tableOf key).toNat + 4)).toNat
        = (slotFrom (img.word (8 * (tableOf key).toNat + 4)).toNat key + 0)
          % (img.word (8 * (tableOf key).toNat + 4)).toNat := by
      simp [slotFrom, UInt32.toNat_mod]
    refine cdbLoop_eq_scan hsize hin hl.small hslots ?_ hs
    intro i r hi
    rcases probeFill_mem hfill i r hi with hnone | hmem
    · exact absurd hnone (by simp)
    · exact (hl.held r (List.mem_filter.mp hmem).1).behind

/-! ## `match` -/

/-- Bytes agree over two stretches exactly if they agree over each. -/
theorem agree_add {f g : Nat → Byte} {ptr k a b : Nat} :
    (∀ i, i < a + b → f (ptr + i) = g (k + i)) ↔
      (∀ i, i < a → f (ptr + i) = g (k + i)) ∧
        ∀ i, i < b → f (ptr + a + i) = g (k + a + i) := by
  constructor
  · intro h
    refine ⟨fun i hi => h i (by omega), fun i hi => ?_⟩
    have hi' := h (a + i) (by omega)
    rw [← Nat.add_assoc, ← Nat.add_assoc] at hi'
    exact hi'
  · intro ⟨hfirst, hsecond⟩ i hi
    by_cases hia : i < a
    · exact hfirst i hia
    · have hi' := hsecond (i - a) (by omega)
      rw [show ptr + a + (i - a) = ptr + i by omega,
        show k + a + (i - a) = k + i by omega] at hi'
      exact hi'

/-- One round of `match` inside the image. -/
theorem matchLoop_round {mem : Nat → Byte} {n rounds ptr k : Nat} {len : UInt32} (hne : len ≠ 0)
    (hin : ptr + n ≤ img.len) :
    matchLoop img mem n (rounds + 1) ptr k len
      = if ∀ i, i < n → img.byte (ptr + i) = mem (k + i) then
          matchLoop img mem n rounds (ptr + n) (k + n) (len - UInt32.ofNat n)
        else .differ := by
  have hchunk : (List.range n).map (fun i => img.byte (ptr + i))
      = (List.range n).map (fun i => mem (k + i)) ↔
        ∀ i, i < n → img.byte (ptr + i) = mem (k + i) := by
    rw [List.map_inj_left]
    exact forall_congr' fun i => imp_congr_left List.mem_range
  rw [matchLoop, if_neg hne]
  simp only [cdbBread, if_neg (show ¬ ptr + n > img.len by omega)]
  by_cases h : ∀ i, i < n → img.byte (ptr + i) = mem (k + i)
  · rw [if_neg (not_not_intro (hchunk.mpr h)), if_pos h]
  · rw [if_pos (fun heq => h (hchunk.mp heq)), if_neg h]

/-- The rounds of `match` where `n` divides what is left: they decide whether the image
continues with the key. -/
theorem matchLoop_whole {mem : Nat → Byte} {n : Nat} (hn : n < 2 ^ 32) :
    ∀ {c rounds ptr k : Nat} {len : UInt32}, len.toNat = n * c → (c = 0 ∨ 0 < n) → c < rounds →
      ptr + n * c ≤ img.len →
      matchLoop img mem n rounds ptr k len
        = if ∀ i, i < n * c → img.byte (ptr + i) = mem (k + i) then .equal (ptr + n * c)
          else .differ := by
  intro c
  induction c with
  | zero =>
    intro rounds ptr k len hlen _ hrounds hin
    cases rounds with
    | zero => omega
    | succ rounds =>
      have hzero : len = 0 := UInt32.toNat_inj.mp (by rw [hlen]; rfl)
      rw [matchLoop, if_pos hzero, if_pos (fun i hi => absurd hi (by omega))]
      rfl
  | succ c ih =>
    intro rounds ptr k len hlen hpos hrounds hin
    cases rounds with
    | zero => omega
    | succ rounds =>
      have hn0 : 0 < n := by
        rcases hpos with h | h
        · omega
        · exact h
      have hmul : n * (c + 1) = n + n * c := (Nat.mul_succ n c).trans (Nat.add_comm ..)
      have hne : len ≠ 0 := by
        intro h0
        rw [h0] at hlen
        have hz : (0 : UInt32).toNat = 0 := rfl
        omega
      have hnn : (UInt32.ofNat n).toNat = n := by
        rw [UInt32.toNat_ofNat']
        omega
      have hsub : (len - UInt32.ofNat n).toNat = n * c := by
        rw [UInt32.toNat_sub_of_le _ _ (by rw [UInt32.le_iff_toNat_le, hnn]; omega), hnn]
        omega
      rw [matchLoop_round hne (by omega), ih hsub (Or.inr hn0) (by omega) (by omega), hmul,
        ← Nat.add_assoc]
      -- the first piece and the rest agree, or one of them does not
      by_cases hchunk : ∀ i, i < n → img.byte (ptr + i) = mem (k + i)
      · rw [if_pos hchunk]
        exact if_congr (agree_add.trans (and_iff_right hchunk)).symm rfl rfl
      · rw [if_neg hchunk, if_neg fun h => hchunk (agree_add.mp h).1]

/-- Comparing 32 bytes at a time, the image from `ptr` with the memory from `k`, the
image ends before a difference is met. -/
def Overruns (img : Image) (mem : Nat → Byte) (ptr k : Nat) : Prop :=
  ∃ c, ptr + 32 * (c + 1) > img.len ∧ ∀ i, i < 32 * c → img.byte (ptr + i) = mem (k + i)

/-- The rounds of `match` where 32 does not divide what is left: the length never
becomes 0. -/
theorem matchLoop_partial {mem : Nat → Byte} :
    ∀ {rounds ptr k : Nat} {len : UInt32}, len.toNat % 32 ≠ 0 →
      ptr + 32 * rounds > img.len →
      (Overruns img mem ptr k →
        matchLoop img mem 32 rounds ptr k len = .ioError) ∧
      (¬ Overruns img mem ptr k →
        matchLoop img mem 32 rounds ptr k len = .differ) := by
  intro rounds
  induction rounds with
  | zero =>
    intro ptr k len _ hend
    refine ⟨fun _ => rfl, fun h => absurd ⟨0, by omega, fun i hi => absurd hi (by omega)⟩ h⟩
  | succ rounds ih =>
    intro ptr k len hlen hend
    have hne : len ≠ 0 := by
      intro h0
      rw [h0] at hlen
      exact hlen rfl
    -- `len -= n` may wrap below zero, but 2 ^ 32 is a multiple of 32 too
    have hsub : (len - UInt32.ofNat 32).toNat % 32 ≠ 0 := by
      rw [UInt32.toNat_sub]
      show (2 ^ 32 - 32 + len.toNat) % 2 ^ 32 % 32 ≠ 0
      omega
    by_cases hin : ptr + 32 > img.len
    · rw [matchLoop, if_neg hne, show cdbBread img ptr 32 = none from if_pos hin]
      exact ⟨fun _ => rfl, fun h => absurd ⟨0, by omega, fun i hi => absurd hi (by omega)⟩ h⟩
    · rw [matchLoop_round hne (by omega)]
      by_cases hchunk : ∀ i, i < 32 → img.byte (ptr + i) = mem (k + i)
      · have hiff : Overruns img mem ptr k ↔ Overruns img mem (ptr + 32) (k + 32) := by
          constructor
          · intro h
            obtain ⟨c, hc, hbytes⟩ := h
            -- the piece that passes the end is not this one, which was read
            obtain ⟨c, rfl⟩ : ∃ d, c = d + 1 := ⟨c - 1, by omega⟩
            rw [Nat.mul_succ, Nat.add_comm (32 * c)] at hbytes
            exact ⟨c, by omega, (agree_add.mp hbytes).2⟩
          · intro h
            obtain ⟨c, hc, hbytes⟩ := h
            refine ⟨c + 1, by omega, ?_⟩
            rw [Nat.mul_succ, Nat.add_comm (32 * c)]
            exact agree_add.mpr ⟨hchunk, hbytes⟩
        rw [if_pos hchunk, hiff]
        exact ih hsub (by omega)
      · rw [if_neg hchunk]
        refine ⟨fun h => ?_, fun _ => rfl⟩
        obtain ⟨c, hc, hbytes⟩ := h
        exact absurd (fun i hi => hbytes i (by omega)) hchunk

/-- A whole key inside the image: `match` decides whether it is there. -/
theorem matchKey_decides {ptr : Nat} (hin : ptr + key.length ≤ img.len)
    (hlt : key.length < 2 ^ 32) (hwhole : key.length ≤ 32 ∨ 32 ∣ key.length) :
    matchKey img key after ptr
      = if ∀ i (h : i < key.length), img.byte (ptr + i) = key[i] then .equal (ptr + key.length)
        else .differ := by
  have hlen' : (UInt32.ofNat key.length).toNat = key.length := by
    rw [UInt32.toNat_ofNat']
    omega
  -- the first piece and the number of pieces
  obtain ⟨n, c, hn, hc, hnc, hrounds, hpos⟩ : ∃ n c : Nat,
      (if 32 > key.length then key.length else 32) = n ∧ key.length = n * c ∧ n < 2 ^ 32 ∧
        c < img.len + 2 ∧ (c = 0 ∨ 0 < n) := by
    rcases Nat.eq_zero_or_pos key.length with h0 | h0
    · exact ⟨0, 0, by rw [h0]; rfl, by omega, by omega, by omega, Or.inl rfl⟩
    · by_cases h32 : 32 > key.length
      · exact ⟨key.length, 1, if_pos h32, (Nat.mul_one _).symm, hlt, by omega, Or.inr h0⟩
      · exact ⟨32, key.length / 32, if_neg h32, by omega, by omega, by omega,
          Or.inr (by decide)⟩
  have hbytes : (∀ i, i < key.length → img.byte (ptr + i) = keyMem key after (0 + i)) ↔
      ∀ i (h : i < key.length), img.byte (ptr + i) = key[i] := by
    refine forall_congr' fun i => forall_congr' fun hi => ?_
    rw [Nat.zero_add, keyMem_lt hi]
  unfold matchKey
  simp only [hn]
  rw [matchLoop_whole hnc (hlen'.trans hc) hpos hrounds (by omega), ← hc]
  exact if_congr hbytes rfl rfl

/-- A whole key: `match` decides equality. -/
theorem matchKey_whole {r : Record} (hr : img.Holds r) (hsmall : img.len < 2 ^ 32)
    (hlen : r.key.length = key.length) (hwhole : key.length ≤ 32 ∨ 32 ∣ key.length) :
    matchKey img key after (r.pos + 8)
      = if r.key = key then .equal (r.pos + 8 + key.length) else .differ := by
  have hin := hr.inside
  rw [matchKey_decides (by omega) (by omega) hwhole]
  refine if_congr ⟨fun h => ?_, fun h i hi => ?_⟩ rfl rfl
  · refine List.ext_getElem hlen fun i hi hi' => ?_
    rw [← hr.key i hi, h i hi']
  · subst h
    exact hr.key i hi

/-- Any other key: `match` never finds it. -/
theorem matchKey_partial (img : Image) (after : Nat → Byte) (ptr : Nat)
    (hlt : key.length < 2 ^ 32) (h32 : 32 < key.length) (hdvd : ¬ 32 ∣ key.length) :
    (Overruns img (keyMem key after) ptr 0 → matchKey img key after ptr = .ioError) ∧
      (¬ Overruns img (keyMem key after) ptr 0 → matchKey img key after ptr = .differ) := by
  have hlen : (UInt32.ofNat key.length).toNat % 32 ≠ 0 := by
    rw [UInt32.toNat_ofNat']
    omega
  unfold matchKey
  rw [if_neg (show ¬ 32 > key.length by omega)]
  exact matchLoop_partial hlen (by omega)

/-! ## What a lookup returns -/

/-- Comparing with a record the image holds. -/
theorem cdbCompare_held {r : Record} (hr : img.Holds r) (after : Nat → Byte)
    (hsmall : img.len < 2 ^ 32) (hlt : key.length < 2 ^ 32) :
    cdbCompare img key after (UInt32.ofNat r.pos)
      = if r.key.length = key.length then
          match matchKey img key after (r.pos + 8) with
          | .ioError => some .ioError
          | .equal cur => some (.found cur (UInt32.ofNat r.data.length))
          | .differ => none
        else none := by
  have hin := hr.inside
  have hpos : (UInt32.ofNat r.pos).toNat = r.pos := by
    rw [UInt32.toNat_ofNat']
    omega
  have hdlen : img.word (r.pos + 4) = UInt32.ofNat r.data.length := by
    rw [← hr.dlen, UInt32.ofNat_toNat]
  have hklen : img.word r.pos = UInt32.ofNat key.length ↔ r.key.length = key.length := by
    rw [← UInt32.toNat_inj, hr.klen, UInt32.toNat_ofNat', Nat.mod_eq_of_lt hlt]
  obtain ⟨buf, hread, hword, hword'⟩ := cdbBread_word img r.pos (by omega)
  simp only [cdbCompare, hpos, if_neg (show ¬ r.pos > img.len by omega), hread, hword, hword',
    hdlen]
  exact if_congr hklen rfl rfl

/-- The first record with the key, or none. -/
def FindsFirst (recs : List Record) (key : Bytes) (res : FindResult) : Prop :=
  match recs.find? fun r => decide (r.key = key) with
  | some r => res = .found (r.pos + 8 + r.key.length) (UInt32.ofNat r.data.length)
  | none => res = .absent

theorem scanRecords_whole (hsmall : img.len < 2 ^ 32) (hlt : key.length < 2 ^ 32)
    (hwhole : key.length ≤ 32 ∨ 32 ∣ key.length) :
    ∀ {l : List Record}, (∀ r ∈ l, img.Holds r) →
      FindsFirst l key (scanRecords img key after l) := by
  intro l
  induction l with
  | nil => intro _; rfl
  | cons r rs ih =>
    intro hheld
    have hr := hheld r (List.mem_cons_self ..)
    have hrest := ih fun t ht => hheld t (List.mem_cons_of_mem _ ht)
    have hcmp := cdbCompare_held hr after hsmall hlt
    unfold FindsFirst
    by_cases hkey : r.key = key
    · have hlen : r.key.length = key.length := by rw [hkey]
      rw [if_pos hlen, matchKey_whole hr hsmall hlen hwhole, if_pos hkey] at hcmp
      rw [List.find?_cons_of_pos (by simpa using hkey), scanRecords_stop (by rw [hkey]) hcmp]
      show FindResult.found (r.pos + 8 + key.length) _ = .found (r.pos + 8 + r.key.length) _
      rw [hlen]
    · -- another key: whatever is compared, the scan goes on
      have hgo : cdbCompare img key after (UInt32.ofNat r.pos) = none := by
        rw [hcmp]
        by_cases hlen : r.key.length = key.length
        · rw [if_pos hlen, matchKey_whole hr hsmall hlen hwhole, if_neg hkey]
        · rw [if_neg hlen]
      rw [List.find?_cons_of_neg (by simpa using hkey), scanRecords_skip fun _ => hgo]
      exact hrest

/-- Records on which a lookup of a partial key fails. -/
def FailsOn (img : Image) (key : Bytes) (after : Nat → Byte) (r : Record) : Prop :=
  r.key.length = key.length ∧ cdbHash r.key = cdbHash key ∧
    Overruns img (keyMem key after) (r.pos + 8) 0

theorem scanRecords_partial (after : Nat → Byte) (hsmall : img.len < 2 ^ 32)
    (hlt : key.length < 2 ^ 32) (h32 : 32 < key.length) (hdvd : ¬ 32 ∣ key.length) :
    ∀ {l : List Record}, (∀ r ∈ l, img.Holds r) →
      ((∃ r ∈ l, FailsOn img key after r) → scanRecords img key after l = .ioError) ∧
      ((∀ r ∈ l, ¬ FailsOn img key after r) → scanRecords img key after l = .absent) := by
  intro l
  induction l with
  | nil => intro _; exact ⟨fun h => absurd h (by simp), fun _ => rfl⟩
  | cons r rs ih =>
    intro hheld
    have hr := hheld r (List.mem_cons_self ..)
    obtain ⟨hbad, hgood⟩ := ih fun t ht => hheld t (List.mem_cons_of_mem _ ht)
    obtain ⟨herr, hdiff⟩ := matchKey_partial img after (r.pos + 8) hlt h32 hdvd
    have hcmp := cdbCompare_held hr after hsmall hlt
    by_cases hfail : FailsOn img key after r
    · obtain ⟨hlen, hhash, hover⟩ := id hfail
      rw [if_pos hlen, herr hover] at hcmp
      rw [scanRecords_stop hhash hcmp]
      exact ⟨fun _ => rfl, fun h => absurd hfail (h r (List.mem_cons_self ..))⟩
    · have hgo : cdbHash r.key = cdbHash key →
          cdbCompare img key after (UInt32.ofNat r.pos) = none := by
        intro hhash
        rw [hcmp]
        by_cases hlen : r.key.length = key.length
        · rw [if_pos hlen, hdiff fun hover => hfail ⟨hlen, hhash, hover⟩]
        · rw [if_neg hlen]
      rw [scanRecords_skip hgo]
      refine ⟨fun h => hbad ?_, fun h => hgood fun t ht => h t (List.mem_cons_of_mem _ ht)⟩
      obtain ⟨t, ht, hft⟩ := h
      rcases List.mem_cons.mp ht with rfl | ht
      · exact absurd hft hfail
      · exact ⟨t, ht, hft⟩

/-- **When `cdb_find` is right.** For a key of at most 32 bytes or of a multiple of 32
bytes, always. For any other key only if it is not in the file, and no record of its
length and hash makes the comparison run past the end of the file. -/
theorem cdbFind_correct_iff (img : Image) (recs : List Record) (key : Bytes)
    (after : Nat → Byte) (hl : Layout img recs) (hlt : key.length < 2 ^ 32) :
    FindsFirst recs key (cdbFind img key after) ↔
      key.length ≤ 32 ∨ 32 ∣ key.length ∨
        ((∀ r ∈ recs, r.key ≠ key) ∧ ∀ r ∈ recs, ¬ FailsOn img key after r) := by
  rw [cdbFind_eq_scan hl]
  by_cases hwhole : key.length ≤ 32 ∨ 32 ∣ key.length
  · refine ⟨fun _ => ?_, fun _ => scanRecords_whole hl.small hlt hwhole hl.held⟩
    rcases hwhole with h | h
    · exact Or.inl h
    · exact Or.inr (Or.inl h)
  · obtain ⟨h32, hdvd⟩ := not_or.mp hwhole
    obtain ⟨hbad, hgood⟩ :=
      scanRecords_partial after hl.small hlt (Nat.lt_of_not_le h32) hdvd hl.held
    constructor
    · intro h
      refine Or.inr (Or.inr ?_)
      unfold FindsFirst at h
      have hnofail : ∀ r ∈ recs, ¬ FailsOn img key after r := by
        intro r hr hfail
        rw [hbad ⟨r, hr, hfail⟩] at h
        cases hfind : recs.find? fun r => decide (r.key = key) with
        | none => rw [hfind] at h; exact absurd h (by simp)
        | some t => rw [hfind] at h; exact absurd h (by simp)
      rw [hgood hnofail] at h
      refine ⟨fun r hr hkey => ?_, hnofail⟩
      cases hfind : recs.find? fun r => decide (r.key = key) with
      | none =>
        rw [List.find?_eq_none] at hfind
        exact absurd hkey (by simpa using hfind r hr)
      | some t => rw [hfind] at h; exact absurd h (by simp)
    · intro h
      obtain ⟨hno, hnofail⟩ := (h.resolve_left h32).resolve_left hdvd
      have hnone : (recs.find? fun r => decide (r.key = key)) = none := by
        rw [List.find?_eq_none]
        intro r hr
        simpa using hno r hr
      unfold FindsFirst
      rw [hnone]
      exact hgood hnofail

/-! ## A file with a key of 33 bytes -/

/-- A record with a short key and one with a key of 33 bytes. Their hashes share a
table, and in it the starting slot. -/
def sampleRecords : List Record :=
  [⟨[97], [1, 2], 2048⟩, ⟨List.replicate 33 97, [], 2059⟩]

/-- What follows the table pointers: the records, then the table's two slots. -/
def sampleTail : Bytes :=
  [1, 0, 0, 0, 2, 0, 0, 0, 97, 1, 2] ++
  [33, 0, 0, 0, 0, 0, 0, 0] ++ List.replicate 33 97 ++
  [196, 7, 104, 64, 11, 8, 0, 0] ++
  [196, 181, 2, 0, 0, 8, 0, 0]

/-- The file that holds them; only table 196 has slots. -/
def sampleImage : Image := .ofParts [(1568, [52, 8, 0, 0, 2, 0, 0, 0])] sampleTail

theorem sample_layout : Layout sampleImage sampleRecords := by
  have hother : ∀ t, t < 256 → t ≠ 196 →
      sampleImage.word (8 * t) = 0 ∧ sampleImage.word (8 * t + 4) = 0 := by
    decide +kernel
  have htables : ∀ r ∈ sampleRecords, (tableOf r.key).toNat = 196 := by decide +kernel
  refine ⟨by decide, by decide, ?_, fun t ht => ?_⟩
  · intro r hr
    simp only [sampleRecords, List.mem_cons, List.not_mem_nil, or_false] at hr
    rcases hr with rfl | rfl
    · exact ⟨by decide, by decide, by decide +kernel, by decide +kernel, by decide +kernel,
        by decide +kernel⟩
    · exact ⟨by decide, by decide, by decide +kernel, by decide +kernel, by decide +kernel,
        by decide +kernel⟩
  · by_cases h196 : t = 196
    · subst h196
      have hpos : (sampleImage.word (8 * 196)).toNat = 2100 := by decide +kernel
      have hsize : (sampleImage.word (8 * 196 + 4)).toNat = 2 := by decide +kernel
      refine ⟨by rw [hpos, hsize]; decide, ?_⟩
      rw [hpos, hsize]
      have hall : (sampleRecords.filter fun r => decide ((tableOf r.key).toNat = 196))
          = sampleRecords :=
        List.filter_eq_self.mpr fun r hr => by simpa using htables r hr
      rw [hall]
      -- the first record goes to slot 1, the second finds it taken and wraps to slot 0
      have hfirst : slotFrom 2 [97] = 1 := by decide +kernel
      have hsecond : slotFrom 2 (List.replicate 33 97) = 1 := by decide +kernel
      refine ⟨Function.update (Function.update (fun _ => none) 1 (some ⟨[97], [1, 2], 2048⟩)) 0
        (some ⟨List.replicate 33 97, [], 2059⟩), ?_, ?_⟩
      · simp only [sampleRecords, probeFill, probeInsert, hfirst, hsecond]
        rfl
      · intro i hi
        have hi' : i = 0 ∨ i = 1 := by omega
        rcases hi' with rfl | rfl
        · exact ⟨by decide +kernel, by decide +kernel⟩
        · exact ⟨by decide +kernel, by decide +kernel⟩
    · obtain ⟨hpos, hsize⟩ := hother t ht h196
      have hnone : (sampleRecords.filter fun r => decide ((tableOf r.key).toNat = t)) = [] := by
        rw [List.filter_eq_nil_iff]
        intro r hr
        have h := htables r hr
        simp only [decide_eq_true_eq]
        omega
      refine ⟨by rw [hpos, hsize]; decide, fun _ => none, ?_, ?_⟩
      · rw [hnone]
        rfl
      · intro i hi
        rw [hsize] at hi
        exact absurd hi (by simp)

/-- The short key is found, past the slot where the other one is. -/
theorem cdbFind_correct_iff_sample :
    FindsFirst sampleRecords [97] (cdbFind sampleImage [97] fun _ => 0) :=
  (cdbFind_correct_iff sampleImage sampleRecords [97] (fun _ => 0) sample_layout (by decide)).mpr
    (Or.inl (by decide))

/-- The key of 33 bytes is in the file and `cdb_find` returns -1. -/
theorem cdbFind_incorrect :
    ¬ ∀ (img : Image) (recs : List Record) (key : Bytes) (after : Nat → Byte),
      Layout img recs → key.length < 2 ^ 32 → FindsFirst recs key (cdbFind img key after) := by
  intro h
  have hfinds := h sampleImage sampleRecords (List.replicate 33 97) (fun _ => 0) sample_layout
    (by decide)
  have hfind : cdbFind sampleImage (List.replicate 33 97) (fun _ => 0) = .ioError := by
    decide +kernel
  rw [hfind] at hfinds
  exact absurd hfinds (by simp [FindsFirst, sampleRecords])

end Nastd.Server
