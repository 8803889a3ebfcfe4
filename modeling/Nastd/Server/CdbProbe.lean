import Nastd.Server.CdbFormat

/-!
# What the probing of `cdb_find` means

On any image, well formed or not. `slotVerdict` is what one slot says about a key: nothing,
or the result. `probeFind` is `cdb_find` without its loop: the verdict of the first slot
that has one, in cyclic order from the key's slot.

`cdb_find_probes` is that the loop computes this, and that the order meets every slot of
the table once.
-/

namespace Nastd.Server

open Nastd.Lib

variable {img : Image} {key : Bytes} {after : Nat → Byte}

/-- The verdict of the slot at this offset; `none` if it decides nothing. -/
def slotVerdict (img : Image) (key : Bytes) (after : Nat → Byte) (slot : Nat) :
    Option FindResult :=
  if slot + 8 > img.len then some .ioError
  else if img.word (slot + 4) = 0 then some .absent
  else if img.word slot = cdbHash key then
    let poskd := (img.word (slot + 4)).toNat
    if poskd + 8 > img.len then some .ioError
    else if (img.word poskd).toNat = key.length then
      match matchKey img key after (poskd + 8) with
      | .ioError => some .ioError
      | .equal _ => some (.found (poskd + 8 + key.length) (img.word (poskd + 4)))
      | .differ => none
    else none
  else none

/-- The slots of a key's table in the order in which they count. -/
def slotOrder (key : Bytes) (lenhash : UInt32) : List Nat :=
  probeOrder lenhash.toNat ((cdbHash key >>> 8).toNat % lenhash.toNat)

/-- The first verdict there is. -/
def probeFind (img : Image) (key : Bytes) (after : Nat → Byte) : FindResult :=
  let table := 8 * (cdbHash key &&& 255).toNat
  if table + 8 > img.len then .ioError
  else
    let pos := img.word table
    let lenhash := img.word (table + 4)
    if lenhash = 0 then .absent
    else
      ((slotOrder key lenhash).findSome? fun slot =>
        slotVerdict img key after ((pos.toNat + 8 * slot) % 2 ^ 32)).getD .absent

/-! ## A key that matches -/

/-- A match moves the pointer behind what was compared, which was in the image. -/
theorem matchLoop_equal {mem : Nat → Byte} {n : Nat} (hn : n < 2 ^ 32) :
    ∀ {c rounds ptr k p : Nat} {len : UInt32}, len.toNat = n * c →
      matchLoop img mem n rounds ptr k len = .equal p →
      p = ptr + n * c ∧ (ptr ≤ img.len → p ≤ img.len) := by
  intro c
  induction c with
  | zero =>
    intro rounds ptr k p len hlen h
    have hzero : len = 0 := UInt32.toNat_inj.mp hlen
    cases rounds with
    | zero => exact absurd h (by simp [matchLoop])
    | succ rounds =>
      rw [matchLoop, if_pos hzero] at h
      obtain rfl := MatchResult.equal.inj h
      exact ⟨rfl, id⟩
  | succ c ih =>
    intro rounds ptr k p len hlen h
    cases rounds with
    | zero => exact absurd h (by simp [matchLoop])
    | succ rounds =>
      have hmul : n * (c + 1) = n + n * c := (Nat.mul_succ n c).trans (Nat.add_comm ..)
      by_cases hzero : len = 0
      · rw [matchLoop, if_pos hzero] at h
        have hz : len.toNat = 0 := by rw [hzero]; rfl
        obtain rfl := MatchResult.equal.inj h
        exact ⟨by omega, id⟩
      · have hnn : (UInt32.ofNat n).toNat = n := by
          rw [UInt32.toNat_ofNat']
          omega
        have hsub : (len - UInt32.ofNat n).toNat = n * c := by
          rw [UInt32.toNat_sub_of_le _ _ (by rw [UInt32.le_iff_toNat_le, hnn]; omega), hnn]
          omega
        by_cases hin : ptr + n > img.len
        · rw [matchLoop, if_neg hzero, show cdbBread img ptr n = none from if_pos hin] at h
          exact absurd h (by simp)
        · rw [matchLoop_round hzero (by omega)] at h
          split at h
          · obtain ⟨hp, hend⟩ := ih hsub h
            exact ⟨by omega, fun _ => hend (by omega)⟩
          · exact absurd h (by simp)

/-- A match leaves the pointer at the record's data. -/
theorem matchKey_equal {ptr p : Nat} (hkey : key.length < 2 ^ 32)
    (h : matchKey img key after ptr = .equal p) :
    (key.length ≤ 32 ∨ 32 ∣ key.length) ∧ p = ptr + key.length ∧ (ptr ≤ img.len → p ≤ img.len) := by
  have hlen : (UInt32.ofNat key.length).toNat = key.length := by
    rw [UInt32.toNat_ofNat']
    omega
  by_cases hwhole : key.length ≤ 32 ∨ 32 ∣ key.length
  · refine ⟨hwhole, ?_⟩
    unfold matchKey at h
    by_cases h32 : 32 > key.length
    · rw [if_pos h32] at h
      have hmatch := matchLoop_equal hkey (c := 1) (by omega) h
      rw [Nat.mul_one] at hmatch
      exact hmatch
    · rw [if_neg h32] at h
      have hmul : 32 * (key.length / 32) = key.length := by omega
      have hmatch := matchLoop_equal (by decide) (c := key.length / 32) (by omega) h
      rw [hmul] at hmatch
      exact hmatch
  · -- the last round overshoots, and then there is no match
    obtain ⟨hlong, hdvd⟩ := not_or.mp hwhole
    obtain ⟨hover, hdiffer⟩ := matchKey_partial img after ptr hkey (by omega) hdvd
    by_cases ho : Overruns img (keyMem key after) ptr 0
    · rw [hover ho] at h
      exact absurd h (by simp)
    · rw [hdiffer ho] at h
      exact absurd h (by simp)

/-! ## One slot -/

/-- What the record of a slot with the right hash says. -/
theorem cdbCompare_eq (hkey : key.length < 2 ^ 32) (poskd : UInt32) :
    cdbCompare img key after poskd
      = if poskd.toNat + 8 > img.len then some .ioError
        else if (img.word poskd.toNat).toNat = key.length then
          match matchKey img key after (poskd.toNat + 8) with
          | .ioError => some .ioError
          | .equal _ => some (.found (poskd.toNat + 8 + key.length) (img.word (poskd.toNat + 4)))
          | .differ => none
        else none := by
  unfold cdbCompare
  by_cases hin : poskd.toNat + 8 > img.len
  · have hbread : cdbBread img poskd.toNat 8 = none := if_pos hin
    rw [if_pos hin, hbread]
    split
    · rfl
    · rfl
  · obtain ⟨buf, hread, hword, hword'⟩ := cdbBread_word img poskd.toNat (by omega)
    have hklen : img.word poskd.toNat = UInt32.ofNat key.length ↔
        (img.word poskd.toNat).toNat = key.length := by
      rw [← UInt32.toNat_inj, UInt32.toNat_ofNat', Nat.mod_eq_of_lt hkey]
    simp only [if_neg hin, if_neg (show ¬ poskd.toNat > img.len by omega), hread, hword, hword']
    refine if_congr hklen ?_ rfl
    cases hmatch : matchKey img key after (poskd.toNat + 8) with
    | ioError => rfl
    | differ => rfl
    | equal p => rw [(matchKey_equal hkey hmatch).2.1]

/-- One round of the loop: the slot's verdict, or the next slot. -/
theorem cdbLoop_round (hkey : key.length < 2 ^ 32) (pos lenhash : UInt32) (m : Nat) (h2 : UInt32) :
    cdbLoop img key after (cdbHash key) pos lenhash (m + 1) h2
      = match slotVerdict img key after ((pos.toNat + 8 * h2.toNat) % 2 ^ 32) with
        | some r => r
        | none =>
          cdbLoop img key after (cdbHash key) pos lenhash m
            (if h2 + 1 = lenhash then 0 else h2 + 1) := by
  have hcur : (pos + 8 * h2).toNat = (pos.toNat + 8 * h2.toNat) % 2 ^ 32 := by
    rw [UInt32.toNat_add, UInt32.toNat_mul]
    show (pos.toNat + 8 * h2.toNat % 2 ^ 32) % 2 ^ 32 = _
    omega
  rw [cdbLoop, hcur]
  generalize (pos.toNat + 8 * h2.toNat) % 2 ^ 32 = slot
  unfold slotVerdict
  by_cases hin : slot + 8 > img.len
  · have hbread : cdbBread img slot 8 = none := if_pos hin
    rw [if_pos hin, hbread]
    exact ite_self _
  · obtain ⟨buf, hread, hword, hword'⟩ := cdbBread_word img slot (by omega)
    simp only [if_neg hin, if_neg (show ¬ slot > img.len by omega), hread, hword, hword']
    by_cases hempty : img.word (slot + 4) = 0
    · rw [if_pos hempty, if_pos hempty]
    · rw [if_neg hempty, if_neg hempty]
      by_cases hhash : img.word slot = cdbHash key
      · rw [if_pos hhash, if_pos hhash]
        exact congrArg (fun o : Option FindResult =>
          match o with
          | some r => r
          | none =>
            cdbLoop img key after (cdbHash key) pos lenhash m
              (if h2 + 1 = lenhash then 0 else h2 + 1)) (cdbCompare_eq hkey (img.word (slot + 4)))
      · rw [if_neg hhash, if_neg hhash]

/-! ## The loop -/

/-- What is left of the loop is what is left of the order. -/
theorem cdbLoop_eq (hkey : key.length < 2 ^ 32) {pos lenhash : UInt32} (hsize : lenhash ≠ 0)
    {s : Nat} :
    ∀ {m k : Nat} {h2 : UInt32}, h2.toNat = (s + k) % lenhash.toNat →
      cdbLoop img key after (cdbHash key) pos lenhash m h2
        = (((List.range' k m).map fun j => (s + j) % lenhash.toNat).findSome? fun slot =>
            slotVerdict img key after ((pos.toNat + 8 * slot) % 2 ^ 32)).getD .absent := by
  intro m
  induction m with
  | zero => intro k h2 _; rfl
  | succ m ih =>
    intro k h2 hh2
    rw [cdbLoop_round hkey, List.range'_succ, List.map_cons, List.findSome?_cons, ← hh2,
      ih (next_slot hsize hh2)]
    cases slotVerdict img key after ((pos.toNat + 8 * h2.toNat) % 2 ^ 32) with
    | none => rfl
    | some r => rfl

theorem cdbFind_eq (img : Image) (key : Bytes) (after : Nat → Byte) (hkey : key.length < 2 ^ 32) :
    cdbFind img key after = probeFind img key after := by
  have ht : (cdbHash key &&& 255).toNat < 256 := by
    rw [UInt32.toNat_and]
    have hle : (cdbHash key).toNat &&& (255 : UInt32).toNat ≤ 255 := Nat.and_le_right
    omega
  have hcur : (8 * (cdbHash key &&& 255)).toNat = 8 * (cdbHash key &&& 255).toNat := by
    rw [UInt32.toNat_mul]
    show 8 * (cdbHash key &&& 255).toNat % 2 ^ 32 = _
    omega
  unfold cdbFind probeFind
  simp only [hcur]
  generalize 8 * (cdbHash key &&& 255).toNat = table
  by_cases hin : table + 8 > img.len
  · have hbread : cdbBread img table 8 = none := if_pos hin
    rw [if_pos hin, hbread]
    exact ite_self _
  · obtain ⟨buf, hread, hword, hword'⟩ := cdbBread_word img table (by omega)
    simp only [if_neg hin, if_neg (show ¬ table > img.len by omega), hread, hword, hword']
    by_cases hsize : img.word (table + 4) = 0
    · rw [if_pos hsize, if_pos hsize]
    · rw [if_neg hsize, if_neg hsize]
      have hstart : ((cdbHash key >>> 8) % img.word (table + 4)).toNat
          = ((cdbHash key >>> 8).toNat % (img.word (table + 4)).toNat + 0)
            % (img.word (table + 4)).toNat := by
        simp [UInt32.toNat_mod]
      rw [cdbLoop_eq hkey hsize hstart, ← List.range_eq_range']
      rfl

/-- **What `cdb_find` returns on any image.** The first decisive slot in cyclic order from
the key's slot; and that order has every slot of the table once. -/
theorem cdbFind_probes (img : Image) (key : Bytes) (after : Nat → Byte)
    (hkey : key.length < 2 ^ 32) :
    cdbFind img key after = probeFind img key after ∧
      ∀ lenhash, (slotOrder key lenhash).Nodup ∧
        ∀ slot, slot ∈ slotOrder key lenhash ↔ slot < lenhash.toNat := by
  refine ⟨cdbFind_eq img key after hkey, fun lenhash => ⟨probeOrder_nodup _ _, fun slot => ?_⟩⟩
  exact mem_probeOrder

/-- The sample with its two slots the other way round: the short key starts at the last one, which
the long key has, and goes round to the first. -/
def swappedImage : Image :=
  .ofParts [(1568, [52, 8, 0, 0, 2, 0, 0, 0])]
    (sampleTail.take 52 ++ [196, 181, 2, 0, 0, 8, 0, 0] ++ [196, 7, 104, 64, 11, 8, 0, 0])

/-- It is found in the second slot it looks at. -/
theorem cdbFind_probes_sample :
    slotOrder [97] 2 = [1, 0] ∧ cdbFind swappedImage [97] (fun _ => 0) = .found 2057 2 ∧
      cdbFind swappedImage [97] (fun _ => 0) = probeFind swappedImage [97] fun _ => 0 :=
  ⟨by decide +kernel, by decide +kernel,
    (cdbFind_probes swappedImage [97] (fun _ => 0) (by decide)).1⟩

end Nastd.Server
