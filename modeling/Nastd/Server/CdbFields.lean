import Nastd.Server.ArrayStore
import Nastd.Server.Cdb

/-!
# How `cdb_get` cuts a record

The loop of `cdb_get` as it stands in `server/cdb.c`: two pointers into the image, the
test for the delimiter before the test for the end, and a last round on the byte behind
the data. `Server/Cdb.lean` has what it comes to (`splitFields`); here the loop is shown to
come to that, and that to be the data split at the delimiter.

`cdb_len` is 32 bits wide and goes through an `int` on the way to `cdb_find`, so where a
record is found and its data lies within `cdb_len`, no piece is 2^31 bytes long, and the
`int` that `array_add` reads is the length of the piece.
-/

namespace Nastd.Server

/-- `cdb_len`. -/
def Image.cdbLen (img : Image) : Nat := img.len % 0x100000000

/-- The image with another byte at `p`. -/
def Image.put (img : Image) (p : Nat) (b : Byte) : Image :=
  { img with byte := Function.update img.byte p b }

/-- `ARRTERM`. -/
def ARRTERM : Int := -1

/-- `array_add(aa, slen, s, ARRTERM)`. A length of -1 is taken for the end of the
arguments; for any other below zero `malloc` is asked for nearly 2^64 bytes (`none`). -/
def addPiece (img : Image) (aa : ArrayT) (slen : Int) (s : Nat) : Option ArrayT :=
  if slen = ARRTERM then some (aa.arrayAdd []).2
  else if slen < 0 then none
  else some (aa.arrayAdd [img.slice s slen.toNat]).2

/-- `while (e_p <= data+dlen)`, with `last` for `data+dlen`. Each round moves `e_p`, so there
are `dlen` and two of them; `none` if they did not end. -/
def cdbGetLoop (img : Image) (dbSep : Byte) (last : Nat) :
    Nat → Nat → Nat → ArrayT → Option ArrayT
  | 0, _, _, _ => none
  | rounds + 1, sp, ep, aa =>
    if ep ≤ last then
      if img.byte ep = dbSep ∨ ep = last then
        match addPiece img aa (intOfLen (ep - sp)) sp with
        | none => none
        | some aa => cdbGetLoop img dbSep last rounds (ep + 1) (ep + 1) aa
      else cdbGetLoop img dbSep last rounds sp (ep + 1) aa
    else some aa

/-- `cdb_get`: the return code, and the array it was given. -/
def cdbGetArray (cdb : Cdb) (key : Bytes) (after : Nat → Byte) (aa : ArrayT) :
    Option (Int × ArrayT) :=
  match cdb.memcdb with
  | none => some (-1, aa)
  | some img =>
    match cdbFindbykey img key after with
    | none => some (-1, aa)
    | some (data, dlen) =>
      (cdbGetLoop img cdb.dbSep (data + dlen.toNat) (dlen.toNat + 2) data data aa).map
        fun aa => (0, aa)

/-! ## Slices of the image -/

theorem slice_succ (img : Image) (p n : Nat) :
    img.slice p (n + 1) = img.slice p n ++ [img.byte (p + n)] := by
  simp [Image.slice, List.range_succ]

theorem slice_cons (img : Image) (p n : Nat) :
    img.slice p (n + 1) = img.byte p :: img.slice (p + 1) n := by
  unfold Image.slice
  rw [List.range_succ_eq_map, List.map_cons, List.map_map]
  have hmove : ∀ i, ((fun i => img.byte (p + i)) ∘ Nat.succ) i = img.byte (p + 1 + i) := by
    intro i
    show img.byte (p + (i + 1)) = _
    rw [Nat.add_assoc, Nat.add_comm 1 i]
  exact congrArg (img.byte p :: ·) (List.map_congr_left fun i _ => hmove i)

/-- The byte behind a slice is not in it. -/
theorem slice_put (img : Image) (p n : Nat) (b : Byte) :
    (img.put (p + n) b).slice p n = img.slice p n := by
  refine List.map_congr_left fun i hi => ?_
  have hne : p + i ≠ p + n := by
    have hlt := List.mem_range.mp hi
    omega
  exact Function.update_of_ne hne ..

/-! ## The pieces -/

theorem arrayAdd_items (strs : List Bytes) :
    ∀ aa : ArrayT, (aa.arrayAdd strs).2.items = aa.items ++ strs := by
  induction strs with
  | nil =>
    intro aa
    exact (List.append_nil _).symm
  | cons s strs ih =>
    intro aa
    show ((aa.addOne s).2.arrayAdd strs).2.items = _
    rw [ih]
    exact List.append_assoc ..

/-- Cutting what is left, with `cur` in front that has no delimiter, is splitting it all. -/
theorem splitFields_splitOn (sep : Byte) (s : Bytes) :
    ∀ cur : Bytes, sep ∉ cur → splitFields sep cur s = (cur ++ s).splitOn sep := by
  induction s with
  | nil =>
    intro cur hcur
    rw [List.append_nil, List.splitOn_eq_singleton hcur]
    rfl
  | cons b rest ih =>
    intro cur hcur
    rw [splitFields]
    by_cases hb : b = sep
    · subst hb
      rw [if_pos rfl, List.splitOn_append_cons_self_of_not_mem hcur, ih [] List.not_mem_nil,
        List.nil_append]
    · have hcur' : sep ∉ cur ++ [b] := by
        intro hmem
        rcases List.mem_append.mp hmem with hmem | hmem
        · exact hcur hmem
        · exact hb (List.mem_singleton.mp hmem).symm
      rw [if_neg hb, ih _ hcur', List.append_assoc]
      rfl

theorem splitFields_length (sep : Byte) (s : Bytes) :
    ∀ cur : Bytes, (splitFields sep cur s).length = s.count sep + 1 := by
  induction s with
  | nil =>
    intro cur
    rfl
  | cons b rest ih =>
    intro cur
    rw [splitFields]
    by_cases hb : b = sep
    · rw [if_pos hb, hb, List.count_cons_self]
      exact congrArg (· + 1) (ih [])
    · rw [if_neg hb, ih, List.count_cons_of_ne hb]

theorem splitFields_no_sep (sep : Byte) (s : Bytes) :
    ∀ cur : Bytes, sep ∉ cur → ∀ piece ∈ splitFields sep cur s, sep ∉ piece := by
  induction s with
  | nil =>
    intro cur hcur piece hpiece
    obtain rfl := List.mem_singleton.mp hpiece
    exact hcur
  | cons b rest ih =>
    intro cur hcur piece hpiece
    rw [splitFields] at hpiece
    split at hpiece
    · rcases List.mem_cons.mp hpiece with rfl | hpiece
      · exact hcur
      · exact ih [] List.not_mem_nil piece hpiece
    · next hb =>
      refine ih _ (fun hmem => ?_) piece hpiece
      rcases List.mem_append.mp hmem with hmem | hmem
      · exact hcur hmem
      · exact hb (List.mem_singleton.mp hmem).symm

/-! ## The loop -/

theorem addPiece_short {img : Image} {aa : ArrayT} {n : Nat} (hn : n < 0x80000000) (s : Nat) :
    addPiece img aa (intOfLen n) s = some (aa.arrayAdd [img.slice s n]).2 := by
  have hint : intOfLen n = n := by
    unfold intOfLen
    rw [Nat.mod_eq_of_lt (by omega), if_pos hn]
  unfold addPiece ARRTERM
  rw [hint, if_neg (by omega), if_neg (by omega), Int.toNat_natCast]

/-- From `s_p` on: what lies between it and `e_p` starts the first piece, and the byte at
`data+dlen` ends the last. -/
theorem cdbGetLoop_eq {img : Image} {sep : Byte} {last : Nat} : ∀ (left : Nat)
    {rounds sp ep : Nat} {aa : ArrayT}, sp ≤ ep → ep + left = last → last - sp < 0x80000000 →
    left + 2 ≤ rounds →
    cdbGetLoop img sep last rounds sp ep aa
      = some (aa.arrayAdd (splitFields sep (img.slice sp (ep - sp)) (img.slice ep left))).2 := by
  intro left
  induction left with
  | zero =>
    intro rounds sp ep aa hle hlast hshort hrounds
    obtain ⟨rounds, rfl⟩ : ∃ k, rounds = k + 2 := ⟨rounds - 2, by omega⟩
    obtain rfl : ep = last := hlast
    -- the last round ends the last piece, whatever the byte is
    rw [cdbGetLoop, if_pos (Nat.le_refl _), if_pos (Or.inr rfl), addPiece_short hshort]
    show cdbGetLoop img sep ep (rounds + 1) (ep + 1) (ep + 1) _ = _
    rw [cdbGetLoop, if_neg (by omega)]
    rfl
  | succ left ih =>
    intro rounds sp ep aa hle hlast hshort hrounds
    obtain ⟨rounds, rfl⟩ : ∃ k, rounds = k + 1 := ⟨rounds - 1, by omega⟩
    rw [cdbGetLoop, if_pos (by omega), slice_cons, splitFields]
    by_cases hb : img.byte ep = sep
    · rw [if_pos (Or.inl hb), if_pos hb, addPiece_short (by omega)]
      show cdbGetLoop img sep last rounds (ep + 1) (ep + 1) _ = _
      rw [ih (Nat.le_refl _) (by omega) (by omega) (by omega), Nat.sub_self]
      rfl
    · have hnot : ¬ (img.byte ep = sep ∨ ep = last) := by
        intro h
        rcases h with h | h
        · exact hb h
        · omega
      have hnext : img.slice sp (ep - sp) ++ [img.byte ep] = img.slice sp (ep + 1 - sp) := by
        rw [Nat.succ_sub hle, slice_succ, Nat.add_sub_cancel' hle]
      rw [if_neg hnot, if_neg hb, ih (by omega) (by omega) hshort (by omega), hnext]

/-- The whole loop on data shorter than 2^31 bytes. -/
theorem cdbGetLoop_splits (img : Image) (sep : Byte) (data n : Nat) (aa : ArrayT)
    (hshort : n < 0x80000000) :
    cdbGetLoop img sep (data + n) (n + 2) data data aa
      = some (aa.arrayAdd ((img.slice data n).splitOn sep)).2 := by
  have hnil : img.slice data 0 = [] := rfl
  rw [cdbGetLoop_eq n (Nat.le_refl _) rfl (by omega) (Nat.le_refl _), Nat.sub_self, hnil,
    splitFields_splitOn sep _ _ List.not_mem_nil]
  rfl

/-- What is found lies in an image whose length is not negative as an `int`. -/
theorem cdbLen_of_found {img : Image} {key : Bytes} {after : Nat → Byte} {r : Nat × UInt32}
    (h : cdbFindbykey img key after = some r) : img.cdbLen < 0x80000000 := by
  unfold cdbFindbykey at h
  split at h
  · exact absurd h (by simp)
  · next hint =>
    unfold Image.cdbLen
    by_contra hlarge
    apply hint
    unfold intOfLen
    rw [if_neg hlarge]
    have hlt := Nat.mod_lt img.len (show 0 < 0x100000000 by decide)
    omega

/-- The loop on the pointers does what `cdbGet` says. -/
theorem cdbGetArray_eq {cdb : Cdb} {img : Image} {key : Bytes} {after : Nat → Byte} {data : Nat}
    {dlen : UInt32} (hmem : cdb.memcdb = some img)
    (hfound : cdbFindbykey img key after = some (data, dlen))
    (hin : data + dlen.toNat < img.cdbLen) (aa : ArrayT) :
    cdbGetArray cdb key after aa
      = some ((cdbGet cdb key after).1, (aa.arrayAdd (cdbGet cdb key after).2).2) := by
  have hlen := cdbLen_of_found hfound
  unfold cdbGetArray cdbGet
  simp only [hmem, hfound]
  rw [cdbGetLoop_splits img cdb.dbSep data dlen.toNat aa (by omega),
    splitFields_splitOn cdb.dbSep _ _ List.not_mem_nil]
  rfl

/-- `cdb_get` appends the pieces of the data between the delimiters, in order: one more than
there are delimiters, none with a delimiter in it, and joined with it they are the data
again. The byte behind the data can be any. -/
theorem cdb_get_splits (cdb : Cdb) (img : Image) (key : Bytes) (after : Nat → Byte) (aa : ArrayT)
    (data : Nat) (dlen : UInt32) (hmem : cdb.memcdb = some img)
    (hfound : cdbFindbykey img key after = some (data, dlen))
    (hin : data + dlen.toNat < img.cdbLen) :
    ∃ aa' pieces, cdbGetArray cdb key after aa = some (0, aa') ∧
      aa'.items = aa.items ++ pieces ∧
      pieces = (img.slice data dlen.toNat).splitOn cdb.dbSep ∧
      pieces.length = (img.slice data dlen.toNat).count cdb.dbSep + 1 ∧
      (∀ piece ∈ pieces, cdb.dbSep ∉ piece) ∧
      [cdb.dbSep].intercalate pieces = img.slice data dlen.toNat ∧
      ∀ b, cdbGetLoop (img.put (data + dlen.toNat) b) cdb.dbSep (data + dlen.toNat)
        (dlen.toNat + 2) data data aa = some aa' := by
  have hlen := cdbLen_of_found hfound
  have hshort : dlen.toNat < 0x80000000 := by omega
  have hsplit := splitFields_splitOn cdb.dbSep (img.slice data dlen.toNat) [] List.not_mem_nil
  rw [List.nil_append] at hsplit
  have hloop := fun img' => cdbGetLoop_splits img' cdb.dbSep data dlen.toNat aa hshort
  refine ⟨_, _, ?_, arrayAdd_items _ aa, rfl, ?_, ?_, List.intercalate_splitOn _, ?_⟩
  · unfold cdbGetArray
    simp only [hmem, hfound]
    rw [hloop img]
    rfl
  · rw [← hsplit]
    exact splitFields_length ..
  · rw [← hsplit]
    exact splitFields_no_sep _ _ _ List.not_mem_nil
  · intro b
    rw [hloop, slice_put]

/-- The record of `bob` in `twoColumns`, with a table behind it. -/
theorem cdb_get_splits_bob : ∃ aa',
    cdbGetArray (twoColumnsLoaded 0) (ascii "bob") (fun _ => 0) .arrayNew = some (0, aa') ∧
      aa'.items = [ascii "bob", ascii "7"] := by
  have hfound : cdbFindbykey twoColumns (ascii "bob") (fun _ => 0) = some (2101, 5) := by
    decide +kernel
  obtain ⟨aa', pieces, hget, hitems, hpieces, -⟩ := cdb_get_splits (twoColumnsLoaded 0) twoColumns
    (ascii "bob") (fun _ => 0) .arrayNew 2101 5 rfl hfound (by decide)
  refine ⟨aa', hget, ?_⟩
  rw [hitems, hpieces]
  decide +kernel

end Nastd.Server
