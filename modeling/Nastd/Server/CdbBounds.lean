import Nastd.Server.Cdb
import Nastd.Server.CdbAccess
import Mathlib.Data.List.TakeWhile

/-!
# What a CDB file can make the server touch

`cdb_new` and `cdb_get` on a file of any bytes, with the lookups of
`Server/CdbAccess.lean` in them. `InBounds` is what one would want whatever the file is:
nothing outside the mapping is read, and nothing outside an array is touched.

The length of a record's data is taken from the file and compared with nothing. `cdb_new`
bounds it by the size of its arrays, but lets 1024 bytes pass where the NUL needs one
more; the delimiter is read where a record has no data; and `cdb_get` reads the byte
behind the data too. `in_bounds_iff` is for which files and keys none of this shows.
-/

namespace Nastd.Server

open Nastd.Lib

/-- The image as `cdb_find` is given it: its length has gone through an `int`. -/
def Image.asInt (img : Image) : Image := { img with len := (intOfLen img.len).toNat }

/-- An entry copied into an array of 1024 bytes, if it has at most `max` of them, and the NUL
behind it. -/
def entryTrace (max p : Nat) (i : UInt32) : List Access :=
  if i.toNat > max then [] else copyTrace p i.toNat 1024 ++ [.buffer 1024 i.toNat]

/-- Looking up a key that stands in a string literal. -/
def literalTrace (img : Image) (key : String) : List Access :=
  findTrace img.asInt (ascii key) fun _ => 0

/-- The names cut out of `cdbfields_s` from `s_p` on: the bytes up to the delimiter or the NUL,
and the copy in an array of its own. -/
def namesTrace (newsep : Byte) : Nat → Nat → Bytes → List Access
  | 0, _, _ => []
  | n + 1, sp, s =>
    let len := (s.takeWhile (· ≠ newsep)).length
    (List.range (len + 1)).map (fun i => .buffer 1024 (sp + i)) ++
      bufferWrites (len + 1) (len + 1) ++ namesTrace newsep n (sp + len + 1) (s.drop (len + 1))

/-- The columns are counted and cut, and the other three arrays copied whole. -/
def globalsTrace (newsep : Byte) (cdbfieldsS : Bytes) : List Access :=
  bufferWrites 1024 (cdbfieldsS.length + 1) ++
    namesTrace newsep (countFields newsep cdbfieldsS) 0 cdbfieldsS ++ bufferWrites 1024 1024

/-- `cdb_new` from the delimiter on. -/
def columnsTrace (img : Image) : List Access :=
  literalTrace img "_DELIM_" ++
    (match findLiteral img "_DELIM_" with
      | none => []
      | some (p, _) => [.image p]) ++
    literalTrace img "_VALUES_" ++
    match findLiteral img "_VALUES_" with
    | none => []
    | some (p, i) =>
      entryTrace 1023 p i ++
        if i.toNat ≥ 1024 then []
        else
          let newsep :=
            match findLiteral img "_DELIM_" with
            | none => 0x3a
            | some (p, _) => img.byte p
          globalsTrace newsep (cstr (img.slice p i.toNat))

/-- An entry with a NUL behind it, and then what follows; `missing` if there is none. -/
def entryThen (img : Image) (key : String) (missing next : List Access) : List Access :=
  literalTrace img key ++
    match findLiteral img key with
    | none => missing
    | some (p, i) =>
      entryTrace 1024 p i ++
        match copyEntry img p i with
        | .error _ => []
        | .ok _ => next

/-- `cdb_new`, once the file is open. `strncpy` writes all 1024 bytes. -/
def loadTrace (img : Image) : List Access :=
  let table := columnsTrace img
  let dbn := entryThen img "_TABLE_" (bufferWrites 1024 1024 ++ table) table
  if img.len = 0 then []
  else entryThen img "_KEY_" [] (entryThen img "_DB_" (bufferWrites 1024 1024 ++ dbn) dbn)

/-- The loop of `cdb_get` at `e_p`, with so many bytes left to `data+dlen`: the byte is looked
at, and what lies between `s_p` and it is copied where a field ends. -/
def fieldsTrace (img : Image) (sep : Byte) : Nat → Nat → Nat → List Access
  | 0, sp, ep => .image ep :: imageReads sp (ep - sp)
  | left + 1, sp, ep =>
    .image ep ::
      if img.byte ep = sep then
        imageReads sp (ep - sp) ++ fieldsTrace img sep left (ep + 1) (ep + 1)
      else fieldsTrace img sep left sp (ep + 1)

/-- `cdb_get`, with this image in memory. -/
def getTrace (img : Image) (key : Bytes) (after : Nat → Byte) (sep : Byte) : List Access :=
  findTrace img.asInt key after ++
    match cdbFindbykey img key after with
    | none => []
    | some (data, dlen) => fieldsTrace img sep dlen.toNat data data

/-- What is wanted for any file and any key. -/
structure InBounds (img : Image) (key : Bytes) (after : Nat → Byte) (sep : Byte) : Prop where
  find : AllInside img.len (findTrace img.asInt key after)
  data : ∀ p i, cdbFindbykey img key after = some (p, i) → p + i.toNat ≤ img.len
  get : AllInside img.len (getTrace img key after sep)
  load : AllInside img.len (loadTrace img)

/-! ## When it holds -/

/-- The record of an entry of the file about itself. -/
def EntryAt (img : Image) (name : String) (q : Nat) : Prop :=
  ComesTo img.asInt (ascii name) (fun _ => 0) q

/-- The length that the record at `q` gives for its data. -/
def dataLen (img : Image) (q : Nat) : Nat := (img.word (q + 4)).toNat

/-- There is no such entry and `missing` holds, or it is too long and refused, or it is inside
the file and shorter than 1024 bytes and `next` holds. -/
def EntryFits (img : Image) (name : String) (missing next : Prop) : Prop :=
  ((∀ q, ¬ EntryAt img name q) → missing) ∧
    ∀ q, EntryAt img name q → dataLen img q ≤ 1024 →
      dataLen img q < 1024 ∧ q + 8 + (ascii name).length + dataLen img q ≤ img.len ∧ next

/-- A byte is behind the record of the delimiter; the columns are inside or refused. -/
structure ColumnsFit (img : Image) : Prop where
  delim : ∀ q, EntryAt img "_DELIM_" q → q + 8 + (ascii "_DELIM_").length < img.len
  values : ∀ q, EntryAt img "_VALUES_" q → dataLen img q < 1024 →
    q + 8 + (ascii "_VALUES_").length + dataLen img q ≤ img.len

/-- The entries that `cdb_new` looks at fit, as far as it gets. -/
def EntriesFit (img : Image) : Prop :=
  let dbn := EntryFits img "_TABLE_" (ColumnsFit img) (ColumnsFit img)
  img.len = 0 ∨ EntryFits img "_KEY_" True (EntryFits img "_DB_" dbn dbn)

/-- The record of the key ends before the file does, and `match` does not read on behind the
key in it. -/
def RecordFits (img : Image) (key : Bytes) (after : Nat → Byte) : Prop :=
  ∀ q, ComesTo img.asInt key after q →
    ¬ PassesKey img.asInt key.length q ∧
      (WholePieces key.length → q + 8 + key.length + dataLen img q < img.len)

variable {img : Image} {key : Bytes} {after : Nat → Byte}

theorem asInt_le (img : Image) : img.asInt.len ≤ img.len := by
  show (intOfLen img.len).toNat ≤ img.len
  unfold intOfLen
  split
  · omega
  · omega

/-- What `cdb_findbykey` returns. -/
theorem cdbFindbykey_some (hkey : key.length < 2 ^ 32) {p : Nat} {i : UInt32} :
    cdbFindbykey img key after = some (p, i) ↔
      WholePieces key.length ∧ ∃ q, ComesTo img.asInt key after q ∧ p = q + 8 + key.length ∧
        i = img.word (q + 4) := by
  have hfind : cdbFindbykey img key after = some (p, i) ↔
      cdbFind img.asInt key after = .found p i := by
    unfold cdbFindbykey
    by_cases hneg : intOfLen img.len < 0
    · have hempty : img.asInt.len = 0 := Int.toNat_eq_zero.mpr (Int.le_of_lt hneg)
      have herr : cdbFind img.asInt key after = .ioError := by
        rw [cdbFind_eq _ _ _ hkey]
        exact if_pos (by omega)
      rw [if_pos hneg, herr]
      simp
    · have himg : ({ img with len := (intOfLen img.len).toNat } : Image) = img.asInt := rfl
      rw [if_neg hneg, himg]
      cases cdbFind img.asInt key after with
      | ioError => simp
      | absent => simp
      | found ret retlen => simp
  rw [hfind]
  exact cdbFind_found hkey

theorem comesTo_inside {q : Nat} (h : ComesTo img key after q) :
    q + 8 + key.length ≤ img.len := by
  obtain ⟨-, -, slot, -, hq⟩ := h
  exact hq.inside

/-- `cdb_find` comes to one record only. -/
theorem comesTo_unique (hkey : key.length < 2 ^ 32) (hwhole : WholePieces key.length) {q q' : Nat}
    (hq : ComesTo img.asInt key after q) (hq' : ComesTo img.asInt key after q') : q' = q := by
  have hsome := (cdbFindbykey_some hkey).mpr ⟨hwhole, q, hq, rfl, rfl⟩
  rw [(cdbFindbykey_some hkey).mpr ⟨hwhole, q', hq', rfl, rfl⟩] at hsome
  have hpos := (Prod.mk.inj (Option.some.inj hsome)).1
  omega

/-! ## `cdb_get` -/

/-- The loop looks at everything up to and including the byte behind the data. -/
theorem fieldsTrace_inside {L : Nat} {sep : Byte} :
    ∀ {left sp ep : Nat}, sp ≤ ep →
      (AllInside L (fieldsTrace img sep left sp ep) ↔ ep + left < L) := by
  intro left
  induction left with
  | zero =>
    intro sp ep hle
    constructor
    · intro h
      exact h _ (List.mem_cons_self ..)
    · intro h a ha
      rcases List.mem_cons.mp ha with rfl | ha
      · exact h
      · exact allInside_reads.mpr (Or.inr (by omega)) a ha
  | succ left ih =>
    intro sp ep hle
    rw [fieldsTrace, ← List.singleton_append, allInside_append]
    have hfirst : AllInside L [.image ep] ↔ ep < L := List.forall_mem_singleton
    rw [hfirst]
    split
    · rw [allInside_append, ih (Nat.le_refl _), allInside_reads]
      omega
    · rw [ih (by omega)]
      omega

theorem getTrace_inside (hkey : key.length < 2 ^ 32) {sep : Byte} :
    AllInside img.len (getTrace img key after sep) ↔ RecordFits img key after := by
  unfold getTrace RecordFits
  rw [allInside_append, findTrace_inside (asInt_le img) hkey]
  cases hfind : cdbFindbykey img key after with
  | none =>
    have hnone : ∀ q, ComesTo img.asInt key after q → ¬ WholePieces key.length := by
      intro q hq hwhole
      have hsome := (cdbFindbykey_some hkey).mpr ⟨hwhole, q, hq, rfl, rfl⟩
      rw [hfind] at hsome
      exact absurd hsome (by simp)
    rw [and_iff_left allInside_nil]
    exact ⟨fun h q hq => ⟨h q hq, fun hwhole => absurd hwhole (hnone q hq)⟩,
      fun h q hq => (h q hq).1⟩
  | some r =>
    obtain ⟨p, i⟩ := r
    obtain ⟨hwhole, q, hq, rfl, rfl⟩ := (cdbFindbykey_some hkey).mp hfind
    rw [fieldsTrace_inside (Nat.le_refl _)]
    constructor
    · intro ⟨hfind', hlt⟩ q' hq'
      obtain rfl := comesTo_unique hkey hwhole hq hq'
      exact ⟨hfind' _ hq', fun _ => hlt⟩
    · intro h
      exact ⟨fun q' hq' => (h q' hq').1, (h q hq).2 hwhole⟩

/-! ## `cdb_new` -/

/-- The names are cut out of the text that was counted. -/
theorem namesTrace_inside {L : Nat} {newsep : Byte} :
    ∀ {n sp : Nat} {s : Bytes}, n ≤ countFields newsep s → sp + s.length < 1024 →
      AllInside L (namesTrace newsep n sp s) := by
  intro n
  induction n with
  | zero => intro sp s _ _; exact allInside_nil
  | succ n ih =>
    intro sp s hn hsp
    have hlen : (s.takeWhile (· ≠ newsep)).length ≤ s.length :=
      (List.takeWhile_sublist _).length_le
    rw [countFields_name] at hn
    rw [namesTrace]
    refine allInside_append.mpr
      ⟨allInside_append.mpr ⟨?_, allInside_writes.mpr (Nat.le_refl _)⟩, ?_⟩
    · intro a ha
      obtain ⟨i, hi, rfl⟩ := List.mem_map.mp ha
      have hin := List.mem_range.mp hi
      show sp + i < 1024
      omega
    · by_cases hmem : newsep ∈ s
      · rw [if_pos hmem] at hn
        -- the delimiter is in the text, so there is something behind the name
        have hshort : (s.takeWhile (· ≠ newsep)).length < s.length := by
          refine Nat.lt_of_le_of_ne hlen fun heq => ?_
          have hall := List.takeWhile_eq_self_iff.mp
            ((List.takeWhile_sublist (· ≠ newsep)).eq_of_length heq)
          exact absurd (hall newsep hmem) (by simp)
        refine ih (by omega) ?_
        rw [List.length_drop]
        omega
      · rw [if_neg hmem] at hn
        obtain rfl : n = 0 := by omega
        exact allInside_nil

theorem globalsTrace_inside {L : Nat} {newsep : Byte} {cdbfieldsS : Bytes}
    (h : cdbfieldsS.length < 1024) : AllInside L (globalsTrace newsep cdbfieldsS) := by
  unfold globalsTrace
  refine allInside_append.mpr ⟨allInside_append.mpr ⟨allInside_writes.mpr (by omega), ?_⟩,
    allInside_writes.mpr (Nat.le_refl _)⟩
  exact namesTrace_inside (Nat.le_refl _) (by omega)

/-- The literals are short: looking them up touches nothing it should not. -/
theorem literalTrace_inside {name : String} (h : (ascii name).length ≤ 32) :
    AllInside img.len (literalTrace img name) :=
  (findTrace_inside (asInt_le img) (by omega)).mpr fun _ _ hpass => hpass.1 (Or.inl h)

/-- An entry within `max` bytes has to be in the file, with room for the NUL. -/
theorem entryTrace_inside {max p : Nat} {i : UInt32} (hp : p ≤ img.len) :
    AllInside img.len (entryTrace max p i) ↔
      (i.toNat ≤ max → i.toNat < 1024 ∧ p + i.toNat ≤ img.len) := by
  unfold entryTrace copyTrace
  by_cases hmax : i.toNat > max
  · rw [if_pos hmax]
    exact iff_of_true allInside_nil fun h => absurd h (by omega)
  · have hnul : AllInside img.len [.buffer 1024 i.toNat] ↔ i.toNat < 1024 :=
      List.forall_mem_singleton
    rw [if_neg hmax, allInside_append, allInside_append, allInside_reads, allInside_writes, hnul]
    omega

theorem findLiteral_some {name : String} (h : (ascii name).length ≤ 32) {p : Nat} {i : UInt32} :
    findLiteral img name = some (p, i) ↔
      ∃ q, EntryAt img name q ∧ p = q + 8 + (ascii name).length ∧ i = img.word (q + 4) :=
  (cdbFindbykey_some (by omega)).trans (and_iff_right (Or.inl h))

theorem findLiteral_none {name : String} (h : (ascii name).length ≤ 32) :
    findLiteral img name = none ↔ ∀ q, ¬ EntryAt img name q := by
  constructor
  · intro hnone q hq
    have hsome := (findLiteral_some h).mpr ⟨q, hq, rfl, rfl⟩
    rw [hnone] at hsome
    exact absurd hsome (by simp)
  · intro hno
    cases hfind : findLiteral img name with
    | none => rfl
    | some r =>
      obtain ⟨q, hq, -⟩ := (findLiteral_some (p := r.1) (i := r.2) h).mp hfind
      exact absurd hq (hno q)

/-- Where an entry is found there is only one. -/
theorem entryAt_unique {name : String} (h : (ascii name).length ≤ 32) {q q' : Nat}
    (hq : EntryAt img name q) (hq' : EntryAt img name q') : q' = q :=
  comesTo_unique (by omega) (Or.inl h) hq hq'

/-- What holds of every such entry holds of the one that is found. -/
theorem forall_entryAt {name : String} (h : (ascii name).length ≤ 32) {q : Nat}
    (hq : EntryAt img name q) {P : Nat → Prop} :
    (∀ q', EntryAt img name q' → P q') ↔ P q := by
  constructor
  · intro hall
    exact hall q hq
  · intro hP q' hq'
    obtain rfl := entryAt_unique h hq hq'
    exact hP

theorem entryAt_inside {name : String} {q : Nat} (hq : EntryAt img name q) :
    q + 8 + (ascii name).length ≤ img.len :=
  Nat.le_trans (comesTo_inside hq) (asInt_le img)

/-- An entry stays inside exactly if it fits. -/
theorem entryThen_inside {name : String} (h : (ascii name).length ≤ 32)
    {missing next : List Access} {M N : Prop} (hmissing : AllInside img.len missing ↔ M)
    (hnext : AllInside img.len next ↔ N) :
    AllInside img.len (entryThen img name missing next) ↔ EntryFits img name M N := by
  unfold entryThen EntryFits
  rw [allInside_append, and_iff_right (literalTrace_inside h)]
  cases hfind : findLiteral img name with
  | none =>
    have hno := (findLiteral_none h).mp hfind
    dsimp only
    rw [hmissing]
    exact ⟨fun hm => ⟨fun _ => hm, fun q hq => absurd hq (hno q)⟩, fun hm => hm.1 hno⟩
  | some r =>
    obtain ⟨p, i⟩ := r
    obtain ⟨q, hq, rfl, rfl⟩ := (findLiteral_some h).mp hfind
    dsimp only
    -- that there is no such entry is excluded first
    rw [allInside_append, entryTrace_inside (entryAt_inside hq), forall_entryAt h hq,
      and_iff_right False.elim, forall_entryAt h hq]
    show (dataLen img q ≤ 1024 → _) ∧ _ ↔ _
    unfold copyEntry
    by_cases hlong : dataLen img q > 1024
    · have hrefused : (img.word (q + 4)).toNat > 1024 := hlong
      rw [if_pos hrefused]
      exact iff_of_true ⟨fun hle => absurd hle (by omega), allInside_nil⟩
        fun hle => absurd hle (by omega)
    · have hfits : ¬ (img.word (q + 4)).toNat > 1024 := hlong
      rw [if_neg hfits]
      by_cases hfull : dataLen img q = 1024
      · have hover : (img.word (q + 4)).toNat = 1024 := hfull
        rw [if_pos hover]
        refine iff_of_false (fun hin => ?_) fun hin => ?_
        · exact absurd (hin.1 (by omega)).1 (by omega)
        · exact absurd (hin (by omega)).1 (by omega)
      · have hover : ¬ (img.word (q + 4)).toNat = 1024 := hfull
        rw [if_neg hover]
        dsimp only
        rw [hnext]
        constructor
        · intro ⟨hin, hn⟩ hle
          exact ⟨(hin hle).1, (hin hle).2, hn⟩
        · intro hin
          obtain ⟨hlt, hend, hn⟩ := hin (by omega)
          exact ⟨fun _ => ⟨hlt, hend⟩, hn⟩

/-- Only the first byte of the delimiter is looked at. -/
theorem delimTrace_inside (h : (ascii "_DELIM_").length ≤ 32) :
    AllInside img.len (match findLiteral img "_DELIM_" with
      | none => []
      | some (p, _) => [.image p]) ↔
      ∀ q, EntryAt img "_DELIM_" q → q + 8 + (ascii "_DELIM_").length < img.len := by
  cases hfind : findLiteral img "_DELIM_" with
  | none => exact iff_of_true allInside_nil fun q hq => absurd hq ((findLiteral_none h).mp hfind q)
  | some r =>
    obtain ⟨p, i⟩ := r
    obtain ⟨q, hq, rfl, rfl⟩ := (findLiteral_some h).mp hfind
    rw [forall_entryAt h hq]
    exact List.forall_mem_singleton

/-- What was copied ends at a NUL, so it is not longer than it was in the file. -/
theorem cstr_slice_length (pos len : Nat) : (cstr (img.slice pos len)).length ≤ len := by
  have hslice : (img.slice pos len).length = len := by
    unfold Image.slice
    rw [List.length_map, List.length_range]
  calc (cstr (img.slice pos len)).length
      ≤ (img.slice pos len).length := (List.takeWhile_sublist _).length_le
    _ = len := hslice

theorem columnsTrace_inside : AllInside img.len (columnsTrace img) ↔ ColumnsFit img := by
  have hdelim : (ascii "_DELIM_").length ≤ 32 := by decide
  have hvalues : (ascii "_VALUES_").length ≤ 32 := by decide
  unfold columnsTrace
  rw [allInside_append, allInside_append, allInside_append,
    and_iff_right (literalTrace_inside hdelim), and_iff_left (literalTrace_inside hvalues),
    delimTrace_inside hdelim]
  cases hfind : findLiteral img "_VALUES_" with
  | none =>
    have hno := (findLiteral_none hvalues).mp hfind
    exact ⟨fun h => ⟨h.1, fun q hq => absurd hq (hno q)⟩, fun h => ⟨h.delim, allInside_nil⟩⟩
  | some r =>
    obtain ⟨p, i⟩ := r
    obtain ⟨q, hq, rfl, rfl⟩ := (findLiteral_some hvalues).mp hfind
    dsimp only
    rw [allInside_append, entryTrace_inside (entryAt_inside hq)]
    show _ ∧ (dataLen img q ≤ 1023 → _) ∧ _ ↔ _
    have hrest : AllInside img.len (if (img.word (q + 4)).toNat ≥ 1024 then []
        else globalsTrace (match findLiteral img "_DELIM_" with
          | none => 0x3a
          | some (p, _) => img.byte p)
          (cstr (img.slice (q + 8 + (ascii "_VALUES_").length) (img.word (q + 4)).toNat))) := by
      by_cases hlong : (img.word (q + 4)).toNat ≥ 1024
      · rw [if_pos hlong]
        exact allInside_nil
      · rw [if_neg hlong]
        exact globalsTrace_inside (Nat.lt_of_le_of_lt (cstr_slice_length _ _) (by omega))
    rw [and_iff_left hrest]
    constructor
    · intro ⟨hd, hin⟩
      refine ⟨hd, (forall_entryAt hvalues hq).mpr fun hlt => ?_⟩
      exact (hin (by omega)).2
    · intro h
      refine ⟨h.delim, fun hle => ⟨?_, h.values q hq (by omega)⟩⟩
      show dataLen img q < 1024
      omega

theorem loadTrace_inside : AllInside img.len (loadTrace img) ↔ EntriesFit img := by
  have hkey : (ascii "_KEY_").length ≤ 32 := by decide
  have hdb : (ascii "_DB_").length ≤ 32 := by decide
  have htable : (ascii "_TABLE_").length ≤ 32 := by decide
  -- the default is copied over the whole array
  have hdefault : ∀ {l : List Access} {P : Prop}, (AllInside img.len l ↔ P) →
      (AllInside img.len (bufferWrites 1024 1024 ++ l) ↔ P) := by
    intro l P hl
    rw [allInside_append, and_iff_right (allInside_writes.mpr (Nat.le_refl _)), hl]
  have hcolumns : AllInside img.len (columnsTrace img) ↔ ColumnsFit img := columnsTrace_inside
  have htable' := entryThen_inside htable (hdefault hcolumns) hcolumns
  have hdb' := entryThen_inside hdb (hdefault htable') htable'
  have hkey' := entryThen_inside hkey (iff_of_true allInside_nil trivial) hdb'
  unfold loadTrace EntriesFit
  dsimp only
  by_cases hempty : img.len = 0
  · rw [if_pos hempty]
    exact iff_of_true allInside_nil (Or.inl hempty)
  · rw [if_neg hempty, or_iff_right hempty]
    exact hkey'

/-- **Which files and keys keep the server inside.** If and only if the entries that
`cdb_new` looks at fit into the file and into its arrays, and the record of the key ends
before the file does and is not longer than `match` can compare. -/
theorem in_bounds_iff (img : Image) (key : Bytes) (after : Nat → Byte) (sep : Byte)
    (hkey : key.length < 2 ^ 32) :
    InBounds img key after sep ↔ EntriesFit img ∧ RecordFits img key after := by
  constructor
  · intro h
    exact ⟨loadTrace_inside.mp h.load, (getTrace_inside hkey).mp h.get⟩
  · intro ⟨hload, hget⟩
    refine ⟨?_, fun p i hfind => ?_, (getTrace_inside hkey).mpr hget, loadTrace_inside.mpr hload⟩
    · exact (findTrace_inside (asInt_le img) hkey).mpr fun q hq => (hget q hq).1
    · obtain ⟨hwhole, q, hq, rfl, rfl⟩ := (cdbFindbykey_some hkey).mp hfind
      exact Nat.le_of_lt ((hget q hq).2 hwhole)

instance (len : Nat) : DecidablePred (Access.Inside len) := fun a =>
  match a with
  | .image p => inferInstanceAs (Decidable (p < len))
  | .key size i => inferInstanceAs (Decidable (i < size))
  | .buffer size i => inferInstanceAs (Decidable (i < size))

/-- The trace checked byte by byte. -/
theorem allInside_of_all {L : Nat} {l : List Access}
    (h : (l.all fun a => decide (a.Inside L)) = true) : AllInside L l := fun a ha =>
  of_decide_eq_true (List.all_eq_true.mp h a ha)

/-- A file in order, and the key `bob`. -/
theorem in_bounds_iff_bob :
    EntriesFit twoColumns ∧ RecordFits twoColumns (ascii "bob") fun _ => 0 := by
  have hfind : cdbFindbykey twoColumns (ascii "bob") (fun _ => 0) = some (2101, 5) := by
    decide +kernel
  refine (in_bounds_iff twoColumns (ascii "bob") (fun _ => 0) 0x3a (by decide)).mp
    ⟨allInside_of_all (by decide +kernel), fun p i h => ?_, allInside_of_all (by decide +kernel),
      allInside_of_all (by decide +kernel)⟩
  rw [hfind] at h
  obtain ⟨rfl, rfl⟩ := Prod.mk.inj (Option.some.inj h)
  decide

/-- `twoColumns`, but the record of `bob` claims to have 255 bytes of data. -/
def lyingRecord : Image :=
  { twoColumns with byte := fun p => if p = 2094 then 255 else twoColumns.byte p }

/-- The data of `bob` passes the end of the file, and is returned. -/
theorem data_past_end :
    ¬ ∀ (img : Image) (key : Bytes) (after : Nat → Byte) (sep : Byte), key.length < 2 ^ 32 →
      InBounds img key after sep := by
  intro h
  have hfind : cdbFindbykey lyingRecord (ascii "bob") (fun _ => 0) = some (2101, 255) := by
    decide +kernel
  have hdata := (h lyingRecord (ascii "bob") (fun _ => 0) 0x3a (by decide)).data _ _ hfind
  exact absurd hdata (by decide)

end Nastd.Server
