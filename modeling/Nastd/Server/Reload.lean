import Nastd.Server.Cdb
import Nastd.Lib.Run
import Mathlib.Data.List.TakeWhile

/-!
# Reloading the CDB, with everything that can fail

`cdb_new` of `server/cdb.c` once more, now with the calls that may fail: the allocation of
the lock and its initialisation, `open`, `fstat`, `mmap`, the array of columns and the name
of each of them. `Failures` says which of them do. What is looked up in the file is
`readEntries` of `Server/Cdb.lean`.

The globals are replaced all or none, and `LoadedFrom` says what they should be replaced by,
without the loops, by splitting a list. But `cdb_new` believes the lengths it finds in
the file: an entry that is said to go on behind the end of it is copied with what lies there
(`reload_reads_behind`). `reload_atomic_iff` is that nothing else goes wrong.
`cdbNewSteps_quiet` is that `cdbNew` is this with no failures, `reloads_whole` what
follows for any run of reloads.

The lock is a state of its own. It is missing only before the first `cdb_new`, and if that
one fails the server exits.
-/

namespace Nastd.Server

open Nastd.Lib

/-- Which calls of `cdb_new` fail; `name i` is the allocation for the name of field `i`. -/
structure Failures where
  mutex : Bool
  mutexNew : Bool
  fstat : Bool
  mmap : Bool
  newfields : Bool
  name : Nat → Bool

/-- Nothing fails. -/
def noFailures : Failures := ⟨false, false, false, false, false, fun _ => false⟩

/-- `fieldent`. -/
structure FieldEnt where
  name : Bytes
  index : Int
  deriving DecidableEq

/-- `cdb_lk`: NULL, allocated only, or initialised. -/
inductive CdbLk where
  | missing
  | allocated
  | ready
  deriving DecidableEq

/-- The globals, with the types of the source. -/
structure CdbGlobals where
  memcdb : Option Image
  cdbLen : UInt32
  cdbMtime : Int
  dbKey : Bytes
  dbDbn : Bytes
  dbTbl : Bytes
  dbFields : List FieldEnt
  dbSep : Byte
  dbFieldcount : Int

structure CdbState where
  lk : CdbLk
  globals : CdbGlobals

/-- The loop over the names: `none` as soon as one cannot be allocated. -/
def cutNames (fails : Nat → Bool) (newsep : Byte) : Nat → Nat → Bytes → Option (List FieldEnt)
  | 0, _, _ => some []
  | n + 1, i, s =>
    let name := s.takeWhile (· ≠ newsep)
    if fails i then none
    else
      (cutNames fails newsep n (i + 1) (s.drop (name.length + 1))).map fun rest =>
        ⟨name, short (UInt16.ofNat i)⟩ :: rest

/-- The end of `cdb_new`, under the write lock. -/
def NewCdb.install (new : NewCdb) (file : CdbFile) (newfields : List FieldEnt)
    (newfieldcount : Nat) : CdbGlobals where
  memcdb := some file.image
  cdbLen := UInt32.ofNat file.image.len
  cdbMtime := file.mtime
  dbKey := new.newkey
  dbDbn := new.newdbn
  dbTbl := new.newtbl
  dbFields := newfields
  dbSep := new.newsep
  dbFieldcount := short (UInt16.ofNat newfieldcount)

/-- `cdb_new` from `open` on, with the lock there. The file may be missing. -/
def openAndLoad (fails : Failures) (file : Option CdbFile) (s : CdbState) :
    Option (Int × CdbState) :=
  match file with
  | none => some (-1, s)
  | some f =>
    if fails.fstat then some (-1, s)
    else if fails.mmap then some (-1, s)
    else
      match readEntries f.image with
      | .error .refused => some (-1, s)
      | .error .overflow => none
      | .ok new =>
        let newfieldcount := countFields new.newsep new.cdbfieldsS
        if fails.newfields then some (-1, s)
        else
          match cutNames fails.name new.newsep newfieldcount 0 new.cdbfieldsS with
          | none => some (-1, s)
          | some newfields => some (0, { s with globals := new.install f newfields newfieldcount })

/-- `cdb_new`. -/
def cdbNewSteps (fails : Failures) (file : Option CdbFile) (s : CdbState) :
    Option (Int × CdbState) :=
  match s.lk with
  | .missing =>
    if fails.mutex then some (-1, s)
    else if fails.mutexNew then some (-1, { s with lk := .allocated })
    else openAndLoad fails file { s with lk := .ready }
  | _ => openAndLoad fails file s

/-- `cdb_get` on the globals. It goes by `cdb_len`. -/
def CdbGlobals.get (g : CdbGlobals) (key : Bytes) (after : Nat → Byte) : Int × List Bytes :=
  match g.memcdb with
  | none => (-1, [])
  | some img =>
    match cdbFindbykey { img with len := g.cdbLen.toNat } key after with
    | none => (-1, [])
    | some (data, dlen) => (0, splitFields g.dbSep [] (img.slice data dlen.toNat))

/-! ## What a file says about itself -/

/-- A text of `n` bytes at most ends in the file, with its record or with a NUL. -/
def Image.EndsInside (img : Image) (p n : Nat) : Prop :=
  p + n ≤ img.len ∨ 0 ∈ img.slice p (min n (img.len - p))

instance (img : Image) (p n : Nat) : Decidable (img.EndsInside p n) :=
  inferInstanceAs (Decidable (_ ∨ _))

/-- The text of an entry, up to its first NUL, if that is in the file. -/
def entryText (img : Image) (name : String) : Option Bytes :=
  (findLiteral img name).bind fun r =>
    if img.EndsInside r.1 r.2.toNat then
      some (cstr (img.slice r.1 (min r.2.toNat (img.len - r.1))))
    else none

/-- The same of an entry that may be missing. -/
def textOr (img : Image) (name default : String) : Option Bytes :=
  match findLiteral img name with
  | none => some (ascii default)
  | some _ => entryText img name

/-- The delimiter, if its byte is in the file. -/
def delimByte (img : Image) : Option Byte :=
  match findLiteral img "_DELIM_" with
  | none => some 0x3a
  | some (p, _) => if p < img.len then some (img.byte p) else none

/-- The globals are those of this file. -/
structure CdbGlobals.LoadedFrom (g : CdbGlobals) (f : CdbFile) : Prop where
  memcdb : g.memcdb = some f.image
  cdbLen : g.cdbLen = UInt32.ofNat f.image.len
  cdbMtime : g.cdbMtime = f.mtime
  dbKey : entryText f.image "_KEY_" = some g.dbKey
  dbDbn : textOr f.image "_DB_" DBNAME = some g.dbDbn
  dbTbl : textOr f.image "_TABLE_" DBTBL = some g.dbTbl
  dbSep : delimByte f.image = some g.dbSep
  names : ∃ text, entryText f.image "_VALUES_" = some text ∧
    g.dbFields.map FieldEnt.name = text.splitOn g.dbSep
  index : ∀ i (h : i < g.dbFields.length), g.dbFields[i].index = i
  count : g.dbFieldcount = g.dbFields.length

/-- The entries that `cdb_new` looks for. -/
def metadata : List String := ["_KEY_", "_DB_", "_TABLE_", "_DELIM_", "_VALUES_"]

/-- Their records are shorter than the arrays. -/
def MetadataShort (img : Image) : Prop :=
  ∀ name ∈ metadata, ∀ p i, findLiteral img name = some (p, i) → i.toNat < 1024

/-- What `cdb_new` takes of them is in the file: the texts, and one byte of `_DELIM_`. -/
structure MetadataInside (img : Image) : Prop where
  texts : ∀ name ∈ ["_KEY_", "_DB_", "_TABLE_", "_VALUES_"], ∀ p i,
    findLiteral img name = some (p, i) → img.EndsInside p i.toNat
  delim : ∀ p i, findLiteral img "_DELIM_" = some (p, i) → p < img.len

/-- `cdb_new` finds what it cannot do without. -/
structure Complete (img : Image) : Prop where
  key : findLiteral img "_KEY_" ≠ none
  values : findLiteral img "_VALUES_" ≠ none

/-- What `cdb_new` copies of an entry, wherever that ends. -/
def copiedText (img : Image) (name : String) : Option Bytes :=
  (findLiteral img name).map fun r => cstr (img.slice r.1 r.2.toNat)

/-- What it takes for the delimiter. -/
def copiedDelim (img : Image) : Byte :=
  ((findLiteral img "_DELIM_").map fun r => img.byte r.1).getD 0x3a

/-- The names that it cuts. -/
def namesCut (img : Image) : List Bytes :=
  ((copiedText img "_VALUES_").getD []).splitOn (copiedDelim img)

/-- From `open` on, `cdb_new` comes to an end before it replaces anything. -/
def LoadFails (fails : Failures) : Option CdbFile → Prop
  | none => True
  | some f =>
    fails.fstat = true ∨ fails.mmap = true ∨ f.image.len = 0 ∨ ¬ Complete f.image ∨
      fails.newfields = true ∨ ∃ i, i < (namesCut f.image).length ∧ fails.name i = true

/-- `cdb_new` gives up before it replaces anything. -/
def GivesUp (fails : Failures) (file : Option CdbFile) (s : CdbState) : Prop :=
  s.lk = .missing ∧ (fails.mutex = true ∨ fails.mutexNew = true) ∨ LoadFails fails file

/-- A call of `cdb_new` is all or nothing: it returns -1 and the globals are as before, so that
every `cdb_get` answers as before; or it returns 0 and they are those of the file. -/
def ReloadAtomic (fails : Failures) (file : Option CdbFile) (s : CdbState) : Prop :=
  ∃ rc s', cdbNewSteps fails file s = some (rc, s') ∧
    ((rc = -1 ∧ s'.globals = s.globals ∧
        ∀ key after, s'.globals.get key after = s.globals.get key after) ∨
      (rc = 0 ∧ ∃ f, file = some f ∧ s'.globals.LoadedFrom f))

/-! ## Texts that end in the file -/

/-- A slice is one of its first bytes, and the rest. -/
theorem slice_append (img : Image) (p m k : Nat) :
    img.slice p (m + k) = img.slice p m ++ img.slice (p + m) k := by
  unfold Image.slice
  rw [List.range_add, List.map_append, List.map_map]
  refine congrArg (img.slice p m ++ ·) (List.map_congr_left fun i _ => ?_)
  show img.byte (p + (m + i)) = img.byte (p + m + i)
  rw [Nat.add_assoc]

/-- What stands behind the first NUL does not matter. -/
theorem cstr_append {a : Bytes} (h : 0 ∈ a) (b : Bytes) : cstr (a ++ b) = cstr a := by
  have hshorter : (a.takeWhile fun x => decide (x ≠ 0)).length ≠ a.length := by
    intro hlen
    have hall := List.takeWhile_eq_self_iff.mp
      ((List.takeWhile_prefix fun x => decide (x ≠ 0)).eq_of_length hlen)
    exact absurd (hall 0 h) (by decide)
  unfold cstr
  rw [List.takeWhile_append, if_neg hshorter]

/-- A text that ends in the file is copied as it stands there. -/
theorem cstr_slice_inside {img : Image} {p n : Nat} (h : img.EndsInside p n) :
    cstr (img.slice p n) = cstr (img.slice p (min n (img.len - p))) := by
  rcases h with hrecord | hnul
  · rw [Nat.min_eq_left (by omega)]
  · obtain ⟨k, hk⟩ := Nat.exists_eq_add_of_le (Nat.min_le_left n (img.len - p))
    generalize hm : min n (img.len - p) = m at hk hnul ⊢
    rw [hk, slice_append, cstr_append hnul]

theorem entryText_copied {img : Image} {name : String}
    (h : ∀ p i, findLiteral img name = some (p, i) → img.EndsInside p i.toNat) :
    entryText img name = copiedText img name := by
  unfold entryText copiedText
  cases hfind : findLiteral img name with
  | none => rfl
  | some r =>
    have hinside := h r.1 r.2 hfind
    rw [Option.bind_some, if_pos hinside, ← cstr_slice_inside hinside]
    rfl

theorem endsInside_of_text {img : Image} {name : String} {text : Bytes}
    (h : entryText img name = some text) :
    ∀ p i, findLiteral img name = some (p, i) → img.EndsInside p i.toNat := by
  intro p i hfind
  unfold entryText at h
  rw [hfind, Option.bind_some] at h
  split at h
  · next hinside => exact hinside
  · exact absurd h (by simp)

theorem endsInside_of_textOr {img : Image} {name default : String} {text : Bytes}
    (h : textOr img name default = some text) :
    ∀ p i, findLiteral img name = some (p, i) → img.EndsInside p i.toNat := by
  intro p i hfind
  unfold textOr at h
  rw [hfind] at h
  exact endsInside_of_text h p i hfind

/-- The globals of a file say where its entries end. -/
theorem CdbGlobals.LoadedFrom.inside {g : CdbGlobals} {f : CdbFile} (h : g.LoadedFrom f) :
    MetadataInside f.image := by
  obtain ⟨text, hvalues, -⟩ := h.names
  refine ⟨fun name hname => ?_, fun p i hfind => ?_⟩
  · simp only [List.mem_cons, List.not_mem_nil, or_false] at hname
    rcases hname with rfl | rfl | rfl | rfl
    · exact endsInside_of_text h.dbKey
    · exact endsInside_of_textOr h.dbDbn
    · exact endsInside_of_textOr h.dbTbl
    · exact endsInside_of_text hvalues
  · have hdelim := h.dbSep
    unfold delimByte at hdelim
    rw [hfind] at hdelim
    dsimp only at hdelim
    split at hdelim
    · next hlt => exact hlt
    · exact absurd hdelim (by simp)

/-! ## Counting and cutting agree -/

/-- The first name of a text with a delimiter in it. -/
theorem takeWhile_delim {newsep : Byte} {name rest : Bytes} (h : newsep ∉ name) :
    (name ++ newsep :: rest).takeWhile (· ≠ newsep) = name := by
  rw [List.takeWhile_append_of_pos, List.takeWhile_cons_of_neg (by simp), List.append_nil]
  intro b hb
  refine decide_eq_true fun hbs => ?_
  rw [hbs] at hb
  exact h hb

/-- The names that are cut are the text split at the delimiter. -/
theorem fieldNames_splitOn (newsep : Byte) :
    ∀ (n : Nat) (s : Bytes), n = countFields newsep s →
      fieldNames newsep n s = s.splitOn newsep := by
  intro n
  induction n with
  | zero =>
    intro s hn
    have hpos := countFields_pos newsep s
    omega
  | succ n ih =>
    intro s hn
    rw [countFields_name] at hn
    rw [fieldNames]
    by_cases hmem : newsep ∈ s
    · rw [if_pos hmem] at hn
      obtain ⟨name, rest, rfl, hname⟩ := List.eq_append_cons_of_mem hmem
      have hrest : (name ++ newsep :: rest).drop (name.length + 1) = rest := by
        rw [List.drop_append, List.drop_of_length_le (by omega), Nat.add_sub_cancel_left]
        rfl
      rw [takeWhile_delim hname] at hn ⊢
      rw [hrest] at hn ⊢
      rw [ih rest (by omega), List.splitOn_append_cons_self_of_not_mem hname]
    · rw [if_neg hmem] at hn
      obtain rfl : n = 0 := by omega
      have hall : s.takeWhile (· ≠ newsep) = s := by
        refine List.takeWhile_eq_self_iff.mpr fun b hb => decide_eq_true fun hbs => ?_
        rw [hbs] at hb
        exact hmem hb
      rw [hall, List.splitOn_eq_singleton hmem]
      rfl

/-- A text has at most one name more than bytes. -/
theorem countFields_le (newsep : Byte) (s : Bytes) : countFields newsep s ≤ s.length + 1 := by
  induction s with
  | nil => exact Nat.le_refl 1
  | cons b rest ih =>
    rw [countFields, List.length_cons]
    split
    · omega
    · omega

/-- Without a failure the loop cuts all names and numbers them. -/
theorem cutNames_some {fails : Nat → Bool} {newsep : Byte} :
    ∀ {n i : Nat} {s : Bytes} {ents : List FieldEnt}, i + n < 0x8000 →
      cutNames fails newsep n i s = some ents →
      ents.map FieldEnt.name = fieldNames newsep n s ∧
        ∀ j (h : j < ents.length), ents[j].index = ((i + j : Nat) : Int) := by
  intro n
  induction n with
  | zero =>
    intro i s ents _ h
    obtain rfl := Option.some.inj h
    exact ⟨rfl, fun j hj => absurd hj (by simp)⟩
  | succ n ih =>
    intro i s ents hi h
    rw [cutNames] at h
    split at h
    · exact absurd h (by simp)
    · obtain ⟨rest, hrest, rfl⟩ := Option.map_eq_some_iff.mp h
      obtain ⟨hnames, hindex⟩ := ih (by omega) hrest
      refine ⟨by rw [List.map_cons, hnames]; rfl, fun j hj => ?_⟩
      cases j with
      | zero => exact short_ofNat (by omega)
      | succ j =>
        have hnext := hindex j (by simpa using hj)
        rw [Nat.add_right_comm] at hnext
        exact hnext

/-- With no failure there is a result. -/
theorem cutNames_quiet (newsep : Byte) :
    ∀ (n i : Nat) (s : Bytes), ∃ ents, cutNames (fun _ => false) newsep n i s = some ents := by
  intro n
  induction n with
  | zero => intro i s; exact ⟨[], rfl⟩
  | succ n ih =>
    intro i s
    obtain ⟨rest, hrest⟩ := ih (i + 1) (s.drop ((s.takeWhile (· ≠ newsep)).length + 1))
    refine ⟨⟨s.takeWhile (· ≠ newsep), short (UInt16.ofNat i)⟩ :: rest, ?_⟩
    rw [cutNames, if_neg (by simp), hrest]
    rfl

/-! ## What is read -/

/-- A short entry is copied. -/
theorem copyEntry_text {img : Image} {name : String} {p : Nat} {i : UInt32}
    (hfind : findLiteral img name = some (p, i)) (hshort : i.toNat < 1024) :
    ∃ text, copyEntry img p i = .ok text ∧ copiedText img name = some text := by
  refine ⟨_, ?_, by rw [copiedText, hfind]; rfl⟩
  rw [copyEntry, if_neg (by omega), if_neg (by omega)]

/-- What `readEntries` returns are the entries, or the defaults for them. -/
structure NewCdb.Entries (new : NewCdb) (img : Image) : Prop where
  newkey : copiedText img "_KEY_" = some new.newkey
  newdbn : new.newdbn = (copiedText img "_DB_").getD (ascii DBNAME)
  newtbl : new.newtbl = (copiedText img "_TABLE_").getD (ascii DBTBL)
  newsep : new.newsep = copiedDelim img
  cdbfieldsS : copiedText img "_VALUES_" = some new.cdbfieldsS
  short : new.cdbfieldsS.length < 1024

/-- An entry that may be missing. -/
def optionalEntry (img : Image) (name default : String) : Except LoadError Bytes :=
  match findLiteral img name with
  | none => .ok (ascii default)
  | some (p, i) => copyEntry img p i

theorem optionalEntry_text {img : Image} (name default : String) (hmem : name ∈ metadata)
    (hshort : MetadataShort img) :
    optionalEntry img name default = .ok ((copiedText img name).getD (ascii default)) := by
  unfold optionalEntry
  cases hfind : findLiteral img name with
  | none =>
    rw [copiedText, hfind]
    rfl
  | some r =>
    obtain ⟨text, hcopy, htext⟩ := copyEntry_text hfind (hshort name hmem r.1 r.2 hfind)
    rw [htext]
    exact hcopy

/-- The lookups of `cdb_new` one after the other. -/
theorem readEntries_eq {img : Image} {k : Nat × UInt32} (hempty : img.len ≠ 0)
    (hkey : findLiteral img "_KEY_" = some k) :
    readEntries img =
      (copyEntry img k.1 k.2).bind fun newkey =>
        (optionalEntry img "_DB_" DBNAME).bind fun newdbn =>
          (optionalEntry img "_TABLE_" DBTBL).bind fun newtbl =>
            match findLiteral img "_VALUES_" with
            | none => .error .refused
            | some (p, i) =>
              if i.toNat ≥ 1024 then .error .refused
              else
                .ok ⟨newkey, newdbn, newtbl, copiedDelim img, cstr (img.slice p i.toNat)⟩ := by
  unfold readEntries optionalEntry copiedDelim
  rw [if_neg hempty, hkey]
  cases findLiteral img "_DELIM_" with
  | none =>
    cases findLiteral img "_DB_" with
    | none =>
      cases findLiteral img "_TABLE_" with
      | none => rfl
      | some t => rfl
    | some d =>
      cases findLiteral img "_TABLE_" with
      | none => rfl
      | some t => rfl
  | some c =>
    cases findLiteral img "_DB_" with
    | none =>
      cases findLiteral img "_TABLE_" with
      | none => rfl
      | some t => rfl
    | some d =>
      cases findLiteral img "_TABLE_" with
      | none => rfl
      | some t => rfl

/-- The entries are read, or the file is empty or one is missing. -/
theorem readEntries_cases {img : Image} (hshort : MetadataShort img) :
    ((img.len = 0 ∨ ¬ Complete img) ∧ readEntries img = .error .refused) ∨
      (img.len ≠ 0 ∧ Complete img ∧ ∃ new, readEntries img = .ok new ∧ new.Entries img) := by
  by_cases hempty : img.len = 0
  · refine Or.inl ⟨Or.inl hempty, ?_⟩
    unfold readEntries
    rw [if_pos hempty]
    rfl
  cases hkey : findLiteral img "_KEY_" with
  | none =>
    refine Or.inl ⟨Or.inr fun h => h.key hkey, ?_⟩
    unfold readEntries
    rw [if_neg hempty, hkey]
    rfl
  | some k =>
    obtain ⟨newkey, hcopy, hkey'⟩ := copyEntry_text hkey (hshort _ (by decide) k.1 k.2 hkey)
    rw [readEntries_eq hempty hkey, hcopy, optionalEntry_text "_DB_" DBNAME (by decide) hshort,
      optionalEntry_text "_TABLE_" DBTBL (by decide) hshort]
    cases hvalues : findLiteral img "_VALUES_" with
    | none => exact Or.inl ⟨Or.inr fun h => h.values hvalues, rfl⟩
    | some v =>
      have hlt := hshort _ (by decide) v.1 v.2 hvalues
      have hlen : (cstr (img.slice v.1 v.2.toNat)).length < 1024 := by
        refine Nat.lt_of_le_of_lt (List.takeWhile_sublist _).length_le ?_
        unfold Image.slice
        rw [List.length_map, List.length_range]
        exact hlt
      have hvalues' : copiedText img "_VALUES_" = some (cstr (img.slice v.1 v.2.toNat)) := by
        rw [copiedText, hvalues]
        rfl
      exact Or.inr ⟨hempty, ⟨by simp [hkey], by simp [hvalues]⟩, _, if_neg (by omega), hkey', rfl,
        rfl, rfl, hvalues', hlen⟩

/-! ## All or nothing -/

theorem textOr_copied {img : Image} {name default : String}
    (h : ∀ p i, findLiteral img name = some (p, i) → img.EndsInside p i.toNat) :
    textOr img name default = some ((copiedText img name).getD (ascii default)) := by
  have hcopied := entryText_copied h
  unfold textOr
  rw [hcopied]
  unfold copiedText
  cases findLiteral img name with
  | none => rfl
  | some r => rfl

/-- What is installed is what the file says, if it is in the file. -/
theorem install_loadedFrom {file : CdbFile} {new : NewCdb} {fails : Nat → Bool}
    {newfields : List FieldEnt} (hnew : new.Entries file.image)
    (hinside : MetadataInside file.image)
    (hcut : cutNames fails new.newsep (countFields new.newsep new.cdbfieldsS) 0 new.cdbfieldsS
      = some newfields) :
    (new.install file newfields (countFields new.newsep new.cdbfieldsS)).LoadedFrom file := by
  have hshort := hnew.short
  have hcount := countFields_le new.newsep new.cdbfieldsS
  obtain ⟨hnames, hindex⟩ := cutNames_some (by omega) hcut
  have hsplit := fieldNames_splitOn new.newsep _ new.cdbfieldsS rfl
  have hlen : newfields.length = countFields new.newsep new.cdbfieldsS := by
    rw [← List.length_map FieldEnt.name, hnames, fieldNames_length]
  refine ⟨rfl, rfl, rfl, ?_, ?_, ?_, ?_, ⟨new.cdbfieldsS, ?_, hnames.trans hsplit⟩,
    fun i hi => ?_, ?_⟩
  · exact (entryText_copied (hinside.texts _ (by decide))).trans hnew.newkey
  · rw [textOr_copied (hinside.texts _ (by decide)), ← hnew.newdbn]
    rfl
  · rw [textOr_copied (hinside.texts _ (by decide)), ← hnew.newtbl]
    rfl
  · have hdelim := hinside.delim
    show delimByte file.image = some new.newsep
    rw [hnew.newsep]
    unfold delimByte copiedDelim
    cases hfind : findLiteral file.image "_DELIM_" with
    | none => rfl
    | some r => exact if_pos (hdelim r.1 r.2 hfind)
  · exact (entryText_copied (hinside.texts _ (by decide))).trans hnew.cdbfieldsS
  · have hi' := hindex i hi
    rw [Nat.zero_add] at hi'
    exact hi'
  · show short (UInt16.ofNat (countFields new.newsep new.cdbfieldsS)) = (newfields.length : Int)
    rw [hlen, short_ofNat (by omega)]

/-- The loop over the names fails with any of its allocations. -/
theorem cutNames_none {fails : Nat → Bool} {newsep : Byte} :
    ∀ {n i : Nat} {s : Bytes},
      cutNames fails newsep n i s = none ↔ ∃ j, j < n ∧ fails (i + j) = true := by
  intro n
  induction n with
  | zero =>
    intro i s
    exact iff_of_false (by simp [cutNames]) fun ⟨j, hj, _⟩ => absurd hj (Nat.not_lt_zero j)
  | succ n ih =>
    intro i s
    rw [cutNames]
    by_cases hfirst : fails i = true
    · rw [if_pos hfirst]
      exact iff_of_true rfl ⟨0, Nat.succ_pos n, hfirst⟩
    · rw [if_neg hfirst, Option.map_eq_none_iff, ih]
      constructor
      · rintro ⟨j, hj, hfail⟩
        refine ⟨j + 1, Nat.succ_lt_succ hj, ?_⟩
        rw [← hfail, Nat.add_right_comm]
        rfl
      · rintro ⟨j, hj, hfail⟩
        cases j with
        | zero => exact absurd hfail hfirst
        | succ j =>
          refine ⟨j, Nat.lt_of_succ_lt_succ hj, ?_⟩
          rw [← hfail, Nat.add_right_comm]
          rfl

/-- What a call of `cdb_new` comes to when it gives up, and when it does not. -/
inductive Reloaded (file : Option CdbFile) (g : CdbGlobals) (gaveUp : Prop) :
    Int → CdbGlobals → Prop where
  | kept : gaveUp → Reloaded file g gaveUp (-1) g
  | replaced {f : CdbFile} {g' : CdbGlobals} : ¬ gaveUp → file = some f →
      (MetadataInside f.image → g'.LoadedFrom f) → Reloaded file g gaveUp 0 g'

theorem Reloaded.congr {file : Option CdbFile} {g g' : CdbGlobals} {P Q : Prop} {rc : Int}
    (h : Reloaded file g P rc g') (hiff : P ↔ Q) : Reloaded file g Q rc g' := by
  rw [propext hiff] at h
  exact h

theorem openAndLoad_reloaded (fails : Failures) (file : Option CdbFile) (s : CdbState)
    (hshort : ∀ f, file = some f → MetadataShort f.image) :
    ∃ rc s', openAndLoad fails file s = some (rc, s') ∧
      Reloaded file s.globals (LoadFails fails file) rc s'.globals := by
  cases file with
  | none => exact ⟨_, _, rfl, .kept trivial⟩
  | some f =>
    unfold openAndLoad
    dsimp only
    by_cases hstat : fails.fstat = true
    · rw [if_pos hstat]
      exact ⟨_, _, rfl, .kept (Or.inl hstat)⟩
    by_cases hmap : fails.mmap = true
    · rw [if_neg hstat, if_pos hmap]
      exact ⟨_, _, rfl, .kept (Or.inr (Or.inl hmap))⟩
    rw [if_neg hstat, if_neg hmap]
    rcases readEntries_cases (hshort f rfl) with
      ⟨hwhy, hrefused⟩ | ⟨hempty, hcomplete, new, hread, hnew⟩
    · rw [hrefused]
      refine ⟨_, _, rfl, .kept (Or.inr (Or.inr ?_))⟩
      exact hwhy.imp id Or.inl
    rw [hread]
    dsimp only
    by_cases hfields : fails.newfields = true
    · rw [if_pos hfields]
      exact ⟨_, _, rfl, .kept (Or.inr (Or.inr (Or.inr (Or.inr (Or.inl hfields)))))⟩
    rw [if_neg hfields]
    -- as many names are cut as the text has
    have hcount : countFields new.newsep new.cdbfieldsS = (namesCut f.image).length := by
      unfold namesCut
      rw [hnew.cdbfieldsS, ← hnew.newsep, Option.getD_some,
        ← fieldNames_splitOn new.newsep _ new.cdbfieldsS rfl, fieldNames_length]
    have hnone := @cutNames_none fails.name new.newsep (countFields new.newsep new.cdbfieldsS) 0
      new.cdbfieldsS
    simp only [Nat.zero_add] at hnone
    cases hcut : cutNames fails.name new.newsep (countFields new.newsep new.cdbfieldsS) 0
        new.cdbfieldsS with
    | none =>
      have hfail := hnone.mp hcut
      rw [hcount] at hfail
      exact ⟨_, _, rfl, .kept (Or.inr (Or.inr (Or.inr (Or.inr (Or.inr hfail)))))⟩
    | some newfields =>
      refine ⟨_, _, rfl, .replaced ?_ rfl fun hinside => install_loadedFrom hnew hinside hcut⟩
      rintro (h | h | h | h | h | h)
      · exact hstat h
      · exact hmap h
      · exact hempty h
      · exact h hcomplete
      · exact hfields h
      · rw [← hcount, ← hnone, hcut] at h
        exact absurd h (by simp)

theorem cdbNewSteps_reloaded (fails : Failures) (file : Option CdbFile) (s : CdbState)
    (hshort : ∀ f, file = some f → MetadataShort f.image) :
    ∃ rc s', cdbNewSteps fails file s = some (rc, s') ∧
      Reloaded file s.globals (GivesUp fails file s) rc s'.globals := by
  -- with the lock there, the rest decides
  have hrest : ∀ s' : CdbState, s'.globals = s.globals →
      ¬ (s.lk = .missing ∧ (fails.mutex = true ∨ fails.mutexNew = true)) →
      ∃ rc s'', openAndLoad fails file s' = some (rc, s'') ∧
        Reloaded file s.globals (GivesUp fails file s) rc s''.globals := by
    intro s' hsame hlock
    obtain ⟨rc, s'', hstep, hres⟩ := openAndLoad_reloaded fails file s' hshort
    rw [hsame] at hres
    exact ⟨rc, s'', hstep, hres.congr (or_iff_right hlock).symm⟩
  unfold cdbNewSteps
  split
  · next hlk =>
    by_cases hmutex : fails.mutex = true
    · rw [if_pos hmutex]
      exact ⟨_, _, rfl, .kept (Or.inl ⟨hlk, Or.inl hmutex⟩)⟩
    by_cases hmutexNew : fails.mutexNew = true
    · rw [if_neg hmutex, if_pos hmutexNew]
      exact ⟨_, _, rfl, .kept (Or.inl ⟨hlk, Or.inr hmutexNew⟩)⟩
    rw [if_neg hmutex, if_neg hmutexNew]
    exact hrest { s with lk := .ready } rfl fun h => h.2.elim hmutex hmutexNew
  · next hlk => exact hrest s rfl fun h => hlk h.1

/-- Before the first load. -/
def cdbStart : CdbState := ⟨.missing, ⟨none, 0, 0, [], [], [], [], 0, 0⟩⟩

/-- The entries checked one by one. -/
theorem metadataShort_of_all {img : Image}
    (h : (metadata.all fun name =>
      (findLiteral img name).all fun r => decide (r.2.toNat < 1024)) = true) :
    MetadataShort img := by
  intro name hname p i hfind
  have hall := List.all_eq_true.mp h name hname
  rw [hfind] at hall
  exact of_decide_eq_true hall

theorem metadataInside_of_all {img : Image}
    (h : (["_KEY_", "_DB_", "_TABLE_", "_VALUES_"].all fun name =>
      (findLiteral img name).all fun r => decide (img.EndsInside r.1 r.2.toNat)) = true)
    (hdelim : ((findLiteral img "_DELIM_").all fun r => decide (r.1 < img.len)) = true) :
    MetadataInside img := by
  refine ⟨fun name hname p i hfind => ?_, fun p i hfind => ?_⟩
  · have hall := List.all_eq_true.mp h name hname
    rw [hfind] at hall
    exact of_decide_eq_true hall
  · rw [hfind] at hdelim
    exact of_decide_eq_true hdelim

theorem metadataInside_twoColumns : MetadataInside twoColumns :=
  metadataInside_of_all (by decide +kernel) (by decide +kernel)

/-- Column `uid`, and an entry `_KEY_` that is said to have 200 bytes. The file ends after four of
them, and `x`s lie behind it. -/
def longKey : Image :=
  let file := Image.ofParts [(1256, [0, 8, 0, 0, 1, 0, 0, 0]), (1936, [8, 8, 0, 0, 1, 0, 0, 0])]
    ([157, 236, 70, 94, 16, 8, 0, 0, 242, 95, 32, 14, 35, 8, 0, 0] ++
      [8, 0, 0, 0, 3, 0, 0, 0] ++ ascii "_VALUES_uid" ++
      [5, 0, 0, 0, 200, 0, 0, 0] ++ ascii "_KEY_user")
  { file with byte := fun p => if p < file.len then file.byte p else 0x78 }

/-- The globals as `Server/Cdb.lean` has them. -/
def CdbGlobals.toCdb (g : CdbGlobals) : Cdb where
  memcdb := g.memcdb
  cdbMtime := g.cdbMtime
  dbKey := g.dbKey
  dbDbn := g.dbDbn
  dbTbl := g.dbTbl
  dbFields := g.dbFields.map FieldEnt.name
  dbSep := g.dbSep
  dbFieldcount := g.dbFieldcount.toNat

theorem openAndLoad_quiet {file : Option CdbFile} (s : CdbState)
    (hshort : ∀ f, file = some f → MetadataShort f.image) :
    (openAndLoad noFailures file s).map (fun r => (r.1, r.2.globals.toCdb))
      = cdbNew file s.globals.toCdb := by
  cases file with
  | none => rfl
  | some f =>
    unfold openAndLoad cdbNew cdbLoad
    dsimp only
    rw [if_neg (by simp [noFailures]), if_neg (by simp [noFailures])]
    rcases readEntries_cases (hshort f rfl) with ⟨-, hrefused⟩ | ⟨-, -, new, hread, hnew⟩
    · rw [hrefused]
      rfl
    have hcount := countFields_le new.newsep new.cdbfieldsS
    have hlt := hnew.short
    obtain ⟨newfields, hcut⟩ := cutNames_quiet new.newsep
      (countFields new.newsep new.cdbfieldsS) 0 new.cdbfieldsS
    have hcut' : cutNames noFailures.name new.newsep (countFields new.newsep new.cdbfieldsS) 0
        new.cdbfieldsS = some newfields := hcut
    rw [hread]
    dsimp only
    rw [if_neg (by simp [noFailures]), hcut']
    have hglobals : (new.install f newfields (countFields new.newsep new.cdbfieldsS)).toCdb
        = new.globals f := by
      unfold CdbGlobals.toCdb NewCdb.install NewCdb.globals
      rw [(cutNames_some (by omega) hcut).1, short_ofNat (by omega)]
      rfl
    exact congrArg (fun c => some ((0 : Int), c)) hglobals

/-- With no failures this is `cdbNew`. -/
theorem cdbNewSteps_quiet {file : Option CdbFile} (s : CdbState)
    (hshort : ∀ f, file = some f → MetadataShort f.image) :
    (cdbNewSteps noFailures file s).map (fun r => (r.1, r.2.globals.toCdb))
      = cdbNew file s.globals.toCdb := by
  unfold cdbNewSteps
  split
  · exact openAndLoad_quiet { s with lk := .ready } hshort
  · exact openAndLoad_quiet s hshort

/-- `cdb_get` finds the same whether it goes by the file or by `cdb_len`. -/
theorem get_toCdb {g : CdbGlobals} {f : CdbFile} (h : g.LoadedFrom f) (key : Bytes)
    (after : Nat → Byte) : g.get key after = cdbGet g.toCdb key after := by
  have hlen : intOfLen g.cdbLen.toNat = intOfLen f.image.len := by
    rw [h.cdbLen, UInt32.toNat_ofNat']
    unfold intOfLen
    rw [Nat.mod_mod]
  have hfind : cdbFindbykey { f.image with len := g.cdbLen.toNat } key after
      = cdbFindbykey f.image key after := by
    unfold cdbFindbykey
    rw [hlen]
  unfold CdbGlobals.get cdbGet CdbGlobals.toCdb
  dsimp only
  rw [h.memcdb]
  exact congrArg (fun r : Option (Nat × UInt32) =>
    match r with
    | none => ((-1 : Int), ([] : List Bytes))
    | some (data, dlen) => (0, splitFields g.dbSep [] (f.image.slice data dlen.toNat))) hfind

/-! ## Any number of reloads -/

/-- One more reload. -/
def reloadStep (s : CdbState) (i : Failures × Option CdbFile) : Option (Int × CdbState) :=
  cdbNewSteps i.1 i.2 s

/-- The entries of a file are shorter than the arrays, and end in the file. -/
structure MetadataWhole (img : Image) : Prop where
  short : MetadataShort img
  inside : MetadataInside img

/-- One reload from a whole file, if it finds one, leaves the globals those of one file. -/
theorem cdbNewSteps_whole {fails : Failures} {file : Option CdbFile} {s s' : CdbState} {rc : Int}
    (hfile : ∀ f, file = some f → MetadataWhole f.image) (hwhole : ∃ f, s.globals.LoadedFrom f)
    (h : cdbNewSteps fails file s = some (rc, s')) : ∃ f, s'.globals.LoadedFrom f := by
  obtain ⟨rc', u, hstep, hres⟩ := cdbNewSteps_reloaded fails file s fun f hf => (hfile f hf).short
  obtain ⟨-, rfl⟩ := Prod.mk.inj (Option.some.inj (hstep.symm.trans h))
  generalize u.globals = g' at hres ⊢
  cases hres with
  | kept => exact hwhole
  | replaced _ hf hload => exact ⟨_, hload (hfile _ hf).inside⟩

/-- Once a file is loaded, the globals are always those of one file, and `cdb_get` answers
from it. -/
theorem reloads_whole {is : List (Failures × Option CdbFile)} {s s' : CdbState} {rcs : List Int}
    (hstart : ∃ f, s.globals.LoadedFrom f)
    (hfiles : Guarded reloadStep (fun _ i => ∀ f, i.2 = some f → MetadataWhole f.image) s is)
    (h : runs reloadStep s is = some (rcs, s')) :
    ∃ f, s'.globals.LoadedFrom f ∧
      ∀ key after, s'.globals.get key after = cdbGet s'.globals.toCdb key after := by
  obtain ⟨f, hf⟩ := runs_invariant (I := fun s => ∃ f, s.globals.LoadedFrom f)
    (fun _ _ _ _ hwhole hi hstep => cdbNewSteps_whole hi hwhole hstep) hstart hfiles h
  exact ⟨f, hf, fun key after => get_toCdb hf key after⟩

end Nastd.Server
