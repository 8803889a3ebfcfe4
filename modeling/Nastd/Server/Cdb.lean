import Nastd.Server.CdbFind

/-!
# The loaded CDB

`server/cdb.c`: loading the file, looking a key up in the one that is loaded, and the
periodic check for a newer one. The file names the key column, the database, the
table, the delimiter and the columns, and `cdb_new` replaces all of them at once; if
anything is missing it leaves the old ones.

`cdb_new` copies an entry of exactly 1024 bytes into a buffer of that size and ends
it with a NUL behind the buffer. That is `LoadError.overflow`; a run does not go on
from there. An entry can be said to be longer than the file, and is then copied from
whatever lies behind it (`Image.slice`). Allocations succeed.
-/

namespace Nastd.Server

/-- A CDB file as `stat` and `mmap` see it. -/
structure CdbFile where
  image : Image
  mtime : Int

/-- The globals of `cdb.c`: the mapped file, its mtime, and what it says about
itself. `dbFields` lists the names of `db_fields`. -/
structure Cdb where
  memcdb : Option Image
  cdbMtime : Int
  dbKey : Bytes
  dbDbn : Bytes
  dbTbl : Bytes
  dbFields : List Bytes
  dbSep : Byte
  dbFieldcount : Nat

/-- Before the first load. -/
def cdbUnloaded : Cdb := ⟨none, 0, [], [], [], [], 0, 0⟩

/-- A length passed as `int`. -/
def intOfLen (len : Nat) : Int :=
  if len % 0x100000000 < 0x80000000 then ((len % 0x100000000 : Nat) : Int)
  else ((len % 0x100000000 : Nat) : Int) - 0x100000000

/-- `cdb_findbykey`: where the data starts, and its length. The file's length is passed
as an `int`; when that is negative nothing can be read. -/
def cdbFindbykey (img : Image) (key : Bytes) (after : Nat → Byte) : Option (Nat × UInt32) :=
  if intOfLen img.len < 0 then none
  else
    match cdbFind { img with len := (intOfLen img.len).toNat } key after with
    | .found ret retlen => some (ret, retlen)
    | _ => none

/-- The bytes of an entry, as `memcpy` reads them: behind the end of the file they are what lies
behind the mapping. -/
def Image.slice (img : Image) (p n : Nat) : Bytes := (List.range n).map fun i => img.byte (p + i)

/-- How loading fails. -/
inductive LoadError where
  /-- `cdb_new` returns -1. -/
  | refused
  /-- A NUL is written behind a buffer. -/
  | overflow
  deriving DecidableEq, Repr

/-- Copy an entry into a string of 1024 bytes. -/
def copyEntry (img : Image) (p : Nat) (i : UInt32) : Except LoadError Bytes :=
  if i.toNat > 1024 then .error .refused
  else if i.toNat = 1024 then .error .overflow
  else .ok (cstr (img.slice p i.toNat))

/-- `newfieldcount`: the delimiters and the end of the text. -/
def countFields (newsep : Byte) : Bytes → Nat
  | [] => 1
  | b :: rest => if b = newsep then countFields newsep rest + 1 else countFields newsep rest

/-- The names of `newfields`, one after the other from `s_p`. -/
def fieldNames (newsep : Byte) : Nat → Bytes → List Bytes
  | 0, _ => []
  | n + 1, s =>
    let name := s.takeWhile (· ≠ newsep)
    name :: fieldNames newsep n (s.drop (name.length + 1))

/-- The key as it stands in a string literal, with its NUL behind it. -/
def findLiteral (img : Image) (key : String) : Option (Nat × UInt32) :=
  cdbFindbykey img (ascii key) fun _ => 0

/-- The table and the database when the file does not name them (`DBNAME`, `DBTBL`). -/
def DBNAME : String := "password"
def DBTBL : String := "master"

/-- What `cdb_new` copies out of the file before it replaces anything. -/
structure NewCdb where
  newkey : Bytes
  newdbn : Bytes
  newtbl : Bytes
  newsep : Byte
  cdbfieldsS : Bytes
  deriving DecidableEq

/-- The first half of `cdb_new`, once the file is open: five lookups, two of which may
not fail. -/
def readEntries (img : Image) : Except LoadError NewCdb := do
  -- `mmap` of an empty file fails
  if img.len = 0 then throw .refused
  let newkey ←
    match findLiteral img "_KEY_" with
    | none => throw .refused
    | some (p, i) => copyEntry img p i
  let newdbn ←
    match findLiteral img "_DB_" with
    | none => pure (ascii DBNAME)
    | some (p, i) => copyEntry img p i
  let newtbl ←
    match findLiteral img "_TABLE_" with
    | none => pure (ascii DBTBL)
    | some (p, i) => copyEntry img p i
  let newsep :=
    match findLiteral img "_DELIM_" with
    | none => 0x3a
    | some (p, _) => img.byte p
  match findLiteral img "_VALUES_" with
  | none => throw .refused
  | some (p, i) =>
    if i.toNat ≥ 1024 then throw .refused
    else return ⟨newkey, newdbn, newtbl, newsep, cstr (img.slice p i.toNat)⟩

/-- The second half of `cdb_new`: count and split the columns, and replace the globals. -/
def NewCdb.globals (new : NewCdb) (file : CdbFile) : Cdb :=
  let newfieldcount := countFields new.newsep new.cdbfieldsS
  { memcdb := some file.image
    cdbMtime := file.mtime
    dbKey := new.newkey
    dbDbn := new.newdbn
    dbTbl := new.newtbl
    dbFields := fieldNames new.newsep newfieldcount new.cdbfieldsS
    dbSep := new.newsep
    dbFieldcount := newfieldcount }

/-- `cdb_new` once the file is open. -/
def cdbLoad (file : CdbFile) : Except LoadError Cdb :=
  (readEntries file.image).map fun new => new.globals file

/-- `cdb_new`. The file it opens may be missing. -/
def cdbNew (file : Option CdbFile) (cdb : Cdb) : Option (Int × Cdb) :=
  match file with
  | none => some (-1, cdb)
  | some f =>
    match cdbLoad f with
    | .ok cdb' => some (0, cdb')
    | .error .refused => some (-1, cdb)
    | .error .overflow => none

/-- The loop of `cdb_get`: `cur` is what lies between `s_p` and `e_p`. -/
def splitFields (sep : Byte) : Bytes → Bytes → List Bytes
  | cur, [] => [cur]
  | cur, b :: rest =>
    if b = sep then cur :: splitFields sep [] rest else splitFields sep (cur ++ [b]) rest

/-- `cdb_get`: the return code and the fields. -/
def cdbGet (cdb : Cdb) (key : Bytes) (after : Nat → Byte) : Int × List Bytes :=
  match cdb.memcdb with
  | none => (-1, [])
  | some img =>
    match cdbFindbykey img key after with
    | none => (-1, [])
    | some (data, dlen) => (0, splitFields cdb.dbSep [] (img.slice data dlen.toNat))

/-- `cdb_periodic`: what `stat` finds, and what `cdb_new` then opens. -/
def cdbPeriodic (seen opened : Option CdbFile) (cdb : Cdb) : Option Cdb :=
  match seen with
  | none => some cdb
  | some sb =>
    if sb.image.len = 0 then some cdb
    else if cdb.cdbMtime < sb.mtime then (cdbNew opened cdb).map Prod.snd
    else some cdb

/-! ## What a load leaves -/

theorem fieldNames_length (newsep : Byte) :
    ∀ (n : Nat) (s : Bytes), (fieldNames newsep n s).length = n := by
  intro n
  induction n with
  | zero => intro s; rfl
  | succ n ih =>
    intro s
    show (fieldNames newsep n _).length + 1 = n + 1
    rw [ih]

theorem countFields_pos (newsep : Byte) (s : Bytes) : 1 ≤ countFields newsep s := by
  induction s with
  | nil => exact Nat.le_refl 1
  | cons b rest ih =>
    rw [countFields]
    split
    · omega
    · exact ih

/-- The columns counted name by name: one, and those behind its delimiter. -/
theorem countFields_name (newsep : Byte) (s : Bytes) :
    countFields newsep s
      = if newsep ∈ s then
          countFields newsep (s.drop ((s.takeWhile (· ≠ newsep)).length + 1)) + 1
        else 1 := by
  induction s with
  | nil => rfl
  | cons b rest ih =>
    by_cases hb : b = newsep
    · subst hb
      rw [countFields, if_pos rfl, if_pos (List.mem_cons_self ..),
        List.takeWhile_cons_of_neg (by simp)]
      rfl
    · have hmem : newsep ∈ b :: rest ↔ newsep ∈ rest := by simp [Ne.symm hb]
      rw [countFields, if_neg hb, List.takeWhile_cons_of_pos (by simpa using hb), ih]
      by_cases hm : newsep ∈ rest
      · rw [if_pos hm, if_pos (hmem.mpr hm)]
        rfl
      · rw [if_neg hm, if_neg fun h => hm (hmem.mp h)]

/-- Every loaded CDB has at least one column, and a name for each. -/
structure Cdb.Loaded (cdb : Cdb) : Prop where
  columns : 1 ≤ cdb.dbFieldcount
  names : cdb.dbFields.length = cdb.dbFieldcount

theorem cdbLoad_ok {file : CdbFile} {cdb : Cdb} (h : cdbLoad file = .ok cdb) :
    cdb.Loaded ∧ cdb.cdbMtime = file.mtime := by
  unfold cdbLoad at h
  cases hnew : readEntries file.image with
  | error e =>
    rw [hnew] at h
    exact absurd h (by simp [Except.map])
  | ok new =>
    rw [hnew] at h
    obtain rfl := Except.ok.inj h
    exact ⟨⟨countFields_pos .., fieldNames_length ..⟩, rfl⟩

/-- `cdb_new` loads the file or changes nothing. -/
theorem cdbNew_cases {file : Option CdbFile} {cdb cdb' : Cdb} {rc : Int}
    (h : cdbNew file cdb = some (rc, cdb')) :
    (rc = 0 ∧ ∃ f, file = some f ∧ cdbLoad f = .ok cdb') ∨ (rc = -1 ∧ cdb' = cdb) := by
  cases file with
  | none =>
    obtain ⟨rfl, rfl⟩ := Prod.mk.inj (Option.some.inj h)
    exact Or.inr ⟨rfl, rfl⟩
  | some f =>
    simp only [cdbNew] at h
    cases hload : cdbLoad f with
    | ok c =>
      simp only [hload] at h
      obtain ⟨rfl, rfl⟩ := Prod.mk.inj (Option.some.inj h)
      exact Or.inl ⟨rfl, f, rfl, hload⟩
    | error e =>
      cases e with
      | refused =>
        simp only [hload] at h
        obtain ⟨rfl, rfl⟩ := Prod.mk.inj (Option.some.inj h)
        exact Or.inr ⟨rfl, rfl⟩
      | overflow =>
        simp only [hload] at h
        exact absurd h (by simp)

theorem cdbNew_ok {f : CdbFile} {cdb' : Cdb} (h : cdbLoad f = .ok cdb') (cdb : Cdb) :
    cdbNew (some f) cdb = some (0, cdb') := by
  simp only [cdbNew, h]

/-- A newer file that loads replaces the globals. -/
theorem cdbPeriodic_newer {sb f : CdbFile} {cdb cdb' : Cdb} (hlen : sb.image.len ≠ 0)
    (hnewer : cdb.cdbMtime < sb.mtime) (h : cdbLoad f = .ok cdb') :
    cdbPeriodic (some sb) (some f) cdb = some cdb' := by
  simp only [cdbPeriodic, if_neg hlen, if_pos hnewer, cdbNew_ok h, Option.map_some]

/-- The periodic check loads the file that is there, or changes nothing. -/
theorem cdbPeriodic_cases {seen opened : Option CdbFile} {cdb cdb' : Cdb}
    (h : cdbPeriodic seen opened cdb = some cdb') :
    (∃ f, opened = some f ∧ cdbLoad f = .ok cdb') ∨ cdb' = cdb := by
  cases seen with
  | none =>
    obtain rfl := Option.some.inj h
    exact Or.inr rfl
  | some sb =>
    simp only [cdbPeriodic] at h
    split at h
    · obtain rfl := Option.some.inj h
      exact Or.inr rfl
    · split at h
      · obtain ⟨r, hr, rfl⟩ := Option.map_eq_some_iff.mp h
        rcases cdbNew_cases hr with ⟨-, f, hf, hload⟩ | ⟨-, hsame⟩
        · exact Or.inl ⟨f, hf, hload⟩
        · exact Or.inr hsame
      · obtain rfl := Option.some.inj h
        exact Or.inr rfl

/-! ## Two files -/

/-- Columns `login` and `uid`, and the record of `bob`. -/
def twoColumns : Image :=
  .ofParts
    [(1256, [58, 8, 0, 0, 1, 0, 0, 0]), (1360, [66, 8, 0, 0, 1, 0, 0, 0]),
      (1936, [74, 8, 0, 0, 1, 0, 0, 0])]
    ([5, 0, 0, 0, 4, 0, 0, 0] ++ ascii "_KEY_user" ++
      [8, 0, 0, 0, 9, 0, 0, 0] ++ ascii "_VALUES_login:uid" ++
      [3, 0, 0, 0, 5, 0, 0, 0] ++ ascii "bobbob:7" ++
      [157, 236, 70, 94, 17, 8, 0, 0, 170, 71, 135, 11, 42, 8, 0, 0,
        242, 95, 32, 14, 0, 8, 0, 0])

/-- Column `uid` only. -/
def oneColumn : Image :=
  .ofParts [(1256, [36, 8, 0, 0, 1, 0, 0, 0]), (1936, [44, 8, 0, 0, 1, 0, 0, 0])]
    ([5, 0, 0, 0, 4, 0, 0, 0] ++ ascii "_KEY_user" ++
      [8, 0, 0, 0, 3, 0, 0, 0] ++ ascii "_VALUES_uid" ++
      [157, 236, 70, 94, 17, 8, 0, 0, 242, 95, 32, 14, 0, 8, 0, 0])

/-- The globals after loading `twoColumns`. -/
def twoColumnsLoaded (mtime : Int) : Cdb where
  memcdb := some twoColumns
  cdbMtime := mtime
  dbKey := ascii "user"
  dbDbn := ascii "password"
  dbTbl := ascii "master"
  dbFields := [ascii "login", ascii "uid"]
  dbSep := 0x3a
  dbFieldcount := 2

/-- The globals after loading `oneColumn`. -/
def oneColumnLoaded (mtime : Int) : Cdb where
  memcdb := some oneColumn
  cdbMtime := mtime
  dbKey := ascii "user"
  dbDbn := ascii "password"
  dbTbl := ascii "master"
  dbFields := [ascii "uid"]
  dbSep := 0x3a
  dbFieldcount := 1

/-- What is read decides what is loaded. -/
theorem cdbLoad_of_entries {img : Image} (new : NewCdb)
    (h : (readEntries img).toOption = some new) (mtime : Int) :
    cdbLoad ⟨img, mtime⟩ = .ok (new.globals ⟨img, mtime⟩) := by
  unfold cdbLoad
  cases hread : readEntries img with
  | error e =>
    rw [hread] at h
    exact absurd h (by simp [Except.toOption])
  | ok new' =>
    rw [hread] at h
    obtain rfl := Option.some.inj h
    rfl

theorem cdbLoad_twoColumns (mtime : Int) :
    cdbLoad ⟨twoColumns, mtime⟩ = .ok (twoColumnsLoaded mtime) :=
  cdbLoad_of_entries
    ⟨ascii "user", ascii "password", ascii "master", 0x3a, ascii "login:uid"⟩
    (by decide +kernel) mtime

theorem cdbLoad_oneColumn (mtime : Int) :
    cdbLoad ⟨oneColumn, mtime⟩ = .ok (oneColumnLoaded mtime) :=
  cdbLoad_of_entries
    ⟨ascii "user", ascii "password", ascii "master", 0x3a, ascii "uid"⟩
    (by decide +kernel) mtime

end Nastd.Server
