import Nastd.Server.Cdb
import Nastd.Lib.Run
import Nastd.Lib.SqlText

/-!
# The MySQL side

`server/mysqldb.c`. The column list of every query is `cols`, a static text that
`mysqldb_new` joins from `db_fields` once, at start-up; the table and the key column
are read from the CDB globals at every query. What MySQL answers is an argument.

`mysqldb_get` is `none` where it stops the server: a column that is NULL goes to
`strlen`, and a result that cannot be opened to `mysql_fetch_row`. When connecting or
asking fails, `mysqldb_connect_close` frees a handle that `mysql_close` has freed. What
that does is up to the C library, so the reply says whether the server survives it.
Left out are an `array_add` that fails, the counters behind `mysqldb_stats` and the log. A
worker's connection is followed in `Server/Descriptors.lean`.

`cols_current_iff` is what the static text means for reloads: in any state reached from
start-up value `i` of a row is that of column `i` of the CDB now loaded exactly if its
columns join to the text that the columns at start-up joined to, and MySQL takes each of
them for a name. A text that it takes for something else (a list, a wildcard, an
expression) is no column.
-/

namespace Nastd.Server

open Nastd.Lib

/-- `strncat(cols, src, sizeof(cols))`: up to 512 more bytes, whatever is there
already; `none` when that writes behind the 512 bytes of `cols`. -/
def strncatCols (cols src : Bytes) : Option Bytes :=
  let r := cols ++ src.take 512
  if r.length ≥ 512 then none else some r

/-- The loop of `mysqldb_new`. -/
def colsLoop : Bytes → List Bytes → Option Bytes
  | cols, [] => some cols
  | cols, name :: rest =>
    match strncatCols cols name with
    | none => none
    | some cols' =>
      if rest = [] then colsLoop cols' rest
      else
        match strncatCols cols' [0x2c] with
        | none => none
        | some cols'' => colsLoop cols'' rest

/-- `mysqldb_new`: the column list. -/
def mysqldbNew (cdb : Cdb) : Option Bytes := colsLoop [] cdb.dbFields

/-- The four texts that go into `DBSELECT`. -/
structure Select where
  cols : Bytes
  tbl : Bytes
  keycol : Bytes
  key : Bytes
  deriving DecidableEq, Repr

/-- `snprintf(buffer, 1024, "SELECT %s FROM %s WHERE %s='%s'", …)`. -/
def Select.text (q : Select) : Bytes :=
  (ascii "SELECT " ++ q.cols ++ ascii " FROM " ++ q.tbl ++ ascii " WHERE " ++ q.keycol
    ++ ascii "='" ++ q.key ++ ascii "'").take 1023

/-- The columns MySQL reads in a column list, if there is nothing else in it. `ident` is what the
server takes for a name. -/
def Select.items (ident : Bytes → Bool) (q : Select) : Option (List Bytes) :=
  let r := readNames [] q.cols
  if r.2 = [] ∧ r.1.all (isName ident) = true then some r.1 else none

/-- The row of a record that has this value in each column. -/
def Select.rowOf (ident : Bytes → Bool) (q : Select) (value : Bytes → Option Bytes) :
    Option (List (Option Bytes)) :=
  (q.items ident).map fun names => names.map value

/-- What comes of a query. `aborts` says that freeing the handle a second time stops the
server. -/
inductive MysqlReply where
  /-- `mysql_init` has no memory. -/
  | noHandle
  /-- `mysql_real_connect` fails. -/
  | connFail (aborts : Bool)
  /-- `mysql_query` fails. -/
  | queryFail (aborts : Bool)
  /-- `mysql_use_result` fails, and its NULL is handed to `mysql_fetch_row`. -/
  | noResult
  /-- MySQL has no row. -/
  | noRow
  /-- It has one, but `mysql_fetch_row` fails, which looks the same. -/
  | fetchFail
  /-- The values of the row, as MySQL has them; `none` is the SQL NULL. -/
  | row (cols : List (Option Bytes))
  deriving DecidableEq, Repr

/-- The globals the two databases share. -/
structure Backend where
  cdb : Cdb
  cols : Bytes

/-- The query of `mysqldb_get`. -/
def Backend.select (b : Backend) (key : Bytes) : Select := ⟨b.cols, b.cdb.dbTbl, b.cdb.dbKey, key⟩

/-- The loop of `mysqldb_get` over `row[i]`. `strlen` stops the server at a NULL. -/
def addColumns : List (Option Bytes) → Option (List Bytes)
  | [] => some []
  | none :: _ => none
  | some col :: rest => (addColumns rest).map fun vals => cstr col :: vals

/-- `mysqldb_get`: the return code and what is added to the array; `none` when the server
does not survive it. -/
def mysqldbGet (dbFieldcount : Nat) (reply : MysqlReply) : Option (Int × List Bytes) :=
  match reply with
  | .noHandle => some (-1, [])
  | .connFail aborts => if aborts then none else some (-1, [])
  | .queryFail aborts => if aborts then none else some (-1, [])
  | .noResult => none
  | .noRow => some (1, [])
  | .fetchFail => some (1, [])
  | .row cols =>
    if cols.length < dbFieldcount then some (0, [])
    else (addColumns (cols.take dbFieldcount)).map fun vals => (0, vals)

/-- `main`: `cdb_new`, which may not fail, and `mysqldb_new`. -/
def startUp (file : Option CdbFile) : Option Backend :=
  match cdbNew file cdbUnloaded with
  | none => none
  | some (rc, cdb) => if rc = 0 then (mysqldbNew cdb).map fun cols => ⟨cdb, cols⟩ else none

/-- One run of `cdb_periodic`: the file `stat` sees and the file `cdb_new` opens. -/
structure Periodic where
  seen : Option CdbFile
  opened : Option CdbFile

/-- `cdb_periodic` touches nothing of `mysqldb.c`. -/
def periodicStep (b : Backend) (p : Periodic) : Option (Unit × Backend) :=
  (cdbPeriodic p.seen p.opened b.cdb).map fun cdb => ((), { b with cdb := cdb })

/-- The comma-separated list of the names. -/
def joinNames (names : List Bytes) : Bytes := [0x2c].intercalate names

/-! ## The column list -/

/-- Appending within the bounds. -/
theorem strncatCols_some {cols src r : Bytes} (h : strncatCols cols src = some r) :
    r = cols ++ src := by
  unfold strncatCols at h
  by_cases hlong : (cols ++ src.take 512).length ≥ 512
  · rw [if_pos hlong] at h
    exact absurd h (by simp)
  · rw [if_neg hlong] at h
    obtain rfl := Option.some.inj h
    rw [List.length_append, List.length_take] at hlong
    rw [List.take_of_length_le (by omega)]

theorem colsLoop_some {names : List Bytes} :
    ∀ {cols r : Bytes}, colsLoop cols names = some r → r = cols ++ joinNames names := by
  induction names with
  | nil =>
    intro cols r h
    obtain rfl := Option.some.inj h
    simp [joinNames]
  | cons name rest ih =>
    intro cols r h
    rw [colsLoop] at h
    cases hname : strncatCols cols name with
    | none => rw [hname] at h; exact absurd h (by simp)
    | some cols' =>
      rw [hname] at h
      obtain rfl := strncatCols_some hname
      cases rest with
      | nil =>
        have hr := ih h
        rw [hr]
        simp [joinNames]
      | cons name' rest =>
        -- a name that is not the last one is followed by a comma
        simp only [reduceCtorEq, if_false] at h
        cases hcomma : strncatCols (cols ++ name) [0x2c] with
        | none => rw [hcomma] at h; exact absurd h (by simp)
        | some cols'' =>
          rw [hcomma] at h
          obtain rfl := strncatCols_some hcomma
          have hr := ih h
          rw [hr]
          simp [joinNames, List.intercalate]

/-- What `main` starts with: a loaded CDB, and its columns in the list. -/
theorem startUp_some {file : Option CdbFile} {b : Backend} (h : startUp file = some b) :
    b.cdb.Loaded ∧ b.cols = joinNames b.cdb.dbFields := by
  unfold startUp at h
  cases hnew : cdbNew file cdbUnloaded with
  | none => rw [hnew] at h; exact absurd h (by simp)
  | some r =>
    obtain ⟨rc, cdb⟩ := r
    simp only [hnew] at h
    by_cases hrc : rc = 0
    · rw [if_pos hrc] at h
      obtain ⟨cols, hcols, rfl⟩ := Option.map_eq_some_iff.mp h
      rcases cdbNew_cases hnew with ⟨-, f, -, hload⟩ | ⟨hfail, -⟩
      · exact ⟨(cdbLoad_ok hload).1, colsLoop_some hcols⟩
      · exact absurd (hrc.symm.trans hfail) (by decide)
    · rw [if_neg hrc] at h
      exact absurd h (by simp)

/-- A reload leaves the list as it is, and a loaded CDB. -/
theorem periodicStep_keeps {b b' : Backend} {p : Periodic} {o : Unit}
    (hloaded : b.cdb.Loaded) (h : periodicStep b p = some (o, b')) :
    b'.cols = b.cols ∧ b'.cdb.Loaded := by
  obtain ⟨cdb, hcdb, heq⟩ := Option.map_eq_some_iff.mp h
  obtain ⟨-, rfl⟩ := Prod.mk.inj heq
  rcases cdbPeriodic_cases hcdb with ⟨f, -, hload⟩ | rfl
  · exact ⟨rfl, (cdbLoad_ok hload).1⟩
  · exact ⟨rfl, hloaded⟩

/-- So do any number of them. -/
theorem periodicRuns_keep {b b' : Backend} {acts : List Periodic} {os : List Unit}
    (hloaded : b.cdb.Loaded) (h : runs periodicStep b acts = some (os, b')) :
    b'.cols = b.cols ∧ b'.cdb.Loaded := by
  refine runs_invariant (g := fun _ _ => True) (I := fun x => x.cols = b.cols ∧ x.cdb.Loaded) ?_
    ⟨rfl, hloaded⟩ guarded_true h
  intro x act o x' hx _ hstep
  obtain ⟨hcols, hloaded'⟩ := periodicStep_keeps hx.2 hstep
  exact ⟨hcols.trans hx.1, hloaded'⟩

/-! ## The rows -/

/-- The loop over the columns ends if none of them is NULL, and cuts each at its NUL. -/
theorem addColumns_iff {cols : List (Option Bytes)} :
    ∀ {r : List Bytes}, addColumns cols = some r ↔
      ∃ vals : List Bytes, cols = vals.map some ∧ r = vals.map cstr := by
  induction cols with
  | nil =>
    intro r
    constructor
    · intro h
      obtain rfl := Option.some.inj h
      exact ⟨[], rfl, rfl⟩
    · rintro ⟨vals, hvals, rfl⟩
      rw [List.map_eq_nil_iff.mp hvals.symm]
      rfl
  | cons col rest ih =>
    intro r
    cases col with
    | none =>
      constructor
      · intro h
        exact absurd h (by simp [addColumns])
      · rintro ⟨vals, hvals, -⟩
        cases vals with
        | nil => exact absurd hvals (by simp)
        | cons val vals => exact absurd (List.head_eq_of_cons_eq hvals) (by simp)
    | some val =>
      constructor
      · intro h
        obtain ⟨r', hr', rfl⟩ := Option.map_eq_some_iff.mp h
        obtain ⟨vals, hrest, rfl⟩ := ih.mp hr'
        exact ⟨val :: vals, by rw [hrest]; rfl, rfl⟩
      · rintro ⟨vals, hvals, rfl⟩
        cases vals with
        | nil => exact absurd hvals (by simp)
        | cons val' vals =>
          obtain ⟨hhead, hrest⟩ := List.cons_eq_cons.mp hvals
          obtain rfl := Option.some.inj hhead
          rw [addColumns, ih.mpr ⟨vals, hrest, rfl⟩]
          rfl

/-- A row with all columns comes to their values, if none of them is NULL. -/
theorem mysqldbGet_full {n : Nat} {cols : List (Option Bytes)} (hfull : ¬ cols.length < n)
    {row : Int × List Bytes} :
    mysqldbGet n (.row cols) = some row ↔
      ∃ vals : List Bytes, cols.take n = vals.map some ∧ row = (0, vals.map cstr) := by
  unfold mysqldbGet
  dsimp only
  rw [if_neg hfull, Option.map_eq_some_iff]
  constructor
  · rintro ⟨r, hr, rfl⟩
    obtain ⟨vals, hcols, rfl⟩ := addColumns_iff.mp hr
    exact ⟨vals, hcols, rfl⟩
  · rintro ⟨vals, hcols, rfl⟩
    exact ⟨vals.map cstr, addColumns_iff.mpr ⟨vals, hcols, rfl⟩, rfl⟩

/-- Anything else that is returned has no values. -/
theorem mysqldbGet_cases {n : Nat} {reply : MysqlReply} {row : Int × List Bytes}
    (h : mysqldbGet n reply = some row) :
    row.2 = [] ∨ ∃ cols, reply = .row cols ∧ ¬ cols.length < n := by
  cases reply with
  | row cols =>
    by_cases hfew : cols.length < n
    · have hempty : mysqldbGet n (.row cols) = some (0, []) := if_pos hfew
      obtain rfl := Option.some.inj (hempty.symm.trans h)
      exact Or.inl rfl
    · exact Or.inr ⟨cols, rfl, hfew⟩
  | connFail aborts =>
    cases aborts with
    | true => exact absurd h (by simp [mysqldbGet])
    | false =>
      obtain rfl := Option.some.inj h
      exact Or.inl rfl
  | queryFail aborts =>
    cases aborts with
    | true => exact absurd h (by simp [mysqldbGet])
    | false =>
      obtain rfl := Option.some.inj h
      exact Or.inl rfl
  | noResult => exact absurd h (by simp [mysqldbGet])
  | noHandle =>
    obtain rfl := Option.some.inj h
    exact Or.inl rfl
  | noRow =>
    obtain rfl := Option.some.inj h
    exact Or.inl rfl
  | fetchFail =>
    obtain rfl := Option.some.inj h
    exact Or.inl rfl

/-- Columns none of which is NULL. -/
theorem exists_values {cols : List (Option Bytes)} (h : ∀ col ∈ cols, ∃ val, col = some val) :
    ∃ vals : List Bytes, cols = vals.map some := by
  induction cols with
  | nil => exact ⟨[], rfl⟩
  | cons col cols ih =>
    obtain ⟨vals, rfl⟩ := ih fun c hc => h c (List.mem_cons_of_mem _ hc)
    obtain ⟨val, rfl⟩ := h col (List.mem_cons_self ..)
    exact ⟨val :: vals, rfl⟩

/-- The queries ask for the columns of the loaded CDB in its order, and value `i` of the
row is that of column `i`, whatever the record. -/
structure SelectsFields (ident : Bytes → Bool) (b : Backend) : Prop where
  cols : ∀ key, (b.select key).cols = joinNames b.cdb.dbFields
  row : ∀ key value, ∃ row, (b.select key).rowOf ident value = some row ∧
    ∀ i, i < b.cdb.dbFieldcount →
      ∃ name, b.cdb.dbFields[i]? = some name ∧ row[i]? = some (value name)

/-- Names come apart as they were joined. -/
theorem items_joinNames {ident : Bytes → Bool} {q : Select} {names : List Bytes}
    (hcols : q.cols = joinNames names) (hne : names ≠ [])
    (hnames : ∀ name ∈ names, isName ident name = true) : q.items ident = some names := by
  have hwords : ∀ name ∈ names, name.all isWordByte = true := by
    intro name hname
    have his := hnames name hname
    unfold isName at his
    rw [Bool.and_eq_true, Bool.and_eq_true] at his
    exact his.1.2
  have hread : readNames [] q.cols = (names, []) := by
    have hend : EndsWord [] := fun _ _ h => absurd h (by simp)
    have hjoin := readNames_join hend hne hwords
    rw [List.append_nil] at hjoin
    rw [hcols]
    exact hjoin
  unfold Select.items
  rw [hread]
  exact if_pos ⟨rfl, List.all_eq_true.mpr hnames⟩

theorem selectsFields_iff {ident : Bytes → Bool} {b : Backend} (hloaded : b.cdb.Loaded) :
    SelectsFields ident b ↔
      b.cols = joinNames b.cdb.dbFields ∧ ∀ name ∈ b.cdb.dbFields, isName ident name = true := by
  constructor
  · intro h
    refine ⟨h.cols [], fun name hname => ?_⟩
    -- a record that has in each column that column's name
    obtain ⟨row, hrow, hvalues⟩ := h.row [] some
    obtain ⟨names, hitems, rfl⟩ := Option.map_eq_some_iff.mp hrow
    obtain ⟨i, hi⟩ := List.mem_iff_getElem?.mp hname
    have hlt : i < b.cdb.dbFieldcount := by
      rw [← hloaded.names]
      exact (List.getElem?_eq_some_iff.mp hi).1
    obtain ⟨name', hname', hvalue⟩ := hvalues i hlt
    obtain rfl := Option.some.inj (hi.symm.trans hname')
    obtain ⟨item, hitem, hsome⟩ := List.mem_map.mp (List.mem_of_getElem? hvalue)
    obtain rfl := Option.some.inj hsome
    unfold Select.items at hitems
    dsimp only at hitems
    split at hitems
    · next hall =>
      obtain rfl := Option.some.inj hitems
      exact List.all_eq_true.mp hall.2 item hitem
    · exact absurd hitems (by simp)
  · rintro ⟨hcols, hnames⟩
    refine ⟨fun _ => hcols, fun key value => ⟨b.cdb.dbFields.map value, ?_, fun i hi => ?_⟩⟩
    · have hne : b.cdb.dbFields ≠ [] := by
        intro hnil
        have hcount := hloaded.names
        have hpos := hloaded.columns
        rw [hnil, List.length_nil] at hcount
        omega
      unfold Select.rowOf
      rw [items_joinNames hcols hne hnames]
      rfl
    · have hlt : i < b.cdb.dbFields.length := by rw [hloaded.names]; exact hi
      have hget : b.cdb.dbFields[i]? = some b.cdb.dbFields[i] := List.getElem?_eq_getElem hlt
      refine ⟨_, hget, ?_⟩
      rw [List.getElem?_map, hget]
      rfl

/-- A name with a comma is two names to MySQL. -/
example : Select.items (fun _ => true) ⟨joinNames [ascii "a,b", ascii "c"], [], [], []⟩
    = some [ascii "a", ascii "b", ascii "c"] := by
  decide

/-- **When the queries follow a reload.** In any state reached from start-up they ask
for the columns of the loaded CDB, value by value, if and only if these join to the text
that the columns at start-up joined to and MySQL takes each for a name. -/
theorem cols_current_iff (ident : Bytes → Bool) (file : Option CdbFile)
    (acts : List Periodic) (os : List Unit) (b₀ b : Backend) (hstart : startUp file = some b₀)
    (hrun : runs periodicStep b₀ acts = some (os, b)) :
    SelectsFields ident b ↔
      joinNames b.cdb.dbFields = joinNames b₀.cdb.dbFields ∧
        ∀ name ∈ b.cdb.dbFields, isName ident name = true := by
  obtain ⟨hloaded₀, hcols₀⟩ := startUp_some hstart
  obtain ⟨hcols, hloaded⟩ := periodicRuns_keep hloaded₀ hrun
  rw [selectsFields_iff hloaded, hcols, hcols₀, eq_comm]

/-- Start-up with the file that has two columns. -/
theorem startUp_twoColumns (mtime : Int) :
    startUp (some ⟨twoColumns, mtime⟩)
      = some ⟨twoColumnsLoaded mtime, ascii "login,uid"⟩ := by
  unfold startUp
  rw [cdbNew_ok (cdbLoad_twoColumns mtime)]
  rfl

/-- Loading the same columns again keeps the queries right. -/
theorem cols_current_iff_same :
    SelectsFields (fun _ => true) ⟨twoColumnsLoaded 10, ascii "login,uid"⟩ := by
  refine (cols_current_iff (fun _ => true) (some ⟨twoColumns, 5⟩)
    [⟨some ⟨twoColumns, 10⟩, some ⟨twoColumns, 10⟩⟩] [()] _ _ (startUp_twoColumns 5) ?_).mpr
      ⟨rfl, List.all_eq_true.mp (by decide)⟩
  simp only [runs, periodicStep]
  rw [cdbPeriodic_newer (by decide) (by decide) (cdbLoad_twoColumns 10)]
  rfl

/-- A reload that drops a column leaves the queries asking for both. -/
theorem cols_stale :
    ¬ ∀ (file : Option CdbFile) (acts : List Periodic) (os : List Unit) (b₀ b : Backend),
      startUp file = some b₀ → runs periodicStep b₀ acts = some (os, b) →
      (joinNames b₀.cdb.dbFields).length < 512 →
      (∀ p ∈ acts, ∀ f cdb, p.opened = some f → cdbLoad f = .ok cdb →
        (joinNames cdb.dbFields).length < 512) →
      SelectsFields (fun _ => true) b := by
  intro h
  have hselects : SelectsFields (fun _ => true) ⟨oneColumnLoaded 10, ascii "login,uid"⟩ := by
    refine h (some ⟨twoColumns, 5⟩) [⟨some ⟨oneColumn, 10⟩, some ⟨oneColumn, 10⟩⟩] [()] _ _
      (startUp_twoColumns 5) ?_ (by decide) ?_
    · simp only [runs, periodicStep]
      rw [cdbPeriodic_newer (by decide) (by decide) (cdbLoad_oneColumn 10)]
      rfl
    · intro p hp f cdb hf hload
      obtain rfl := List.mem_singleton.mp hp
      obtain rfl := Option.some.inj hf
      rw [cdbLoad_oneColumn] at hload
      obtain rfl := Except.ok.inj hload
      decide
  have hcols : ascii "login,uid" = joinNames [ascii "uid"] := hselects.cols []
  exact absurd hcols (by decide)

end Nastd.Server
