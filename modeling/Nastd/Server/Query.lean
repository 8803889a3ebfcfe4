import Nastd.Lib.SqlText
import Nastd.Server.Mysqldb

/-!
# What the query asks for

`mysqldb_get` prints the column list, the table, the key column and the key of a client
into `DBSELECT` as they are. `AsksFor` is what the text should be: a SELECT of the fields
of the CDB, from its table, with the key as its literal, whole in both buffers.

Nothing escapes the key, nothing bounds the list of names against the 512 bytes of `cols`
or the text against the 1024 of the query, and nothing looks at the names.
`query_text_iff` says for which names and keys it still is that SELECT.
-/

namespace Nastd.Server

open Nastd.Lib

/-- The text before it is cut to the buffer. -/
def Select.whole (q : Select) : Bytes :=
  ascii "SELECT " ++ q.cols ++ ascii " FROM " ++ q.tbl ++ ascii " WHERE " ++ q.keycol
    ++ ascii "='" ++ q.key ++ ascii "'"

theorem Select.text_eq (q : Select) : q.text = q.whole.take 1023 := rfl

/-- The query of `mysqldb_get` for this key is one SELECT of all fields, in order, from the
table, whose literal is the key and ends the text, and neither buffer was too small. `ident`
is what the server takes for a name. -/
def AsksFor (ident : Bytes → Bool) (cdb : Cdb) (key : Bytes) : Prop :=
  ∃ cols, mysqldbNew cdb = some cols ∧
    (Backend.select ⟨cdb, cols⟩ (cstr key)).text = (Backend.select ⟨cdb, cols⟩ (cstr key)).whole ∧
    readSelect ident (Backend.select ⟨cdb, cols⟩ (cstr key)).text
      = some ⟨cdb.dbFields, cdb.dbTbl, cdb.dbKey, key⟩

/-- Names and key fit, the names are words that the server knows for names, and the key
means itself between quotes. -/
structure QuerySafe (ident : Bytes → Bool) (cdb : Cdb) (key : Bytes) : Prop where
  cols : (joinNames cdb.dbFields).length ≤ 511
  query : (joinNames cdb.dbFields).length + cdb.dbTbl.length + cdb.dbKey.length + key.length ≤ 1000
  fields : cdb.dbFields ≠ []
  names : ∀ w ∈ cdb.dbFields ++ [cdb.dbTbl, cdb.dbKey], isName ident w = true
  literal : plainLiteral key = true

/-! ## The two buffers -/

theorem strncatCols_fits {cols src : Bytes} (h : (cols ++ src).length ≤ 511) :
    strncatCols cols src = some (cols ++ src) := by
  have hsrc : src.take 512 = src := by
    apply List.take_of_length_le
    rw [List.length_append] at h
    omega
  unfold strncatCols
  rw [hsrc]
  exact if_neg (by omega)

theorem strncatCols_length {cols src r : Bytes} (h : strncatCols cols src = some r) :
    r.length ≤ 511 := by
  unfold strncatCols at h
  dsimp only at h
  split at h
  · exact absurd h (by simp)
  · obtain rfl := Option.some.inj h
    omega

theorem joinNames_cons (name next : Bytes) (rest : List Bytes) :
    joinNames (name :: next :: rest) = name ++ [0x2c] ++ joinNames (next :: rest) :=
  List.intercalate_cons_cons ..

/-- The column buffer is large enough exactly for what is joined in it. -/
theorem colsLoop_fits {names : List Bytes} :
    ∀ {cols : Bytes}, (cols ++ joinNames names).length ≤ 511 →
      colsLoop cols names = some (cols ++ joinNames names) := by
  induction names with
  | nil =>
    intro cols _
    rw [colsLoop, joinNames, List.intercalate_nil, List.append_nil]
  | cons name rest ih =>
    intro cols h
    rw [colsLoop]
    cases rest with
    | nil =>
      have hone : joinNames [name] = name := List.intercalate_singleton ..
      rw [hone] at h ⊢
      rw [strncatCols_fits h]
      rfl
    | cons next rest =>
      rw [joinNames_cons] at h ⊢
      have hlen := h
      simp only [List.length_append] at hlen
      rw [strncatCols_fits (by rw [List.length_append]; omega)]
      dsimp only
      rw [if_neg (List.cons_ne_nil next rest),
        strncatCols_fits (by simp only [List.length_append]; omega)]
      dsimp only
      rw [ih (by simp only [List.length_append]; omega)]
      simp only [List.append_assoc]

theorem colsLoop_length {names : List Bytes} :
    ∀ {cols r : Bytes}, cols.length ≤ 511 → colsLoop cols names = some r → r.length ≤ 511 := by
  induction names with
  | nil =>
    intro cols r hcols h
    obtain rfl := Option.some.inj h
    exact hcols
  | cons name rest ih =>
    intro cols r _ h
    rw [colsLoop] at h
    split at h
    · exact absurd h (by simp)
    · next cols' hcols' =>
      have hle := strncatCols_length hcols'
      split at h
      · exact ih hle h
      · split at h
        · exact absurd h (by simp)
        · next cols'' hcols'' => exact ih (strncatCols_length hcols'') h

/-- `mysqldb_new` gets through if the joined names fit its buffer. -/
theorem mysqldbNew_eq_some {cdb : Cdb} {cols : Bytes} :
    mysqldbNew cdb = some cols ↔
      (joinNames cdb.dbFields).length ≤ 511 ∧ cols = joinNames cdb.dbFields := by
  unfold mysqldbNew
  constructor
  · intro h
    have hcols := colsLoop_some h
    rw [List.nil_append] at hcols
    have hle := colsLoop_length (Nat.zero_le _) h
    rw [hcols] at hle
    exact ⟨hle, hcols⟩
  · rintro ⟨hle, rfl⟩
    exact colsLoop_fits hle

/-- The query text, whole, is the statement put together from its parts. -/
theorem whole_eq_build (cdb : Cdb) (key : Bytes) :
    (Backend.select ⟨cdb, joinNames cdb.dbFields⟩ key).whole
      = (⟨cdb.dbFields, cdb.dbTbl, cdb.dbKey, key⟩ : SelectStmt).build := by
  have hquote : ascii "'" = [sqlQuote] := rfl
  unfold Select.whole SelectStmt.build Backend.select joinNames
  rw [hquote]
  simp only [List.append_assoc]
  rfl

theorem whole_length (q : Select) :
    q.whole.length = 23 + (q.cols.length + q.tbl.length + q.keycol.length + q.key.length) := by
  have h1 : (ascii "SELECT ").length = 7 := rfl
  have h2 : (ascii " FROM ").length = 6 := rfl
  have h3 : (ascii " WHERE ").length = 7 := rfl
  have h4 : (ascii "='").length = 2 := rfl
  have h5 : (ascii "'").length = 1 := rfl
  unfold Select.whole
  simp only [List.length_append, h1, h2, h3, h4, h5]
  omega

/-- **Which lookups the query means.** For any names and any key without a NUL, the text is
the SELECT that was asked for, uncut, if and only if names and key are safe. -/
theorem query_text_iff (ident : Bytes → Bool) (cdb : Cdb) (key : Bytes) (hnul : 0 ∉ key) :
    AsksFor ident cdb key ↔ QuerySafe ident cdb key := by
  have hlen : (Backend.select ⟨cdb, joinNames cdb.dbFields⟩ key).whole.length
      = 23 + ((joinNames cdb.dbFields).length + cdb.dbTbl.length + cdb.dbKey.length
        + key.length) := whole_length _
  unfold AsksFor
  rw [cstr_of_not_mem hnul]
  constructor
  · intro ⟨cols, hnew, huncut, hread⟩
    obtain ⟨hcols, rfl⟩ := mysqldbNew_eq_some.mp hnew
    rw [huncut, whole_eq_build] at hread
    obtain ⟨hne, hnames, hplain⟩ := (readSelect_build ident _).mp hread
    have hcut := congrArg List.length huncut
    rw [Select.text_eq, List.length_take] at hcut
    exact ⟨hcols, by omega, hne, hnames, hplain⟩
  · intro h
    have hquery := h.query
    have huncut : (Backend.select ⟨cdb, joinNames cdb.dbFields⟩ key).text
        = (Backend.select ⟨cdb, joinNames cdb.dbFields⟩ key).whole := by
      rw [Select.text_eq]
      exact List.take_of_length_le (by omega)
    refine ⟨_, mysqldbNew_eq_some.mpr ⟨h.cols, rfl⟩, huncut, ?_⟩
    rw [huncut, whole_eq_build]
    exact (readSelect_build ident _).mpr ⟨h.fields, h.names, h.literal⟩

/-- A plain key. -/
theorem query_text_iff_bob : AsksFor (fun _ => true) (twoColumnsLoaded 5) (ascii "bob") :=
  (query_text_iff (fun _ => true) (twoColumnsLoaded 5) (ascii "bob") (by decide)).mpr
    ⟨by decide, by decide, by decide, List.all_eq_true.mp (by decide), by decide⟩

/-- A quote in the key ends the literal before its time. -/
theorem quoted_key :
    ¬ ∀ (ident : Bytes → Bool) (file : CdbFile) (cdb : Cdb) (key : Bytes),
      cdbLoad file = .ok cdb → 0 ∉ key → AsksFor ident cdb key := by
  intro h
  obtain ⟨cols, hnew, huncut, hread⟩ := h (fun _ => true) ⟨twoColumns, 5⟩ (twoColumnsLoaded 5)
    (ascii "o'neil") (cdbLoad_twoColumns 5) (by decide)
  obtain ⟨-, rfl⟩ := mysqldbNew_eq_some.mp hnew
  exact absurd hread (by decide)

end Nastd.Server
