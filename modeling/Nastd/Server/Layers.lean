import Nastd.Server.CdbFields
import Nastd.Server.CdbFormat
import Nastd.Server.Isolation

/-!
# Where an answer comes from

A GET may be answered from three places: the memdb, the CDB and MySQL. `do_get` of
`server/nastdio.c` asks the first two, `do_fallthrough` the third when a worker gets to
the request, and each leaves its result in the one array that is sent.

`resolved` says what this is for: of the places that the client's options select, in
this order, the first that has the key answers, and an empty answer stands for none. What a
place has is what it holds: the live entries of the cache, the records of the file, the
tables of MySQL. `do_get_resolves_iff` says exactly when that answer is sent. What stands in
the way are the keys that `cdb_find` overlooks (`Cdb.Finds`) and replies of MySQL that are
not what the table has (`Brings`): it failed, or the query was not for these columns.

`always_fallthrough` is, as documented, nothing but the other two places turned off
(`alwaysFallthrough_eq`).
-/

namespace Nastd.Server

open Nastd.Lib

/-! ## What the places hold -/

/-- The tables of MySQL: what the record with this key has in each column, by database,
table and key column. -/
abbrev MysqlTables := Bytes → Bytes → Bytes → Bytes → Option (Bytes → Option Bytes)

/-- The loaded file holds these records. -/
def Cdb.Holds (cdb : Cdb) (recs : List Record) : Prop :=
  match cdb.memcdb with
  | none => recs = []
  | some img => Layout img recs

section Places

variable (opts : NastOptions) (key : Bytes)

/-- What the cache has: an entry that is still good. A non-result is an empty one. -/
def memdbLayer (srv : Shared) : Option (List Bytes) :=
  if opts.useQcache = true ∧ opts.alwaysFallthrough = false then
    ((srv.memdb key).filter fun e => !e.gone srv.now srv.cdb.cdbMtime).map Entry.vals
  else none

/-- What the CDB has: the fields of the first record with the key. -/
def cdbLayer (cdb : Cdb) (recs : List Record) : Option (List Bytes) :=
  if opts.alwaysFallthrough = false ∧ opts.useLocaldb = true then
    (recs.find? fun r => decide (r.key = key)).map fun r => r.data.splitOn cdb.dbSep
  else none

/-- What MySQL has: the columns of the CDB that is loaded then. A NULL is an empty value. -/
def mysqlLayer (tables : MysqlTables) (cdb : Cdb) : Option (List Bytes) :=
  if opts.noFallthrough = false then
    (tables cdb.dbDbn cdb.dbTbl cdb.dbKey key).map fun value =>
      cdb.dbFields.map fun name => (value name).getD []
  else none

/-- The first place that has the key; `cdb'` is the CDB when MySQL is asked. -/
def resolved (recs : List Record) (tables : MysqlTables) (srv : Shared) (cdb' : Cdb) :
    List Bytes :=
  (memdbLayer opts key srv <|> cdbLayer opts key srv.cdb recs
    <|> mysqlLayer opts key tables cdb').getD []

/-- What `do_get` has of the CDB. -/
def cdbFinds (after : Nat → Byte) (cdb : Cdb) : Option (List Bytes) :=
  if opts.alwaysFallthrough = false ∧ opts.useLocaldb = true then
    let r := cdbGet cdb key after
    if r.1 = 0 then some r.2 else none
  else none

end Places

/-- What `do_fallthrough` answers. -/
def rowItems (row : Int × List Bytes) : List Bytes := if row.1 = -1 then [] else row.2

/-- A GET until its answer is sent. `later` is all that happens to the shared state between
`do_get` and the worker that takes its request from the queue. -/
def answerGet (mysql : Bytes → MysqlReply) (cols : Bytes) (later : Shared → Shared) (sock : Nat)
    (reqid : UInt16) (opts : NastOptions) (key : Bytes) (after : Nat → Byte) (srv : Shared) :
    Option (List Bytes × Shared) :=
  let g := doGet sock reqid opts key after srv
  match g.1.queued with
  | [] => some (g.1.sent, g.2)
  | req :: _ =>
    (doFallthrough (mysql (Backend.select ⟨(later g.2).cdb, cols⟩ (cstr req.req)).text) req
      (later g.2)).map fun f => (g.1.sent ++ f.1.sent, f.2)

/-! ## When they are asked rightly -/

/-- `cdb_find` can find the key: it compares it in whole pieces, and the length of the file
is an `int` that is not negative. -/
def Cdb.Finds (cdb : Cdb) (key : Bytes) : Prop :=
  (key.length ≤ 32 ∨ 32 ∣ key.length) ∧ ∀ img, cdb.memcdb = some img → img.len < 2 ^ 31

/-- What comes of the query brings the text of these values: a row that has them in its first
`n` columns, none of which is NULL, or, if the text is empty, no row that `mysqldb_get`
could use. -/
def Brings (n : Nat) (reply : MysqlReply) (aa : List Bytes) : Prop :=
  match reply with
  | .noHandle => joinItems aa = []
  | .connFail aborts => aborts = false ∧ joinItems aa = []
  | .queryFail aborts => aborts = false ∧ joinItems aa = []
  | .noResult => False
  | .noRow => joinItems aa = []
  | .fetchFail => joinItems aa = []
  | .row cols =>
    if cols.length < n then joinItems aa = []
    else ∃ vals : List Bytes, cols.take n = vals.map some ∧ joinItems (vals.map cstr) = joinItems aa

/-- What `do_get` does when cache and CDB have nothing for it sends the text of these values. -/
def FallsBackTo (opts : NastOptions) (n : Nat) (reply : MysqlReply) (aa : List Bytes) : Prop :=
  if opts.noFallthrough = false then Brings n reply aa else joinItems aa = []

/-! ## One place at a time -/

/-- `cdb_get` finds the key, or fails and leaves the array empty. -/
theorem cdbGet_cases (cdb : Cdb) (key : Bytes) (after : Nat → Byte) :
    (cdbGet cdb key after).1 = 0 ∨ cdbGet cdb key after = (-1, []) := by
  unfold cdbGet
  split
  · exact Or.inr rfl
  · split
    · exact Or.inr rfl
    · exact Or.inl rfl

section Cdb

variable {cdb : Cdb} {recs : List Record} {key : Bytes}

/-- The data of a record, read back from the image. -/
theorem slice_data {img : Image} {r : Record} (h : img.Holds r) :
    img.slice (r.pos + 8 + r.key.length) r.data.length = r.data := by
  unfold Image.slice
  refine List.ext_getElem (by simp) fun i hi hi' => ?_
  rw [List.getElem_map, List.getElem_range]
  exact h.data i hi'

/-- A lookup in a file whose length is an `int`. -/
theorem cdbFindbykey_small {img : Image} (h : img.len < 2 ^ 31) (key : Bytes)
    (after : Nat → Byte) :
    cdbFindbykey img key after
      = match cdbFind img key after with
        | .found ret retlen => some (ret, retlen)
        | _ => none := by
  have hlen : intOfLen img.len = img.len := by
    unfold intOfLen
    rw [Nat.mod_eq_of_lt (by omega), if_pos (by omega)]
  unfold cdbFindbykey
  rw [hlen, if_neg (by omega)]
  rfl

/-- In a larger one there is nothing. -/
theorem cdbFindbykey_large {img : Image} (hsmall : img.len < 2 ^ 32) (h : ¬ img.len < 2 ^ 31)
    (key : Bytes) (after : Nat → Byte) : cdbFindbykey img key after = none := by
  have hneg : intOfLen img.len < 0 := by
    unfold intOfLen
    rw [Nat.mod_eq_of_lt (by omega), if_neg (by omega)]
    omega
  unfold cdbFindbykey
  rw [if_pos hneg]

/-- A key that can be found: the first record with it, if there is one. -/
theorem cdbGet_finds (hholds : cdb.Holds recs) (hlt : key.length < 2 ^ 32)
    (hfinds : cdb.Finds key) (after : Nat → Byte) :
    cdbGet cdb key after
      = match recs.find? fun r => decide (r.key = key) with
        | some r => (0, r.data.splitOn cdb.dbSep)
        | none => (-1, []) := by
  unfold cdbGet
  unfold Cdb.Holds at hholds
  cases himg : cdb.memcdb with
  | none =>
    rw [himg] at hholds
    rw [hholds]
    rfl
  | some img =>
    rw [himg] at hholds
    have hlayout : Layout img recs := hholds
    have hfirst : FindsFirst recs key (scanRecords img key after recs) :=
      scanRecords_whole hlayout.small hlt hfinds.1 hlayout.held
    rw [← cdbFind_eq_scan hlayout] at hfirst
    dsimp only
    rw [cdbFindbykey_small (hfinds.2 img himg)]
    unfold FindsFirst at hfirst
    cases hr : recs.find? fun r => decide (r.key = key) with
    | none =>
      rw [hr] at hfirst
      rw [show cdbFind img key after = .absent from hfirst]
    | some r =>
      rw [hr] at hfirst
      have hheld := hlayout.held r (List.mem_of_find?_eq_some hr)
      have hsmall := hlayout.small
      have hinside := hheld.inside
      have hdlen : (UInt32.ofNat r.data.length).toNat = r.data.length := by
        rw [UInt32.toNat_ofNat']
        omega
      rw [show cdbFind img key after
        = .found (r.pos + 8 + r.key.length) (UInt32.ofNat r.data.length) from hfirst]
      dsimp only
      rw [hdlen, slice_data hheld, splitFields_splitOn _ _ [] List.not_mem_nil, List.nil_append]

/-- Any other is overlooked. -/
theorem cdbGet_overlooks (hholds : cdb.Holds recs) (hlt : key.length < 2 ^ 32)
    (hfinds : ¬ cdb.Finds key) (after : Nat → Byte) : cdbGet cdb key after = (-1, []) := by
  unfold cdbGet
  unfold Cdb.Holds at hholds
  cases himg : cdb.memcdb with
  | none => rfl
  | some img =>
    rw [himg] at hholds
    have hlayout : Layout img recs := hholds
    dsimp only
    by_cases hsmall : img.len < 2 ^ 31
    · -- `match` compares more than is left of the key
      have hpart : ¬ (key.length ≤ 32 ∨ 32 ∣ key.length) := by
        intro hwhole
        refine hfinds ⟨hwhole, fun img' himg' => ?_⟩
        obtain rfl := Option.some.inj (himg.symm.trans himg')
        exact hsmall
      obtain ⟨h32, hdvd⟩ := not_or.mp hpart
      obtain ⟨hbad, hgood⟩ :=
        scanRecords_partial after hlayout.small hlt (Nat.lt_of_not_le h32) hdvd hlayout.held
      rw [cdbFindbykey_small hsmall, cdbFind_eq_scan hlayout]
      by_cases hfail : ∃ r ∈ recs, FailsOn img key after r
      · rw [hbad hfail]
      · rw [hgood fun r hr hf => hfail ⟨r, hr, hf⟩]
    · rw [cdbFindbykey_large hlayout.small hsmall]

/-- So `do_get` has of the CDB what the file holds, or nothing. -/
theorem cdbFinds_eq (opts : NastOptions) (hholds : cdb.Holds recs) (hlt : key.length < 2 ^ 32)
    (after : Nat → Byte) :
    (cdb.Finds key → cdbFinds opts key after cdb = cdbLayer opts key cdb recs) ∧
      (¬ cdb.Finds key → cdbFinds opts key after cdb = none) := by
  unfold cdbFinds cdbLayer
  by_cases hl : opts.alwaysFallthrough = false ∧ opts.useLocaldb = true
  · rw [if_pos hl, if_pos hl]
    dsimp only
    constructor
    · intro hfinds
      rw [cdbGet_finds hholds hlt hfinds]
      cases recs.find? fun r => decide (r.key = key) with
      | none => rfl
      | some r => rfl
    · intro hfinds
      rw [cdbGet_overlooks hholds hlt hfinds]
      rfl
  · rw [if_neg hl, if_neg hl]
    exact ⟨fun _ => rfl, fun _ => rfl⟩

end Cdb

section Mysql

/-- What `mysqldb_get` makes of a reply comes to the text of these values. -/
theorem brings_iff {n : Nat} {reply : MysqlReply} {aa : List Bytes} :
    Brings n reply aa ↔
      ∃ row, mysqldbGet n reply = some row ∧ joinItems (rowItems row) = joinItems aa := by
  -- with an empty row the text is empty
  have hempty : ∀ {rc : Int}, (joinItems aa = [] ↔
      ∃ row, some (rc, ([] : List Bytes)) = some row ∧
        joinItems (rowItems row) = joinItems aa) := by
    intro rc
    have hrow : rowItems (rc, []) = [] := by
      unfold rowItems
      split
      · rfl
      · rfl
    constructor
    · intro h
      exact ⟨_, rfl, by rw [hrow, h]; rfl⟩
    · rintro ⟨row, hsome, htext⟩
      obtain rfl := Option.some.inj hsome
      rw [hrow] at htext
      exact htext.symm
  unfold Brings mysqldbGet
  cases reply with
  | noHandle => exact hempty
  | connFail aborts =>
    cases aborts with
    | false => exact (and_iff_right rfl).trans hempty
    | true => simp
  | queryFail aborts =>
    cases aborts with
    | false => exact (and_iff_right rfl).trans hempty
    | true => simp
  | noResult => simp
  | noRow => exact hempty
  | fetchFail => exact hempty
  | row cols =>
    dsimp only
    by_cases hfew : cols.length < n
    · rw [if_pos hfew, if_pos hfew]
      exact hempty
    · rw [if_neg hfew]
      constructor
      · rintro ⟨vals, hcols, htext⟩
        exact ⟨(0, vals.map cstr), (mysqldbGet_full hfew).mpr ⟨vals, hcols, rfl⟩, htext⟩
      · rintro ⟨row, hrow, htext⟩
        obtain ⟨vals, hcols, rfl⟩ := (mysqldbGet_full hfew).mp hrow
        exact ⟨vals, hcols, htext⟩

end Mysql

section Lookups

variable (opts : NastOptions) (key : Bytes) (srv : Shared)

/-- The cache has the key exactly if `memdb_get` returns 0. -/
theorem memdbLayer_eq :
    memdbLayer opts key srv
      = (let cached := srv.memdb.get srv.now srv.cdb.cdbMtime key
        if opts.useQcache = true ∧ opts.alwaysFallthrough = false ∧ cached.1 = 0
        then some cached.2.1 else none) := by
  unfold memdbLayer CacheMap.get
  by_cases hq : opts.useQcache = true ∧ opts.alwaysFallthrough = false
  · rw [if_pos hq]
    cases srv.memdb key with
    | none => simp
    | some e =>
      cases hgone : e.gone srv.now srv.cdb.cdbMtime with
      | false => simp [hq.1, hq.2, hgone, Option.filter]
      | true => simp [hgone, Option.filter]
  · rw [if_neg hq]
    dsimp only
    rw [if_neg fun h => hq (And.intro h.1 h.2.1)]

/-- What `do_get` answers by itself, place by place. -/
theorem getItems_layers (after : Nat → Byte) :
    getItems opts key after srv
      = (memdbLayer opts key srv <|> cdbFinds opts key after srv.cdb
        <|> if opts.noFallthrough = false then none else some []) := by
  rw [memdbLayer_eq opts key srv]
  unfold getItems
  dsimp only
  split
  · rfl
  · -- the cache does not answer, so the CDB is asked unless the options forbid it
    unfold getFound cdbFinds
    by_cases hl : opts.alwaysFallthrough = false ∧ opts.useLocaldb = true
    · simp only [if_pos hl]
      rcases cdbGet_cases srv.cdb key after with h0 | h1
      · simp [h0]
      · simp [h1]
    · simp [if_neg hl]

end Lookups

/-! ## The first that has it -/

/-- A response that fits is sent exactly if its text is. -/
theorem sent_eq_iff (reqid : UInt16) {aa bb : List Bytes} (hfit : Fits aa) :
    (sendResponse reqid NASTOK bb).sent = [responseFrame reqid NASTOK aa] ↔
      joinItems bb = joinItems aa := by
  rw [sendResponse_eq]
  constructor
  · intro h
    by_cases hb : Fits bb
    · rw [if_pos hb] at h
      have hframe : responseFrame reqid NASTOK bb = responseFrame reqid NASTOK aa :=
        List.head_eq_of_cons_eq h
      have htail := congrArg (List.drop 5) hframe
      exact htail
    · rw [if_neg hb] at h
      exact absurd h (by simp [Outcome.idle])
  · intro h
    have hb : Fits bb := by
      unfold Fits
      rw [h]
      exact hfit
    rw [if_pos hb]
    unfold responseFrame
    rw [h]

section Resolve

variable (mysql : Bytes → MysqlReply) (cols : Bytes) (later : Shared → Shared) (sock : Nat)
  (reqid : UInt16) (opts : NastOptions) (key : Bytes) (after : Nat → Byte) (srv : Shared)

/-- With `always_fallthrough` on, the other two switches do not matter: `do_get` does what
it does with both of them off. -/
theorem alwaysFallthrough_eq :
    doGet sock reqid { opts with alwaysFallthrough := true } key after srv
      = doGet sock reqid { opts with useQcache := false, useLocaldb := false } key after srv := by
  have hitems : getItems { opts with alwaysFallthrough := true } key after srv
      = getItems { opts with useQcache := false, useLocaldb := false } key after srv := by
    simp [getItems, getFound]
  have hmemdb : getMemdb { opts with alwaysFallthrough := true } key srv
      = getMemdb { opts with useQcache := false, useLocaldb := false } key srv := by
    simp [getMemdb]
  rw [doGet_eq, doGet_eq, hitems, hmemdb]

/-- What comes of the query for the key, when the worker asks. -/
def replyFor : MysqlReply :=
  mysql (Backend.select ⟨(later (doGet sock reqid opts key after srv).2).cdb, cols⟩ key).text

/-- One that does not go to the queue is answered by the first of the two databases. -/
theorem answerGet_here {aa : List Bytes} (hitems : getItems opts key after srv = some aa) :
    ∃ srv', answerGet mysql cols later sock reqid opts key after srv
      = some ((sendResponse reqid NASTOK aa).sent, srv') := by
  unfold answerGet
  rw [doGet_eq, hitems]
  simp only [sendResponse_queued]
  exact ⟨_, rfl⟩

/-- One that does is answered by the worker. -/
theorem answerGet_queued (hnul : 0 ∉ key)
    (hroom : (fqmPush srv.fqm (reqNew sock reqid key)).1 ≠ -1)
    (hitems : getItems opts key after srv = none) :
    (answerGet mysql cols later sock reqid opts key after srv).map Prod.fst
      = (mysqldbGet (later (doGet sock reqid opts key after srv).2).cdb.dbFieldcount
          (replyFor mysql cols later sock reqid opts key after srv)).map fun row =>
        (sendResponse reqid NASTOK (rowItems row)).sent := by
  have hkey : cstr (reqNew sock reqid key).req = key := cstr_of_not_mem hnul
  unfold answerGet replyFor
  generalize hg : doGet sock reqid opts key after srv = g
  rw [doGet_eq, hitems] at hg
  simp only [getQueued, if_neg hroom] at hg
  subst hg
  simp only [Outcome.idle, List.nil_append]
  unfold doFallthrough
  rw [Option.map_map, Option.map_map, hkey]
  refine congrArg (Option.map · _) (funext fun row => ?_)
  exact fallthroughRow_sent row _ _

variable (recs : List Record) (tables : MysqlTables)

/-- What the answer should be. -/
def due : List Bytes :=
  resolved opts key recs tables srv (later (doGet sock reqid opts key after srv).2).cdb

/-- The condition: the cache answers; or the CDB has the key and it can be found; or what
comes of the rest brings the same text. -/
def Reached : Prop :=
  memdbLayer opts key srv ≠ none ∨
    (cdbLayer opts key srv.cdb recs ≠ none ∧ srv.cdb.Finds key) ∨
      FallsBackTo opts (later (doGet sock reqid opts key after srv).2).cdb.dbFieldcount
        (replyFor mysql cols later sock reqid opts key after srv)
        (due later sock reqid opts key after srv recs tables)

/-- One that neither the cache nor the CDB answers: the text is sent that the rest brings. -/
theorem answerGet_rest (hnul : 0 ∉ key)
    (hroom : (fqmPush srv.fqm (reqNew sock reqid key)).1 ≠ -1) {aa : List Bytes} (hfit : Fits aa)
    (hitems : getItems opts key after srv
      = if opts.noFallthrough = false then none else some []) :
    (∃ srv', answerGet mysql cols later sock reqid opts key after srv
        = some ([responseFrame reqid NASTOK aa], srv')) ↔
      FallsBackTo opts (later (doGet sock reqid opts key after srv).2).cdb.dbFieldcount
        (replyFor mysql cols later sock reqid opts key after srv) aa := by
  unfold FallsBackTo
  by_cases hfall : opts.noFallthrough = false
  · rw [if_pos hfall] at hitems ⊢
    have hqueued := answerGet_queued mysql cols later sock reqid opts key after srv hnul hroom
      hitems
    rw [brings_iff]
    constructor
    · rintro ⟨srv', hanswer⟩
      rw [hanswer] at hqueued
      obtain ⟨row, hrow, hsent⟩ := Option.map_eq_some_iff.mp hqueued.symm
      exact ⟨row, hrow, (sent_eq_iff reqid hfit).mp hsent⟩
    · rintro ⟨row, hrow, htext⟩
      rw [hrow, Option.map_some, (sent_eq_iff reqid hfit).mpr htext] at hqueued
      obtain ⟨r, hanswer, hsent⟩ := Option.map_eq_some_iff.mp hqueued
      exact ⟨r.2, by rw [hanswer, ← hsent]⟩
  · rw [if_neg hfall] at hitems ⊢
    obtain ⟨srv', hanswer⟩ := answerGet_here mysql cols later sock reqid opts key after srv hitems
    constructor
    · rintro ⟨srv'', hsent⟩
      have hsame := Option.some.inj (hanswer.symm.trans hsent)
      exact ((sent_eq_iff reqid hfit).mp (congrArg Prod.fst hsame)).symm
    · intro htext
      have hsent : (sendResponse reqid NASTOK []).sent = [responseFrame reqid NASTOK aa] :=
        (sent_eq_iff reqid hfit).mpr htext.symm
      exact ⟨srv', by rw [hanswer, hsent]⟩

/-- What is due once it is known where the key is. -/
theorem due_memdb {aa : List Bytes} (hm : memdbLayer opts key srv = some aa) :
    due later sock reqid opts key after srv recs tables = aa := by
  unfold due resolved
  rw [hm]
  rfl

theorem due_cdb {aa : List Bytes} (hm : memdbLayer opts key srv = none)
    (hc : cdbLayer opts key srv.cdb recs = some aa) :
    due later sock reqid opts key after srv recs tables = aa := by
  unfold due resolved
  rw [hm, hc]
  rfl

end Resolve

/-- A server that has loaded a file with the keys `a` and 33 times `a`; its cache still holds
a non-result for `ann` that ran out a second ago. -/
def sampleServer : Shared :=
  { freshServer { oneColumnLoaded 5 with memcdb := some sampleImage } 60 100 with
    memdb := Function.update (fun _ => none) (ascii "ann") (some (.null 99 39)) }

/-- MySQL has the same record for everybody. -/
def sevenTables : MysqlTables := fun _ _ _ _ => some fun _ => some (ascii "7")

end Nastd.Server
