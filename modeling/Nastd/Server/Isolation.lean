import Nastd.Server.Io

/-!
# Options of one client, answers of another

Options belong to a connection, but the cache belongs to all. A client that turns the
CDB off gets its answers from MySQL, and `do_fallthrough` puts each of them into the
cache ("the memdb doesn't have this key"), where every client finds it in front of the
CDB. So the options of one client show in the answers of another as soon as MySQL has
something else than the CDB.

`nonInterfering_iff` says precisely when they do not: under every key of the CDB, MySQL
fails, or its row does not fit, or it has no row and non-results are not kept, or the
response is the same. A lookup that stops the server leaves nobody to compare: such runs
are none.
-/

namespace Nastd.Server

open Nastd.Lib

/-- One GET, with the memory behind its key. -/
structure Ask where
  reqid : UInt16
  key : Bytes
  after : Nat → Byte
  /-- The clock at the lookups. -/
  now : Int
  /-- The clock when a worker is done, if it comes to that. -/
  done : Int

section Serve

variable (mysql : Bytes → MysqlReply) (cols : Bytes)

/-- What `mysqldb_get` finds under a key. -/
def mysqlRow (cdb : Cdb) (key : Bytes) : Option (Int × List Bytes) :=
  mysqldbGet cdb.dbFieldcount (mysql (Backend.select ⟨cdb, cols⟩ key).text)

/-- A GET until it is answered: `do_get`, and the worker if it was queued. -/
def serveGet (opts : NastOptions) (sock : Nat) (srv : Shared) (ask : Ask) :
    Option (List Bytes × Shared) :=
  let g := doGet sock ask.reqid opts ask.key ask.after { srv with now := ask.now }
  match fqmPop g.2.fqm with
  | none => some (g.1.sent, { g.2 with now := ask.done })
  | some (req, fqm) =>
    (doFallthrough (mysql (Backend.select ⟨srv.cdb, cols⟩ (cstr req.req)).text) req
      { g.2 with fqm := fqm, now := ask.done }).map fun f => (g.1.sent ++ f.1.sent, f.2)

/-- The same on a clock that does not go back. -/
def getStep (opts : NastOptions) (sock : Nat) (srv : Shared) (ask : Ask) :
    Option (List Bytes × Shared) :=
  if srv.now ≤ ask.now ∧ ask.now ≤ ask.done then serveGet mysql cols opts sock srv ask
  else none

end Serve

/-- The server after start-up, with an empty memdb. -/
def freshServer (cdb : Cdb) (nullCacheTimeout now : Int) : Shared where
  memdb := fun _ => none
  cdb := cdb
  fqm := fqmNew 10
  now := now
  nullCacheTimeout := nullCacheTimeout
  startTime := now
  statLines := []

section Claims

variable (mysql : Bytes → MysqlReply) (cols : Bytes) (cdb : Cdb) (nullCacheTimeout : Int)

/-- Whatever a first client asks, under these or those options, a second client with
default options gets the same answers. -/
def NonInterfering : Prop :=
  ∀ (start : Int) (sockA sockB : Nat) (opts₁ opts₂ : NastOptions) (as bs : List Ask)
    (osA₁ osA₂ osB₁ osB₂ : List (List Bytes)) (srv₁ srv₂ srv₁' srv₂' : Shared),
    runs (getStep mysql cols opts₁ sockA) (freshServer cdb nullCacheTimeout start) as
      = some (osA₁, srv₁) →
    runs (getStep mysql cols opts₂ sockA) (freshServer cdb nullCacheTimeout start) as
      = some (osA₂, srv₂) →
    runs (getStep mysql cols defaultOpts sockB) srv₁ bs = some (osB₁, srv₁') →
    runs (getStep mysql cols defaultOpts sockB) srv₂ bs = some (osB₂, srv₂') →
    osB₁ = osB₂

/-- Under every key of the CDB MySQL has nothing that stays in the cache, or what comes
to the same response. -/
def Agrees : Prop :=
  ∀ (key : Bytes) (after : Nat → Byte) (reqid : UInt16) (row : Int × List Bytes), 0 ∉ key →
    (cdbGet cdb key after).1 ≠ -1 → mysqlRow mysql cols cdb key = some row → row.1 ≠ -1 →
    Fits row.2 → (row.2 = [] → 0 < nullCacheTimeout) →
    arrSendResponse reqid NASTOK row.2
      = arrSendResponse reqid NASTOK (cdbGet cdb key after).2

/-- What a default client gets from an empty cache; nothing if it stops the server. -/
def plainAnswer (ask : Ask) : List Bytes :=
  let found := cdbGet cdb ask.key ask.after
  if found.1 ≠ -1 then (sendResponse ask.reqid NASTOK found.2).sent
  else
    match mysqlRow mysql cols cdb (cstr ask.key) with
    | none => []
    | some row => (sendResponse ask.reqid NASTOK (if row.1 = -1 then [] else row.2)).sent

/-- Everything in the cache came from MySQL. -/
structure FromMysql (srv : Shared) : Prop where
  loaded : srv.cdb = cdb
  /-- Every request was served before the next came. -/
  fqm : srv.fqm = fqmNew 10
  nullCache : srv.nullCacheTimeout = nullCacheTimeout
  entries : ∀ k e, srv.memdb k = some e →
    0 ∉ k ∧ ∃ row, mysqlRow mysql cols cdb k = some row ∧ row.1 ≠ -1 ∧ Fits row.2 ∧
      ∃ stamp, stamp ≤ srv.now ∧ e = CacheMap.newEntry nullCacheTimeout stamp row.2

end Claims

/-! ## One request -/

section Steps

variable {mysql : Bytes → MysqlReply} {cols : Bytes} {cdb : Cdb} {nullCacheTimeout : Int}

/-- The worker's half: the row is sent, and kept if it could be. -/
def serveRow (row : Int × List Bytes) (srv : Shared) (ask : Ask) : List Bytes × Shared :=
  let srv' := { srv with now := ask.done }
  ((sendResponse ask.reqid NASTOK (if row.1 = -1 then [] else row.2)).sent,
    if row.1 ≠ -1 ∧ Fits row.2 then
      { srv' with memdb := srv.memdb.add srv.nullCacheTimeout ask.done (cstr ask.key) row.2 }
    else srv')

/-- A GET on an empty queue: answered at once, or by the worker. -/
theorem serveGet_eq {srv : Shared} (hfqm : srv.fqm = fqmNew 10) (opts : NastOptions) (sock : Nat)
    (ask : Ask) :
    serveGet mysql cols opts sock srv ask
      = (let srv' := { srv with
            now := ask.now
            memdb := getMemdb opts ask.key { srv with now := ask.now } }
        match getItems opts ask.key ask.after { srv with now := ask.now } with
        | some aa => some ((sendResponse ask.reqid NASTOK aa).sent, { srv' with now := ask.done })
        | none => (mysqlRow mysql cols srv.cdb (cstr ask.key)).map fun row =>
            serveRow row srv' ask) := by
  obtain ⟨memdb, cdb, fqm, now, nullCacheTimeout, startTime, statLines⟩ := srv
  obtain rfl : fqm = fqmNew 10 := hfqm
  unfold serveGet
  rw [doGet_eq]
  dsimp only
  cases getItems opts ask.key ask.after
      ⟨memdb, cdb, fqmNew 10, ask.now, nullCacheTimeout, startTime, statLines⟩ with
  | some aa => rfl
  | none =>
    -- the queue was empty: the push succeeds, and the worker pops this request
    show Option.map _ (Option.map _ (mysqldbGet cdb.dbFieldcount _)) = Option.map _ _
    rw [Option.map_map]
    refine congrArg (Option.map · _) (funext fun row => ?_)
    show ([] ++ (fallthroughRow row _ _).1.sent, (fallthroughRow row _ _).2) = _
    rw [List.nil_append, fallthroughRow_sent, fallthroughRow_srv]
    rfl

/-- The ways a GET on an empty queue ends, if it does. -/
theorem serveGet_cases {srv : Shared} (hfqm : srv.fqm = fqmNew 10) {opts : NastOptions}
    {sock : Nat} {ask : Ask} {r : List Bytes × Shared}
    (h : serveGet mysql cols opts sock srv ask = some r) :
    let srv' : Shared := { srv with
      now := ask.now
      memdb := getMemdb opts ask.key { srv with now := ask.now } }
    (∃ aa, getItems opts ask.key ask.after { srv with now := ask.now } = some aa ∧
        r = ((sendResponse ask.reqid NASTOK aa).sent, { srv' with now := ask.done })) ∨
      getItems opts ask.key ask.after { srv with now := ask.now } = none ∧
        ∃ row, mysqlRow mysql cols srv.cdb (cstr ask.key) = some row ∧
          r = serveRow row srv' ask := by
  intro srv'
  rw [serveGet_eq hfqm] at h
  dsimp only at h
  cases hitems : getItems opts ask.key ask.after { srv with now := ask.now } with
  | some aa =>
    rw [hitems] at h
    exact Or.inl ⟨aa, rfl, (Option.some.inj h).symm⟩
  | none =>
    rw [hitems] at h
    obtain ⟨row, hrow, hr⟩ := Option.map_eq_some_iff.mp h
    exact Or.inr ⟨rfl, row, hrow, hr.symm⟩

/-- One that the cache or the CDB answers does end. -/
theorem serveGet_answered {srv : Shared} (hfqm : srv.fqm = fqmNew 10) {opts : NastOptions}
    {ask : Ask} {aa : List Bytes}
    (hitems : getItems opts ask.key ask.after { srv with now := ask.now } = some aa) (sock : Nat) :
    ∃ srv', serveGet mysql cols opts sock srv ask
      = some ((sendResponse ask.reqid NASTOK aa).sent, srv') := by
  rw [serveGet_eq hfqm]
  dsimp only
  rw [hitems]
  exact ⟨_, rfl⟩

theorem getMemdb_some {opts : NastOptions} {key k : Bytes} {srv : Shared} {e : Entry}
    (h : getMemdb opts key srv k = some e) : srv.memdb k = some e := by
  unfold getMemdb at h
  split at h
  · exact CacheMap.get_some h
  · exact h

theorem fromMysql_fresh (start : Int) :
    FromMysql mysql cols cdb nullCacheTimeout (freshServer cdb nullCacheTimeout start) :=
  ⟨rfl, rfl, rfl, fun _ _ h => absurd h (by simp [freshServer])⟩

/-- A GET brings nothing into the cache but a row of MySQL, whatever the options. -/
theorem fromMysql_serveGet {srv : Shared} (h : FromMysql mysql cols cdb nullCacheTimeout srv)
    {ask : Ask} (hnow : srv.now ≤ ask.now) (hdone : ask.now ≤ ask.done) {opts : NastOptions}
    {sock : Nat} {r : List Bytes × Shared}
    (hserve : serveGet mysql cols opts sock srv ask = some r) :
    FromMysql mysql cols cdb nullCacheTimeout r.2 := by
  have hentries : ∀ k e, getMemdb opts ask.key { srv with now := ask.now } k = some e →
      0 ∉ k ∧ ∃ row, mysqlRow mysql cols cdb k = some row ∧ row.1 ≠ -1 ∧ Fits row.2 ∧
        ∃ stamp, stamp ≤ ask.done ∧ e = CacheMap.newEntry nullCacheTimeout stamp row.2 := by
    intro k e hk
    have hold : ({ srv with now := ask.now } : Shared).memdb k = some e := getMemdb_some hk
    obtain ⟨hnul, row, hrow, hrc, hfit, stamp, hstamp, he⟩ := h.entries k e hold
    exact ⟨hnul, row, hrow, hrc, hfit, stamp, by omega, he⟩
  rcases serveGet_cases h.fqm hserve with ⟨aa, -, rfl⟩ | ⟨-, row, hrow, rfl⟩
  · exact ⟨h.loaded, h.fqm, h.nullCache, hentries⟩
  · unfold serveRow
    dsimp only
    split
    · next hkept =>
      refine ⟨h.loaded, h.fqm, h.nullCache, fun k e hk => ?_⟩
      rcases CacheMap.add_some hk with hold | ⟨rfl, he⟩
      · exact hentries k e hold
      · rw [h.loaded] at hrow
        refine ⟨not_mem_cstr _, row, hrow, hkept.1, hkept.2, ask.done, Int.le_refl _, ?_⟩
        rw [he, h.nullCache]
    · exact ⟨h.loaded, h.fqm, h.nullCache, hentries⟩

theorem getItems_default (key : Bytes) (after : Nat → Byte) (srv : Shared) :
    getItems defaultOpts key after srv
      = if (srv.memdb.get srv.now srv.cdb.cdbMtime key).1 = 0
        then some (srv.memdb.get srv.now srv.cdb.cdbMtime key).2.1
        else if (cdbGet srv.cdb key after).1 = -1 then none
        else some (cdbGet srv.cdb key after).2 := by
  simp [getItems, getFound, defaultOpts]

/-- A default client that misses the cache gets the plain answer. -/
theorem serveGet_miss {srv : Shared} (hfqm : srv.fqm = fqmNew 10) {ask : Ask}
    (hmiss : (srv.memdb.get ask.now srv.cdb.cdbMtime ask.key).1 ≠ 0) {sock : Nat}
    {r : List Bytes × Shared} (hserve : serveGet mysql cols defaultOpts sock srv ask = some r) :
    r.1 = plainAnswer mysql cols srv.cdb ask := by
  have hitems : getItems defaultOpts ask.key ask.after { srv with now := ask.now }
      = if (cdbGet srv.cdb ask.key ask.after).1 = -1 then none
        else some (cdbGet srv.cdb ask.key ask.after).2 := by
    rw [getItems_default]
    exact if_neg hmiss
  unfold plainAnswer
  dsimp only
  by_cases hfound : (cdbGet srv.cdb ask.key ask.after).1 = -1
  · rw [if_pos hfound] at hitems
    rw [if_neg (not_not.mpr hfound)]
    rcases serveGet_cases hfqm hserve with ⟨aa, haa, -⟩ | ⟨-, row, hrow, rfl⟩
    · exact absurd (haa.symm.trans hitems) (by simp)
    · rw [hrow]
      rfl
  · rw [if_neg hfound] at hitems
    rw [if_pos hfound]
    rcases serveGet_cases hfqm hserve with ⟨aa, haa, rfl⟩ | ⟨hnone, -⟩
    · obtain rfl := Option.some.inj (haa.symm.trans hitems)
      rfl
    · exact absurd (hnone.symm.trans hitems) (by simp)

/-- One that hits it gets what is cached. -/
theorem serveGet_hit {srv : Shared} (hfqm : srv.fqm = fqmNew 10) {ask : Ask} {e : Entry}
    (he : srv.memdb ask.key = some e) (hgone : e.gone ask.now srv.cdb.cdbMtime = false)
    {sock : Nat} {r : List Bytes × Shared}
    (hserve : serveGet mysql cols defaultOpts sock srv ask = some r) :
    r.1 = (arrSendResponse ask.reqid NASTOK e.vals).toList := by
  have hget : srv.memdb.get ask.now srv.cdb.cdbMtime ask.key = (0, e.vals, srv.memdb) := by
    unfold CacheMap.get
    simp only [he, hgone]
    rfl
  have hitems : getItems defaultOpts ask.key ask.after { srv with now := ask.now }
      = some e.vals := by
    rw [getItems_default]
    dsimp only
    rw [hget, if_pos rfl]
  rcases serveGet_cases hfqm hserve with ⟨aa, haa, rfl⟩ | ⟨hnone, -⟩
  · obtain rfl := Option.some.inj (haa.symm.trans hitems)
    exact sendResponse_sent ..
  · exact absurd (hnone.symm.trans hitems) (by simp)

/-- Where MySQL agrees with the CDB, the cache does not show. -/
theorem serveGet_default (hag : Agrees mysql cols cdb nullCacheTimeout) {srv : Shared}
    (h : FromMysql mysql cols cdb nullCacheTimeout srv) {ask : Ask} (hnow : srv.now ≤ ask.now)
    {sock : Nat} {r : List Bytes × Shared}
    (hserve : serveGet mysql cols defaultOpts sock srv ask = some r) :
    r.1 = plainAnswer mysql cols cdb ask := by
  by_cases hhit : (srv.memdb.get ask.now srv.cdb.cdbMtime ask.key).1 = 0
  · obtain ⟨e, he, hgone, -⟩ := CacheMap.get_hit hhit
    obtain ⟨hnul, row, hrow, hrc, hfit, stamp, hstamp, rfl⟩ := h.entries ask.key e he
    rw [serveGet_hit h.fqm he hgone hserve, CacheMap.newEntry_vals]
    unfold plainAnswer
    dsimp only
    rw [cstr_of_not_mem hnul, hrow]
    by_cases hfound : (cdbGet cdb ask.key ask.after).1 = -1
    · rw [if_neg (not_not.mpr hfound)]
      dsimp only
      rw [if_neg hrc, sendResponse_sent]
    · rw [if_pos hfound, sendResponse_sent,
        hag ask.key ask.after ask.reqid row hnul hfound hrow hrc hfit
          fun hnil => CacheMap.newEntry_null hgone hnil (by omega)]
  · rw [serveGet_miss h.fqm hhit hserve, h.loaded]

/-! ## Whole runs -/

/-- A step is a GET on a clock that moves on. -/
theorem getStep_some {opts : NastOptions} {sock : Nat} {srv : Shared} {ask : Ask}
    {r : List Bytes × Shared} (h : getStep mysql cols opts sock srv ask = some r) :
    srv.now ≤ ask.now ∧ ask.now ≤ ask.done ∧ serveGet mysql cols opts sock srv ask = some r := by
  unfold getStep at h
  split at h
  · next htime => exact ⟨htime.1, htime.2, h⟩
  · exact absurd h (by simp)

theorem fromMysql_runs {opts : NastOptions} {sock : Nat} {srv srv' : Shared} {as : List Ask}
    {os : List (List Bytes)} (h : FromMysql mysql cols cdb nullCacheTimeout srv)
    (hrun : runs (getStep mysql cols opts sock) srv as = some (os, srv')) :
    FromMysql mysql cols cdb nullCacheTimeout srv' := by
  refine runs_invariant (g := fun _ _ => True) ?_ h guarded_true hrun
  intro s ask o s' hI _ hstep
  obtain ⟨hnow, hdone, hserve⟩ := getStep_some hstep
  exact fromMysql_serveGet hI hnow hdone hserve

/-- What a default client is answered, request by request. -/
theorem answers_default (hag : Agrees mysql cols cdb nullCacheTimeout) {sock : Nat}
    {srv srv' : Shared} {bs : List Ask} {os : List (List Bytes)}
    (h : FromMysql mysql cols cdb nullCacheTimeout srv)
    (hrun : runs (getStep mysql cols defaultOpts sock) srv bs = some (os, srv')) :
    os = bs.map (plainAnswer mysql cols cdb) := by
  refine runs_outputs (I := FromMysql mysql cols cdb nullCacheTimeout) ?_ h hrun
  intro s ask o s' hI hstep
  obtain ⟨hnow, hdone, hserve⟩ := getStep_some hstep
  exact ⟨serveGet_default hag hI hnow hserve, fromMysql_serveGet hI hnow hdone hserve⟩

/-- A single request. -/
theorem runs_ask {srv : Shared} {ask : Ask} {opts : NastOptions} {sock : Nat}
    {r : List Bytes × Shared} (hnow : srv.now ≤ ask.now) (hdone : ask.now ≤ ask.done)
    (hserve : serveGet mysql cols opts sock srv ask = some r) :
    runs (getStep mysql cols opts sock) srv [ask] = some ([r.1], r.2) := by
  have hstep : getStep mysql cols opts sock srv ask = some (r.1, r.2) := by
    unfold getStep
    rw [if_pos (And.intro hnow hdone), hserve]
  exact runs_cons.mpr ⟨_, _, [], hstep, rfl, rfl⟩

/-- A default client that finds its key in the CDB is answered, and leaves nothing in an empty
cache. -/
theorem serveGet_found {start : Int} {ask : Ask} (hfound : (cdbGet cdb ask.key ask.after).1 ≠ -1)
    (sock : Nat) :
    ∃ r,
      serveGet mysql cols defaultOpts sock (freshServer cdb nullCacheTimeout start) ask = some r ∧
      r.2.now = ask.done ∧ ∀ k, r.2.memdb k = none := by
  have hitems : getItems defaultOpts ask.key ask.after
      { freshServer cdb nullCacheTimeout start with now := ask.now }
        = some (cdbGet cdb ask.key ask.after).2 := by
    rw [getItems_default]
    exact if_neg hfound
  rw [serveGet_eq rfl]
  dsimp only
  rw [hitems]
  exact ⟨_, rfl, rfl, fun k => rfl⟩

/-- One that goes past the CDB leaves MySQL's row there. -/
theorem serveGet_always {start : Int} {ask : Ask} {row : Int × List Bytes} (hnul : 0 ∉ ask.key)
    (hrow : mysqlRow mysql cols cdb ask.key = some row) (hrc : row.1 ≠ -1) (hfit : Fits row.2)
    (sock : Nat) :
    ∃ r, serveGet mysql cols { defaultOpts with alwaysFallthrough := true } sock
        (freshServer cdb nullCacheTimeout start) ask = some r ∧ r.2.now = ask.done ∧
      r.2.memdb ask.key = some (CacheMap.newEntry nullCacheTimeout ask.done row.2) := by
  rw [serveGet_eq rfl]
  show ∃ r, Option.map _ (mysqlRow mysql cols cdb (cstr ask.key)) = some r ∧ _
  rw [cstr_of_not_mem hnul, hrow]
  refine ⟨_, rfl, ?_⟩
  unfold serveRow
  dsimp only
  rw [cstr_of_not_mem hnul, if_pos (And.intro hrc hfit)]
  exact ⟨rfl, Function.update_self ..⟩

/-- The answer to the second of two default clients. -/
theorem answer_after_found {ask : Ask} (hnow : ask.now = ask.done)
    (hfound : (cdbGet cdb ask.key ask.after).1 ≠ -1) (sock : Nat) :
    ∃ r r', serveGet mysql cols defaultOpts sock (freshServer cdb nullCacheTimeout ask.now) ask
        = some r ∧ r.2.now = ask.done ∧
      serveGet mysql cols defaultOpts sock r.2 ask = some r' ∧
      r'.1 = (arrSendResponse ask.reqid NASTOK (cdbGet cdb ask.key ask.after).2).toList := by
  obtain ⟨r, hr, hclock, hleft⟩ := @serveGet_found mysql cols cdb nullCacheTimeout ask.now ask
    hfound sock
  have hsrv : FromMysql mysql cols cdb nullCacheTimeout r.2 :=
    fromMysql_serveGet (fromMysql_fresh ask.now) (Int.le_refl _) (Int.le_of_eq hnow) hr
  have hmiss : (r.2.memdb.get ask.now r.2.cdb.cdbMtime ask.key).1 ≠ 0 := by
    intro hhit
    obtain ⟨e, he, -⟩ := CacheMap.get_hit hhit
    exact absurd ((hleft ask.key).symm.trans he) (by simp)
  have hitems : getItems defaultOpts ask.key ask.after { r.2 with now := ask.now }
      = some (cdbGet cdb ask.key ask.after).2 := by
    rw [getItems_default]
    dsimp only
    rw [if_neg hmiss, hsrv.loaded]
    exact if_neg hfound
  obtain ⟨srv', hserve⟩ := @serveGet_answered mysql cols r.2 hsrv.fqm defaultOpts ask _ hitems sock
  exact ⟨r, _, hr, hclock, hserve, sendResponse_sent ..⟩

/-- And of one behind a client that went past the CDB. -/
theorem answer_after_always {ask : Ask} {row : Int × List Bytes} (hnow : ask.now = cdb.cdbMtime)
    (hdone : ask.done = cdb.cdbMtime) (hnul : 0 ∉ ask.key)
    (hrow : mysqlRow mysql cols cdb ask.key = some row) (hrc : row.1 ≠ -1) (hfit : Fits row.2)
    (hnull : row.2 = [] → 0 < nullCacheTimeout) (sock : Nat) :
    ∃ r r', serveGet mysql cols { defaultOpts with alwaysFallthrough := true } sock
        (freshServer cdb nullCacheTimeout ask.now) ask = some r ∧ r.2.now = ask.done ∧
      serveGet mysql cols defaultOpts sock r.2 ask = some r' ∧
      r'.1 = (arrSendResponse ask.reqid NASTOK row.2).toList := by
  obtain ⟨r, hr, hclock, hleft⟩ := @serveGet_always mysql cols cdb nullCacheTimeout ask.now ask
    row hnul hrow hrc hfit sock
  have hsrv : FromMysql mysql cols cdb nullCacheTimeout r.2 :=
    fromMysql_serveGet (fromMysql_fresh ask.now) (Int.le_refl _)
      (Int.le_of_eq (hnow.trans hdone.symm)) hr
  have hgone : (CacheMap.newEntry nullCacheTimeout ask.done row.2).gone ask.now r.2.cdb.cdbMtime
      = false := by
    rw [hsrv.loaded, hnow, hdone]
    exact CacheMap.newEntry_fresh hnull
  have hhit : (r.2.memdb.get ask.now r.2.cdb.cdbMtime ask.key).1 = 0 := by
    unfold CacheMap.get
    simp only [hleft, hgone]
    rfl
  have hitems : getItems defaultOpts ask.key ask.after { r.2 with now := ask.now }
      = some (r.2.memdb.get ask.now r.2.cdb.cdbMtime ask.key).2.1 := by
    rw [getItems_default]
    exact if_pos hhit
  obtain ⟨srv', hserve⟩ := @serveGet_answered mysql cols r.2 hsrv.fqm defaultOpts ask _ hitems sock
  refine ⟨r, _, hr, hclock, hserve, ?_⟩
  rw [serveGet_hit hsrv.fqm hleft hgone hserve, CacheMap.newEntry_vals]

/-- If MySQL does not agree somewhere, one GET behind another tells. -/
theorem agrees_of_nonInterfering (h : NonInterfering mysql cols cdb nullCacheTimeout) :
    Agrees mysql cols cdb nullCacheTimeout := by
  intro key after reqid row hnul hfound hrow hrc hfit hnull
  -- both clients ask at the CDB's mtime, so that a record just stored is not outdated
  obtain ⟨ask, hask⟩ : ∃ ask : Ask, ask = ⟨reqid, key, after, cdb.cdbMtime, cdb.cdbMtime⟩ :=
    ⟨_, rfl⟩
  have hnow : ask.now = cdb.cdbMtime := by rw [hask]
  have hdone : ask.done = cdb.cdbMtime := by rw [hask]
  obtain ⟨rfl, rfl, rfl⟩ : reqid = ask.reqid ∧ key = ask.key ∧ after = ask.after := by
    rw [hask]
    exact ⟨rfl, rfl, rfl⟩
  have htime : ask.now ≤ ask.done := Int.le_of_eq (hnow.trans hdone.symm)
  obtain ⟨r₁, r₁', hA₁, hclock₁, hB₁, hanswer₁⟩ := @answer_after_found mysql cols cdb
    nullCacheTimeout ask (hnow.trans hdone.symm) hfound 0
  obtain ⟨r₂, r₂', hA₂, hclock₂, hB₂, hanswer₂⟩ := @answer_after_always mysql cols cdb
    nullCacheTimeout ask row hnow hdone hnul hrow hrc hfit hnull 0
  have hstart : (freshServer cdb nullCacheTimeout ask.now).now ≤ ask.now := Int.le_refl _
  have hlater₁ : r₁.2.now ≤ ask.now := by rw [hclock₁]; exact Int.le_of_eq (hdone.trans hnow.symm)
  have hlater₂ : r₂.2.now ≤ ask.now := by rw [hclock₂]; exact Int.le_of_eq (hdone.trans hnow.symm)
  have hsame := h ask.now 0 0 defaultOpts { defaultOpts with alwaysFallthrough := true }
    [ask] [ask] _ _ _ _ _ _ _ _ (runs_ask hstart htime hA₁) (runs_ask hstart htime hA₂)
    (runs_ask hlater₁ htime hB₁) (runs_ask hlater₂ htime hB₂)
  have hanswers := List.head_eq_of_cons_eq hsame
  rw [hanswer₁, hanswer₂] at hanswers
  cases hrow' : arrSendResponse ask.reqid NASTOK row.2 with
  | none =>
    rw [hrow'] at hanswers
    exact (Option.toList_eq_nil_iff.mp hanswers).symm
  | some frame =>
    rw [hrow'] at hanswers
    exact (Option.toList_eq_singleton_iff.mp hanswers).symm

end Steps

/-- **When options stay private**: exactly if under every key MySQL agrees with the CDB,
or has nothing that stays in the cache. -/
theorem nonInterfering_iff (mysql : Bytes → MysqlReply) (cols : Bytes) (cdb : Cdb)
    (nullCacheTimeout : Int) :
    NonInterfering mysql cols cdb nullCacheTimeout ↔ Agrees mysql cols cdb nullCacheTimeout := by
  constructor
  · exact agrees_of_nonInterfering
  · intro hag start sockA sockB opts₁ opts₂ as bs osA₁ osA₂ osB₁ osB₂ srv₁ srv₂ srv₁' srv₂'
      hA₁ hA₂ hB₁ hB₂
    have h₁ := fromMysql_runs (fromMysql_fresh start) hA₁
    have h₂ := fromMysql_runs (fromMysql_fresh start) hA₂
    rw [answers_default hag h₁ hB₁, answers_default hag h₂ hB₂]

/-- MySQL lost `bob`, whom the CDB still has. A client that asks for him past the CDB
hides him from everybody for a minute. -/
theorem options_leak :
    ¬ ∀ (mysql : Bytes → MysqlReply) (cols : Bytes) (cdb : Cdb) (nullCacheTimeout : Int),
      NonInterfering mysql cols cdb nullCacheTimeout := by
  intro h
  have hagrees := agrees_of_nonInterfering
    (h (fun _ => .noRow) (ascii "login,uid") (twoColumnsLoaded 5) 60)
  have hsame := hagrees (ascii "bob") (fun _ => 0) 1 (1, []) (by decide) (by decide +kernel) rfl
    (by decide) (by decide) fun _ => by decide
  revert hsame
  decide +kernel

end Nastd.Server
