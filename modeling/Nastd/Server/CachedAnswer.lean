import Nastd.Server.Isolation

/-!
# What a fallthrough leaves in the cache

`do_get` hands the bytes of a key to `req_new`, `do_fallthrough` asks MySQL for them and
puts the answer into the memdb. `CachesReply` is what is wanted of that: only the key that
was asked for changes, a row is kept as that row, and a non-result only if MySQL said that
there is no row.

`do_fallthrough` takes the length of the key with `strlen`, so a key with a NUL in it is
looked up and kept as what stands before the NUL, and so is a column with a NUL in it.
`mysqldb_get` returns 0 for a row with too few columns and 1 for a row that it could not
fetch, so both are kept as non-results. `fallthrough_caches_iff` says exactly when none of
this harms.
-/

namespace Nastd.Server

/-- After a fallthrough for this key and this reply of MySQL. -/
structure CachesReply (key : Bytes) (reply : MysqlReply) (srv srv' : Shared) : Prop where
  others : ∀ k, k ≠ key → srv'.memdb k = srv.memdb k
  failed : reply ≠ .noRow → (∀ cols, reply ≠ .row cols) → srv'.memdb key = srv.memdb key
  noRow : reply = .noRow → srv'.memdb key = srv.memdb key ∨
    ∃ expire stamp, srv'.memdb key = some (.null expire stamp)
  incomplete : ∀ cols, reply = .row cols → cols.length < srv.cdb.dbFieldcount →
    srv'.memdb key = srv.memdb key
  /-- The row is kept as it came, so it has no NULL in it. -/
  full : ∀ cols, reply = .row cols → srv.cdb.dbFieldcount ≤ cols.length →
    ∃ vals : List Bytes, cols.take srv.cdb.dbFieldcount = vals.map some ∧
      srv'.memdb key = some (.value vals srv.now)

/-- The cache has a record under this key, or the very non-result that would be added now. -/
def KeepsNonResult (srv : Shared) (key : Bytes) : Prop :=
  (∃ vals stamp, srv.memdb key = some (.value vals stamp)) ∨
    srv.memdb key = some (.null (srv.now + srv.nullCacheTimeout) srv.now)

/-- For a row of one column or more neither the key nor a column has a NUL, and no column is
NULL; a non-result goes by without harm where the cache keeps what it has under the part
of the key before the NUL. A lookup that fails does no harm if the server survives it. -/
def Unharmed (key : Bytes) (reply : MysqlReply) (srv : Shared) : Prop :=
  match reply with
  | .noHandle => True
  | .connFail aborts => aborts = false
  | .queryFail aborts => aborts = false
  | .noResult => False
  | .noRow => 0 ∉ key ∨ KeepsNonResult srv (cstr key)
  | .fetchFail => 0 ∈ key ∧ KeepsNonResult srv (cstr key)
  | .row cols =>
    if cols.length < srv.cdb.dbFieldcount then 0 ∈ key ∧ KeepsNonResult srv (cstr key)
    else 0 ∉ key ∧ 0 < srv.cdb.dbFieldcount ∧
      ∀ col ∈ cols.take srv.cdb.dbFieldcount, ∃ val : Bytes, col = some val ∧ 0 ∉ val

/-! ## The key and its copy -/

/-- With a NUL in it a key is not its C string. -/
theorem cstr_ne {key : Bytes} (h : 0 ∈ key) : cstr key ≠ key := by
  intro he
  rw [← he] at h
  exact not_mem_cstr key h

/-- `do_get` puts on the queue what it looked up. -/
theorem doGet_queued_key {sock : Nat} {reqid : UInt16} {opts : NastOptions} {key : Bytes}
    {after : Nat → Byte} {srv : Shared} {req : Request}
    (h : req ∈ (doGet sock reqid opts key after srv).1.queued) : req.req = key := by
  have hends := doGet_ends reqid sock opts key after srv
  generalize doGet sock reqid opts key after srv = r at h hends
  cases hends with
  | answered =>
    rw [sendResponse_queued] at h
    exact absurd h (by simp)
  | queued =>
    obtain rfl := List.mem_singleton.mp h
    rfl
  | queueFull => exact absurd h (by simp [sendError])

/-! ## What is added -/

section Add

variable {m : CacheMap} {nullCacheTimeout now : Int} {key : Bytes} {vals : List Bytes}

theorem CacheMap.add_absent (h : m key = none) :
    m.add nullCacheTimeout now key vals
      = Function.update m key (some (newEntry nullCacheTimeout now vals)) := by
  unfold CacheMap.add
  rw [h]

/-- An add that leaves the cache as it is. -/
theorem CacheMap.add_eq_iff :
    m.add nullCacheTimeout now key vals key = m key ↔
      (∃ v stamp, m key = some (.value v stamp)) ∨
        m key = some (newEntry nullCacheTimeout now vals) := by
  unfold CacheMap.add
  cases hm : m key with
  | none => simp
  | some e =>
    cases e with
    | value v stamp => simp [hm]
    | null expire stamp =>
      simp only [Function.update_self, Option.some.injEq, reduceCtorEq, exists_false, false_or]
      exact eq_comm

end Add

section Fallthrough

variable {key : Bytes} {reply : MysqlReply} {req : Request} {srv : Shared}

/-- A non-result for a key with a NUL harms nobody where nothing changes. -/
theorem others_iff (hcut : cstr key ≠ key) :
    (∀ k, k ≠ key →
      srv.memdb.add srv.nullCacheTimeout srv.now (cstr key) [] k = srv.memdb k) ↔
      KeepsNonResult srv (cstr key) := by
  have hentry : CacheMap.newEntry srv.nullCacheTimeout srv.now []
      = .null (srv.now + srv.nullCacheTimeout) srv.now := rfl
  unfold KeepsNonResult
  rw [← hentry, ← CacheMap.add_eq_iff]
  constructor
  · intro h
    exact h (cstr key) hcut
  · intro h k hk
    by_cases hkc : k = cstr key
    · rw [hkc, h]
    · exact CacheMap.add_other _ hkc

/-- The cache after the answer was sent. -/
theorem doFallthrough_memdb {row : Int × List Bytes} (hreq : req.req = key) (hfit : Fits row.2) :
    (fallthroughRow row req srv).2.memdb
      = if row.1 = -1 then srv.memdb
        else srv.memdb.add srv.nullCacheTimeout srv.now (cstr key) row.2 := by
  rw [fallthroughRow_srv, hreq]
  by_cases hrc : row.1 = -1
  · rw [if_pos hrc, if_neg fun h => h.1 hrc]
  · rw [if_neg hrc, if_pos ⟨hrc, hfit⟩]

/-- A fallthrough that ends, and leaves the cache like this. -/
def Leaves (reply : MysqlReply) (req : Request) (srv : Shared) (P : Shared → Prop) : Prop :=
  ∃ out srv', doFallthrough reply req srv = some (out, srv') ∧ P srv'

/-- What a lookup that returned comes to. -/
theorem leaves_iff {P : Shared → Prop} :
    Leaves reply req srv P ↔
      ∃ row, mysqldbGet srv.cdb.dbFieldcount reply = some row ∧
        P (fallthroughRow row req srv).2 := by
  unfold Leaves doFallthrough
  constructor
  · rintro ⟨out, srv', hrun, hP⟩
    obtain ⟨row, hrow, heq⟩ := Option.map_eq_some_iff.mp hrun
    exact ⟨row, hrow, by rw [heq]; exact hP⟩
  · rintro ⟨row, hrow, hP⟩
    exact ⟨_, _, by rw [hrow]; rfl, hP⟩

theorem leaves_of_row {P : Shared → Prop} {row : Int × List Bytes}
    (hrow : mysqldbGet srv.cdb.dbFieldcount reply = some row) :
    Leaves reply req srv P ↔ P (fallthroughRow row req srv).2 := by
  rw [leaves_iff]
  constructor
  · rintro ⟨row', hrow', hP⟩
    obtain rfl := Option.some.inj (hrow.symm.trans hrow')
    exact hP
  · intro hP
    exact ⟨row, hrow, hP⟩

/-- A lookup that failed changes nothing. -/
theorem leaves_failed (hfailed : mysqldbGet srv.cdb.dbFieldcount reply = some (-1, []))
    (hnone : reply ≠ .noRow) (hrow : ∀ cols, reply ≠ .row cols) :
    Leaves reply req srv (CachesReply key reply srv) := by
  have hsame : (fallthroughRow (-1, []) req srv).2.memdb = srv.memdb :=
    doFallthrough_memdb rfl (by decide)
  exact (leaves_of_row hfailed).mpr ⟨fun k _ => by rw [hsame], fun _ _ => by rw [hsame],
    fun h => absurd h hnone, fun cols h => absurd h (hrow cols), fun cols h => absurd h (hrow cols)⟩

/-- A non-result that MySQL reported. -/
theorem cachesReply_noRow {srv' : Shared} (hnone : srv.memdb key = none)
    (hadd : srv'.memdb = srv.memdb.add srv.nullCacheTimeout srv.now (cstr key) []) :
    CachesReply key .noRow srv srv' ↔ 0 ∉ key ∨ KeepsNonResult srv (cstr key) := by
  by_cases hnul : 0 ∈ key
  · have hcut := cstr_ne hnul
    constructor
    · intro h
      refine Or.inr ((others_iff hcut).mp fun k hk => ?_)
      rw [← hadd, h.others k hk]
    · rintro (h | hkeeps)
      · exact absurd hnul h
      · refine ⟨fun k hk => ?_, fun h => absurd rfl h, fun _ => Or.inl ?_,
          fun cols h => absurd h (by simp), fun cols h => absurd h (by simp)⟩
        · rw [hadd, (others_iff hcut).mpr hkeeps k hk]
        · rw [hadd, CacheMap.add_other _ hcut.symm]
  · refine ⟨fun _ => Or.inl hnul, fun _ => ?_⟩
    rw [cstr_of_not_mem hnul, CacheMap.add_absent hnone] at hadd
    refine ⟨fun k hk => ?_, fun h => absurd rfl h, fun _ => Or.inr ?_,
      fun cols h => absurd h (by simp), fun cols h => absurd h (by simp)⟩
    · rw [hadd, Function.update_of_ne hk]
    · refine ⟨srv.now + srv.nullCacheTimeout, srv.now, ?_⟩
      rw [hadd, Function.update_self]
      rfl

/-- What must leave no trace but is added as a non-result. -/
theorem cachesReply_traceless {srv' : Shared} (hnone : srv.memdb key = none)
    (hadd : srv'.memdb = srv.memdb.add srv.nullCacheTimeout srv.now (cstr key) [])
    (hreply : CachesReply key reply srv srv' ↔
      (∀ k, k ≠ key → srv'.memdb k = srv.memdb k) ∧ srv'.memdb key = srv.memdb key) :
    CachesReply key reply srv srv' ↔ 0 ∈ key ∧ KeepsNonResult srv (cstr key) := by
  rw [hreply]
  constructor
  · rintro ⟨hothers, hkey⟩
    by_cases hnul : 0 ∈ key
    · refine ⟨hnul, (others_iff (cstr_ne hnul)).mp fun k hk => ?_⟩
      rw [← hadd, hothers k hk]
    · rw [hadd, cstr_of_not_mem hnul, CacheMap.add_absent hnone, Function.update_self,
        hnone] at hkey
      exact absurd hkey (by simp)
  · rintro ⟨hnul, hkeeps⟩
    have hcut := cstr_ne hnul
    refine ⟨fun k hk => ?_, ?_⟩
    · rw [hadd, (others_iff hcut).mpr hkeeps k hk]
    · rw [hadd, CacheMap.add_other _ hcut.symm]

/-- A row that could not be fetched is one. -/
theorem cachesReply_fetchFail {srv' : Shared} :
    CachesReply key .fetchFail srv srv' ↔
      (∀ k, k ≠ key → srv'.memdb k = srv.memdb k) ∧ srv'.memdb key = srv.memdb key :=
  ⟨fun h => ⟨h.others, h.failed (by simp) (by simp)⟩, fun h => ⟨h.1, fun _ _ => h.2,
    fun hno => absurd hno (by simp), fun cols hrow => absurd hrow (by simp),
    fun cols hrow => absurd hrow (by simp)⟩⟩

/-- A row that lacks columns is another. -/
theorem cachesReply_incomplete {srv' : Shared} {cols : List (Option Bytes)}
    (hfew : cols.length < srv.cdb.dbFieldcount) :
    CachesReply key (.row cols) srv srv' ↔
      (∀ k, k ≠ key → srv'.memdb k = srv.memdb k) ∧ srv'.memdb key = srv.memdb key := by
  constructor
  · intro h
    exact ⟨h.others, h.incomplete cols rfl hfew⟩
  · rintro ⟨hothers, hkey⟩
    refine ⟨hothers, fun _ _ => hkey, fun h => absurd h (by simp), fun _ _ _ => hkey,
      fun cols' h hfull => ?_⟩
    obtain rfl := MysqlReply.row.inj h
    omega

/-- A row that has them is kept, with each value up to its first NUL. -/
theorem cachesReply_full {srv' : Shared} {cols : List (Option Bytes)} {vals : List Bytes}
    (hnone : srv.memdb key = none) (hfull : ¬ cols.length < srv.cdb.dbFieldcount)
    (hcols : cols.take srv.cdb.dbFieldcount = vals.map some)
    (hadd : srv'.memdb = srv.memdb.add srv.nullCacheTimeout srv.now (cstr key) (vals.map cstr)) :
    CachesReply key (.row cols) srv srv' ↔
      0 ∉ key ∧ 0 < srv.cdb.dbFieldcount ∧ ∀ v ∈ vals, 0 ∉ v := by
  have hlen : vals.length = srv.cdb.dbFieldcount := by
    have hlens := congrArg List.length hcols
    rw [List.length_take, List.length_map] at hlens
    omega
  constructor
  · intro h
    obtain ⟨vals', hcols', hkey⟩ := h.full cols rfl (by omega)
    have hvals : vals' = vals :=
      List.map_injective_iff.mpr (fun _ _ => Option.some.inj) (hcols'.symm.trans hcols)
    by_cases hnul : 0 ∈ key
    · rw [hadd, CacheMap.add_other _ (cstr_ne hnul).symm, hnone] at hkey
      exact absurd hkey (by simp)
    · rw [hadd, cstr_of_not_mem hnul, CacheMap.add_absent hnone, Function.update_self,
        CacheMap.newEntry] at hkey
      by_cases hnil : vals.map cstr = []
      · rw [if_pos hnil] at hkey
        exact absurd hkey (by simp)
      · rw [if_neg hnil, hvals] at hkey
        have hsame : vals.map cstr = vals := (Entry.value.inj (Option.some.inj hkey)).1
        refine ⟨hnul, ?_, fun v hv hzero => ?_⟩
        · have hpos := List.length_pos_of_ne_nil hnil
          rw [List.length_map] at hpos
          omega
        · obtain ⟨i, hi⟩ := List.mem_iff_getElem?.mp hv
          have hcut : some (cstr v) = some v := by
            rw [← hi]
            conv_rhs => rw [← hsame]
            rw [List.getElem?_map, hi]
            rfl
          exact cstr_ne hzero (Option.some.inj hcut)
  · rintro ⟨hnul, hpos, hvals⟩
    have hsame : vals.map cstr = vals := by
      conv_rhs => rw [← List.map_id vals]
      exact List.map_congr_left fun v hv => cstr_of_not_mem (hvals v hv)
    have hne : vals ≠ [] := by
      intro hnil
      rw [hnil, List.length_nil] at hlen
      omega
    rw [hsame, cstr_of_not_mem hnul, CacheMap.add_absent hnone, CacheMap.newEntry,
      if_neg hne] at hadd
    refine ⟨fun k hk => ?_, fun _ h => absurd rfl (h cols), fun h => absurd h (by simp),
      fun cols' h hfew => ?_, fun cols' h _ => ⟨vals, ?_, ?_⟩⟩
    · rw [hadd, Function.update_of_ne hk]
    · obtain rfl := MysqlReply.row.inj h
      exact absurd hfew hfull
    · obtain rfl := MysqlReply.row.inj h
      exact hcols
    · rw [hadd, Function.update_self]

/-- **When a fallthrough caches what MySQL said.** For a request that `do_get` put on the
queue, a key that is not in the cache by then and an answer that can be sent: for a row
with all columns if and only if neither key nor columns have a NUL in them or are NULL;
for a lookup that failed if the server survives it; and so on, as `Unharmed` says. -/
theorem fallthrough_caches_iff (sock : Nat) (reqid : UInt16) (opts : NastOptions) (key : Bytes)
    (after : Nat → Byte) (asked srv : Shared) (reply : MysqlReply) (req : Request)
    (hreq : req ∈ (doGet sock reqid opts key after asked).1.queued)
    (hnone : srv.memdb key = none)
    (hfit : ∀ row, mysqldbGet srv.cdb.dbFieldcount reply = some row → Fits row.2) :
    Leaves reply req srv (CachesReply key reply srv) ↔ Unharmed key reply srv := by
  have hmemdb : ∀ {row}, mysqldbGet srv.cdb.dbFieldcount reply = some row →
      (fallthroughRow row req srv).2.memdb
        = if row.1 = -1 then srv.memdb
          else srv.memdb.add srv.nullCacheTimeout srv.now (cstr key) row.2 := fun hrow =>
    doFallthrough_memdb (doGet_queued_key hreq) (hfit _ hrow)
  -- a reply that `mysqldb_get` does not return from
  have hcrash : mysqldbGet srv.cdb.dbFieldcount reply = none →
      ¬ Leaves reply req srv (CachesReply key reply srv) := by
    intro hcrash h
    obtain ⟨row, hrow, -⟩ := leaves_iff.mp h
    exact absurd (hcrash.symm.trans hrow) (by simp)
  cases reply with
  | noHandle => exact ⟨fun _ => trivial, fun _ => leaves_failed rfl (by simp) (by simp)⟩
  | connFail aborts =>
    cases aborts with
    | true => exact ⟨fun h => absurd h (hcrash rfl), fun h => absurd h (by simp [Unharmed])⟩
    | false => exact ⟨fun _ => rfl, fun _ => leaves_failed rfl (by simp) (by simp)⟩
  | queryFail aborts =>
    cases aborts with
    | true => exact ⟨fun h => absurd h (hcrash rfl), fun h => absurd h (by simp [Unharmed])⟩
    | false => exact ⟨fun _ => rfl, fun _ => leaves_failed rfl (by simp) (by simp)⟩
  | noResult => exact ⟨fun h => absurd h (hcrash rfl), fun h => absurd h (by simp [Unharmed])⟩
  | noRow =>
    have hnothing : mysqldbGet srv.cdb.dbFieldcount .noRow = some (1, []) := rfl
    rw [leaves_of_row hnothing]
    exact cachesReply_noRow hnone (hmemdb rfl)
  | fetchFail =>
    have hnothing : mysqldbGet srv.cdb.dbFieldcount .fetchFail = some (1, []) := rfl
    rw [leaves_of_row hnothing]
    exact cachesReply_traceless hnone (hmemdb rfl) cachesReply_fetchFail
  | row cols =>
    unfold Unharmed
    dsimp only
    by_cases hfew : cols.length < srv.cdb.dbFieldcount
    · have hrow : mysqldbGet srv.cdb.dbFieldcount (.row cols) = some (0, []) := if_pos hfew
      rw [if_pos hfew, leaves_of_row hrow]
      exact cachesReply_traceless hnone (hmemdb hrow) (cachesReply_incomplete hfew)
    · rw [if_neg hfew]
      by_cases hvals : ∃ vals : List Bytes, cols.take srv.cdb.dbFieldcount = vals.map some
      · obtain ⟨vals, hcols⟩ := hvals
        have hrow : mysqldbGet srv.cdb.dbFieldcount (.row cols) = some (0, vals.map cstr) :=
          (mysqldbGet_full hfew).mpr ⟨vals, hcols, rfl⟩
        rw [leaves_of_row hrow, cachesReply_full hnone hfew hcols (hmemdb hrow), hcols]
        simp
      · have hstops : mysqldbGet srv.cdb.dbFieldcount (.row cols) = none := by
          cases hget : mysqldbGet srv.cdb.dbFieldcount (.row cols) with
          | none => rfl
          | some row =>
            obtain ⟨vals, hcols, -⟩ := (mysqldbGet_full hfew).mp hget
            exact absurd ⟨vals, hcols⟩ hvals
        refine ⟨fun h => absurd h (hcrash hstops), fun h => absurd (exists_values ?_) hvals⟩
        intro col hcol
        obtain ⟨val, hval, -⟩ := h.2.2 col hcol
        exact ⟨val, hval⟩

end Fallthrough

/-- A row for a key without a NUL. -/
theorem fallthrough_caches_iff_row :
    Leaves (.row [some (ascii "7")]) (reqNew 3 9 (ascii "ann"))
      (freshServer (oneColumnLoaded 5) 60 100)
      (CachesReply (ascii "ann") (.row [some (ascii "7")])
        (freshServer (oneColumnLoaded 5) 60 100)) := by
  refine (fallthrough_caches_iff 3 9 { defaultOpts with alwaysFallthrough := true } (ascii "ann")
    (fun _ => 0) (freshServer (oneColumnLoaded 5) 60 100) _ _ _ ?_ rfl ?_).mpr ?_
  · exact List.mem_singleton.mpr rfl
  · intro row hrow
    obtain rfl := Option.some.inj hrow
    decide
  · refine ⟨by decide, by decide, fun col hcol => ?_⟩
    obtain rfl := List.mem_singleton.mp hcol
    exact ⟨ascii "7", rfl, by decide⟩

/-- A row with one column too few is kept as a non-result. -/
theorem incomplete_row_cached :
    ¬ ∀ (sock : Nat) (reqid : UInt16) (opts : NastOptions) (key : Bytes) (after : Nat → Byte)
      (asked srv : Shared) (reply : MysqlReply) (req : Request),
      req ∈ (doGet sock reqid opts key after asked).1.queued → srv.memdb key = none →
      (∀ row, mysqldbGet srv.cdb.dbFieldcount reply = some row → Fits row.2) →
      Leaves reply req srv (CachesReply key reply srv) := by
  intro h
  obtain ⟨out, srv', hrun, hcaches⟩ := h 3 9 { defaultOpts with alwaysFallthrough := true }
    (ascii "ann") (fun _ => 0) (freshServer (twoColumnsLoaded 5) 60 100)
    (freshServer (twoColumnsLoaded 5) 60 100) (.row [some (ascii "7")])
    (reqNew 3 9 (ascii "ann")) (List.mem_singleton.mpr rfl) rfl (by
      intro row hrow
      obtain rfl := Option.some.inj hrow
      decide)
  have hkey := hcaches.incomplete _ rfl (by decide)
  obtain ⟨-, rfl⟩ := Prod.mk.inj (Option.some.inj hrun)
  exact absurd hkey (by decide)

end Nastd.Server
