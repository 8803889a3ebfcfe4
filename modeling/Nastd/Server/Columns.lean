import Nastd.Server.CacheThreads
import Nastd.Server.Mysqldb

/-!
# The number of columns of what is cached

A list gets its length when it is made: an update is checked against
`db_fieldcount` when it comes in, a fallthrough row is cut to `db_fieldcount` when it
is fetched. It is stored later, and served later still, and in between `cdb_new` may
load a file with other columns. The safeguard is the stamp: a record stamped before
the mtime of the loaded file is dropped by `memdb_get`.

A reload compares mtimes, though, and the layout changes when it runs. A record
stamped after the new file was written and before it was loaded passes, and so does
a list that was on its way into the cache. `KeepsColumns` asks of each reload that
it meets none of the kind whose length is not the new one; `cached_columns` shows
that this is enough, over any run of updates, fallthroughs, gets, ticks and reloads.
-/

namespace Nastd.Server

open Nastd.Lib

/-- The cache and its threads, the clock, and what fallthrough workers hold between
`mysqldb_get` and `memdb_add`: a key and the row fetched for it. -/
structure ColSys where
  cache : CacheSys
  now : Int
  row : Nat → Option (Bytes × List Bytes)

/-- One step. A thread number may stand for a connection or for a worker. -/
inductive ColAct where
  | tick (seconds : Nat)
  /-- `memdb_get`. -/
  | get (t : Nat) (key : Bytes)
  /-- The parts of `memdb_upd`, and the locked section of `memdb_add`. -/
  | updStart (t : Nat) (key : Bytes) (vals : List Bytes)
  | updFind (t : Nat)
  | updWrite (t : Nat)
  | addLocked (t : Nat)
  /-- A worker runs `mysqldb_get`. -/
  | fetch (t : Nat) (key : Bytes) (reply : MysqlReply)
  /-- The worker calls `memdb_add` with what it fetched. -/
  | addStart (t : Nat)
  /-- `cdb_new` opens this file. -/
  | reload (file : CdbFile)

/-- A step of the cache, inside the larger system. -/
def ColSys.onCache (hashkey : Bytes → Fin HASHSIZE) (nullCacheTimeout : Int) (s : ColSys)
    (act : CacheAct) : Option (CacheOut × ColSys) :=
  (cacheStep hashkey nullCacheTimeout s.cache act).map fun r => (r.1, { s with cache := r.2 })

/-- The step function. A file cannot be newer than the moment it is loaded. -/
def colStep (hashkey : Bytes → Fin HASHSIZE) (nullCacheTimeout : Int) (s : ColSys) :
    ColAct → Option (CacheOut × ColSys)
  | .tick seconds => some (.silent, { s with now := s.now + seconds })
  | .get t key => s.onCache hashkey nullCacheTimeout (.get t key s.now)
  | .updStart t key vals => s.onCache hashkey nullCacheTimeout (.updStart t key vals)
  | .updFind t => s.onCache hashkey nullCacheTimeout (.updFind t s.now)
  | .updWrite t => s.onCache hashkey nullCacheTimeout (.updWrite t s.now)
  | .addLocked t => s.onCache hashkey nullCacheTimeout (.addLocked t)
  | .fetch t key reply =>
    match mysqldbGet s.cache.dbFieldcount reply with
    | none => none
    | some r =>
      -- -1: `do_fallthrough` answers and caches nothing
      if r.1 = -1 then some (.silent, s)
      else some (.silent, { s with row := Function.update s.row t (some (key, r.2)) })
  | .addStart t =>
    match s.row t with
    | none => none
    | some (key, vals) =>
      ({ s with row := Function.update s.row t none } : ColSys).onCache hashkey nullCacheTimeout
        (.addStart t key vals s.now)
  | .reload file =>
    if file.mtime > s.now then none
    else
      match cdbLoad file with
      | .ok cdb => s.onCache hashkey nullCacheTimeout (.reload cdb.cdbMtime cdb.dbFieldcount)
      | .error .refused => some (.silent, s)
      | .error .overflow => none

/-- After start-up with a loaded CDB. -/
def colInit (cdb : Cdb) (now : Int) : ColSys :=
  ⟨cacheInit cdb.cdbMtime cdb.dbFieldcount, now, fun _ => none⟩

/-- A record of this list and stamp is either of the right length or dropped. -/
def FitsOrStale (fieldcount : Nat) (mtime : Int) (v : List Bytes) (stamp : Int) : Prop :=
  v.length = fieldcount ∨ stamp < mtime

/-- What a thread is about to store fits: a stamped entry like a record, a list that has
no stamp yet in its length. -/
def CacheThread.Fits (fieldcount : Nat) (mtime : Int) : CacheThread → Prop
  | .idle => True
  | .adding ent => ∀ k v stamp, ent = Entry.toMement k (.value v stamp) →
    FitsOrStale fieldcount mtime v stamp
  | .updFinding _ v => v.length = fieldcount
  | .updAdding ent => ∀ k v stamp, ent = Entry.toMement k (.value v stamp) →
    FitsOrStale fieldcount mtime v stamp
  | .updWriting _ v _ => v.length = fieldcount

/-- A record linked under its key. -/
def Cached (hashkey : Bytes → Fin HASHSIZE) (db : Memdb) (k : Bytes) (v : List Bytes)
    (stamp : Int) : Prop :=
  ∃ p n, memdbUpdFind hashkey k db = some (some p) ∧ db.heap.cell p = some n ∧
    n.ent = Entry.toMement k (.value v stamp)

/-- Every record, every list a thread is about to store and every fetched row fits a
CDB with this many columns and this mtime. -/
structure AllFit (hashkey : Bytes → Fin HASHSIZE) (s : ColSys) (fieldcount : Nat) (mtime : Int) :
    Prop where
  records : ∀ k v stamp, Cached hashkey s.cache.db k v stamp →
    FitsOrStale fieldcount mtime v stamp
  threads : ∀ t, (s.cache.thread t).Fits fieldcount mtime
  rows : ∀ t k v, s.row t = some (k, v) → v = [] ∨ v.length = fieldcount

/-- The condition on a step: a reload finds everything that is cached, or on its way into
the cache, with the new number of columns, save records older than the new file. -/
def KeepsColumns (hashkey : Bytes → Fin HASHSIZE) (s : ColSys) : ColAct → Prop
  | .reload file => ∀ cdb, cdbLoad file = .ok cdb →
    AllFit hashkey s cdb.dbFieldcount cdb.cdbMtime
  | _ => True

variable {hashkey : Bytes → Fin HASHSIZE} {nullCacheTimeout : Int}

/-! ## The invariant -/

/-- A record of the view is cached, and the other way round. -/
theorem Rep.cached_iff {db : Memdb} {view : Bytes → Option (Nat × Entry)}
    (hr : Rep hashkey db view) {k : Bytes} {v : List Bytes} {stamp : Int} :
    Cached hashkey db k v stamp ↔ ∃ a, view k = some (a, .value v stamp) := by
  unfold Cached
  rw [memdbUpdFind_eq hr k]
  constructor
  · intro h
    obtain ⟨p, n, hfind, hcell, hent⟩ := h
    obtain ⟨ae, hv, rfl⟩ := Option.map_eq_some_iff.mp (Option.some.inj hfind)
    obtain ⟨a, e⟩ := ae
    obtain ⟨nx, hcell'⟩ := hr.cell hv
    rw [hcell'] at hcell
    obtain rfl := Option.some.inj hcell
    have he : e.toMement k = Entry.toMement k (.value v stamp) := hent
    refine ⟨a, ?_⟩
    rw [hv]
    cases e with
    | value v' stamp' =>
      obtain ⟨-, rfl, hstamp, -⟩ := Mement.mk.inj he
      obtain rfl := Option.some.inj hstamp
      rfl
    | null expire stamp' =>
      have htype := congrArg Mement.type he
      exact absurd htype (by simp [Entry.toMement])
  · intro h
    obtain ⟨a, hv⟩ := h
    obtain ⟨nx, hcell⟩ := hr.cell hv
    exact ⟨a, _, by rw [hv]; rfl, hcell, rfl⟩

/-- The invariant: the cache is sound and everything in it and around it fits the loaded
CDB. -/
structure ColInv (hashkey : Bytes → Fin HASHSIZE) (s : ColSys) : Prop where
  cache : ∃ view, CacheInv hashkey s.cache view
  fits : AllFit hashkey s s.cache.dbFieldcount s.cache.cdbMtime

/-- What a step of the cache stores was on its way with a thread, and fitted. -/
theorem Stores.fits {s : CacheSys} {k : Bytes} {v : List Bytes} {stamp : Int} {act : CacheAct}
    (h : Stores s k v stamp act)
    (hth : ∀ t, (s.thread t).Fits s.dbFieldcount s.cdbMtime) :
    FitsOrStale s.dbFieldcount s.cdbMtime v stamp := by
  cases act with
  | addLocked t =>
    have hfit := hth t
    rcases h with h | h
    · rw [h] at hfit
      exact hfit k v stamp rfl
    · rw [h] at hfit
      exact hfit k v stamp rfl
  | updWrite t now =>
    obtain ⟨⟨p, hp⟩, -⟩ := h
    have hfit := hth t
    rw [hp] at hfit
    exact Or.inl hfit
  | _ => exact absurd h (by simp [Stores])

/-- A thread moves on, and what it now holds fits. -/
theorem fits_goto {s : CacheSys} {t : Nat} {th : CacheThread} {fieldcount : Nat} {mtime : Int}
    (h : ∀ t', (s.thread t').Fits fieldcount mtime) (hth : th.Fits fieldcount mtime) :
    ∀ t', ((s.goto t th).thread t').Fits fieldcount mtime := by
  intro t'
  show (Function.update s.thread t th t').Fits fieldcount mtime
  by_cases ht : t' = t
  · subst ht
    rw [Function.update_self]
    exact hth
  · rw [Function.update_of_ne ht]
    exact h t'

/-- An entry that `memdb_add` has just built. -/
theorem memdbAddEnt_fits {fieldcount : Nat} {mtime now : Int} {key : Bytes} {vals : List Bytes}
    (h : vals = [] ∨ vals.length = fieldcount) :
    (CacheThread.adding (memdbAddEnt nullCacheTimeout now key vals)).Fits fieldcount mtime := by
  intro k v stamp he
  have hvals : vals = v := congrArg Mement.vals he
  subst hvals
  rcases h with h | h
  · subst h
    have htype := congrArg Mement.type he
    exact absurd htype (by simp [memdbAddEnt, Entry.toMement])
  · exact Or.inl h

/-- A step of the cache other than a reload leaves the globals, and its thread holds a
list that fits. -/
theorem move_fits {s s' : CacheSys} {act : CacheAct} {o : CacheOut}
    (hmove : CacheMove hashkey nullCacheTimeout s act o s')
    (h : ∀ t, (s.thread t).Fits s.dbFieldcount s.cdbMtime) (hreload : ∀ m f, act ≠ .reload m f)
    (hadd : ∀ t key vals now, act = .addStart t key vals now →
      vals = [] ∨ vals.length = s.dbFieldcount) :
    s'.dbFieldcount = s.dbFieldcount ∧ s'.cdbMtime = s.cdbMtime ∧
      ∀ t, (s'.thread t).Fits s.dbFieldcount s.cdbMtime := by
  cases hmove with
  | get hth hrun => exact ⟨rfl, rfl, h⟩
  | addStart hth => exact ⟨rfl, rfl, fits_goto h (memdbAddEnt_fits (hadd _ _ _ _ rfl))⟩
  | addLocked hth hrun => exact ⟨rfl, rfl, fits_goto h trivial⟩
  | updAddLocked hth hrun => exact ⟨rfl, rfl, fits_goto h trivial⟩
  | updRefused hth hlen => exact ⟨rfl, rfl, h⟩
  | updStart hth hlen => exact ⟨rfl, rfl, fits_goto h hlen⟩
  | @updMissing t key vals now hth hfind =>
    have hfit := h t
    rw [hth] at hfit
    exact ⟨rfl, rfl, fits_goto h (memdbAddEnt_fits (Or.inr hfit))⟩
  | @updFound t key vals now p hth hfind =>
    have hfit := h t
    rw [hth] at hfit
    exact ⟨rfl, rfl, fits_goto h hfit⟩
  | updWrite hth => exact ⟨rfl, rfl, fits_goto h trivial⟩
  | reload hfc => exact absurd rfl (hreload _ _)

/-- A step of the cache that is neither a reload nor the start of an unfitting add keeps
the invariant. -/
theorem onCache_inv {s s' : ColSys} {act : CacheAct} {o : CacheOut}
    (h : ColInv hashkey s) (hreload : ∀ m f, act ≠ .reload m f)
    (hadd : ∀ t key vals now, act = .addStart t key vals now →
      vals = [] ∨ vals.length = s.cache.dbFieldcount)
    (hstep : s.onCache hashkey nullCacheTimeout act = some (o, s')) : ColInv hashkey s' := by
  obtain ⟨⟨view, hinv⟩, hfits⟩ := h
  obtain ⟨r, hr, heq⟩ := Option.map_eq_some_iff.mp hstep
  obtain ⟨rfl, rfl⟩ := Prod.mk.inj heq
  obtain ⟨o, cache⟩ := r
  obtain ⟨view', hinv', hold, -⟩ := cacheStep_inv hinv hr
  obtain ⟨hfc, hmtime, hthreads⟩ := move_fits (cacheStep_move hr) hfits.threads hreload hadd
  refine ⟨⟨view', hinv'⟩, ?_⟩
  show AllFit hashkey _ cache.dbFieldcount cache.cdbMtime
  rw [hfc, hmtime]
  refine ⟨fun k v stamp hc => ?_, hthreads, hfits.rows⟩
  obtain ⟨a, ha⟩ := hinv'.rep.cached_iff.mp hc
  rcases hold k a v stamp ha with ha | hst
  · exact hfits.records k v stamp (hinv.rep.cached_iff.mpr ⟨a, ha⟩)
  · exact hst.fits hfits.threads

/-- A row that `mysqldb_get` returns has `db_fieldcount` values, or none. -/
theorem mysqldbGet_length {dbFieldcount : Nat} {reply : MysqlReply} {row : Int × List Bytes}
    (h : mysqldbGet dbFieldcount reply = some row) : row.2 = [] ∨ row.2.length = dbFieldcount := by
  rcases mysqldbGet_cases h with hempty | ⟨cols, rfl, hfull⟩
  · exact Or.inl hempty
  · obtain ⟨vals, hcols, rfl⟩ := (mysqldbGet_full hfull).mp h
    have hlens := congrArg List.length hcols
    rw [List.length_take, List.length_map] at hlens
    rw [List.length_map]
    exact Or.inr (by omega)

/-- Rows put down or taken away. -/
theorem AllFit.rows_update {s : ColSys} {fieldcount : Nat} {mtime : Int} {t : Nat}
    {r : Option (Bytes × List Bytes)} (h : AllFit hashkey s fieldcount mtime)
    (hr : ∀ k v, r = some (k, v) → v = [] ∨ v.length = fieldcount) :
    AllFit hashkey { s with row := Function.update s.row t r } fieldcount mtime := by
  refine ⟨h.records, h.threads, fun t' k v hrow => ?_⟩
  have hrow' : Function.update s.row t r t' = some (k, v) := hrow
  by_cases ht : t' = t
  · rw [ht, Function.update_self] at hrow'
    exact hr k v hrow'
  · rw [Function.update_of_ne ht] at hrow'
    exact h.rows t' k v hrow'

/-- Every step that meets the condition keeps the invariant. -/
theorem colStep_inv {s s' : ColSys} {act : ColAct} {o : CacheOut} (h : ColInv hashkey s)
    (hg : KeepsColumns hashkey s act)
    (hstep : colStep hashkey nullCacheTimeout s act = some (o, s')) : ColInv hashkey s' := by
  cases act with
  | tick seconds =>
    simp only [colStep] at hstep
    obtain ⟨-, rfl⟩ := Prod.mk.inj (Option.some.inj hstep)
    exact ⟨h.cache, h.fits.records, h.fits.threads, h.fits.rows⟩
  | get t key => exact onCache_inv h (by simp) (by simp) hstep
  | updStart t key vals => exact onCache_inv h (by simp) (by simp) hstep
  | updFind t => exact onCache_inv h (by simp) (by simp) hstep
  | updWrite t => exact onCache_inv h (by simp) (by simp) hstep
  | addLocked t => exact onCache_inv h (by simp) (by simp) hstep
  | fetch t key reply =>
    simp only [colStep] at hstep
    split at hstep
    · exact absurd hstep (by simp)
    · next r hr =>
      split at hstep
      · obtain ⟨-, rfl⟩ := Prod.mk.inj (Option.some.inj hstep)
        exact h
      · obtain ⟨-, rfl⟩ := Prod.mk.inj (Option.some.inj hstep)
        refine ⟨h.cache, h.fits.rows_update fun k v hkv => ?_⟩
        obtain ⟨-, rfl⟩ := Prod.mk.inj (Option.some.inj hkv)
        exact mysqldbGet_length hr
  | addStart t =>
    simp only [colStep] at hstep
    cases hrow : s.row t with
    | none => rw [hrow] at hstep; exact absurd hstep (by simp)
    | some kv =>
      rw [hrow] at hstep
      have hfit := h.fits.rows t kv.1 kv.2 hrow
      -- the row leaves the worker's hands before `memdb_add` prepares its entry
      refine onCache_inv (s := { s with row := Function.update s.row t none })
        ⟨h.cache, h.fits.rows_update (by simp)⟩ (by simp) ?_ hstep
      intro t' key vals now heq
      obtain ⟨-, -, rfl, -⟩ := CacheAct.addStart.inj heq
      exact hfit
  | reload file =>
    simp only [colStep] at hstep
    split at hstep
    · exact absurd hstep (by simp)
    · cases hload : cdbLoad file with
      | error e =>
        rw [hload] at hstep
        cases e with
        | refused =>
          obtain ⟨-, rfl⟩ := Prod.mk.inj (Option.some.inj hstep)
          exact h
        | overflow => exact absurd hstep (by simp)
      | ok cdb =>
        rw [hload] at hstep
        -- the condition speaks of the columns and mtime of the CDB that was loaded
        have hfit := hg cdb hload
        obtain ⟨⟨view, hinv⟩, -⟩ := h
        obtain ⟨r, hr, heq⟩ := Option.map_eq_some_iff.mp hstep
        obtain ⟨rfl, rfl⟩ := Prod.mk.inj heq
        obtain ⟨o, cache⟩ := r
        cases cacheStep_move hr with
        | reload hfc =>
          exact ⟨⟨view, hinv.rep, hfc, hinv.threads⟩, hfit.records, hfit.threads, hfit.rows⟩

/-- A file with as many columns that is no older does no harm. -/
theorem keepsColumns_same {s : ColSys} {file : CdbFile} {cdb : Cdb} (h : ColInv hashkey s)
    (hload : cdbLoad file = .ok cdb) (hcount : cdb.dbFieldcount = s.cache.dbFieldcount)
    (hmtime : s.cache.cdbMtime ≤ cdb.cdbMtime) : KeepsColumns hashkey s (.reload file) := by
  intro cdb' hload'
  obtain rfl := Except.ok.inj (hload.symm.trans hload')
  have holder : ∀ {v stamp}, FitsOrStale s.cache.dbFieldcount s.cache.cdbMtime v stamp →
      FitsOrStale cdb.dbFieldcount cdb.cdbMtime v stamp := by
    rintro v stamp (hlen | hstale)
    · exact Or.inl (hlen.trans hcount.symm)
    · exact Or.inr (Int.lt_of_lt_of_le hstale hmtime)
  refine ⟨fun k v stamp hc => holder (h.fits.records k v stamp hc), fun t => ?_, ?_⟩
  · have hfit := h.fits.threads t
    generalize s.cache.thread t = th at hfit
    cases th with
    | idle => trivial
    | adding ent => exact fun k v stamp he => holder (hfit k v stamp he)
    | updFinding key v => exact Eq.trans hfit hcount.symm
    | updAdding ent => exact fun k v stamp he => holder (hfit k v stamp he)
    | updWriting key v p => exact Eq.trans hfit hcount.symm
  · rw [hcount]
    exact h.fits.rows

/-- What `memdb_get` serves in a state. -/
def ServesCurrent (hashkey : Bytes → Fin HASHSIZE) (s : ColSys) : Prop :=
  ∀ key vals db', memdbGet hashkey s.now s.cache.cdbMtime key [] s.cache.db = some (0, vals, db') →
    vals = [] ∨ vals.length = s.cache.dbFieldcount

/-- A sound cache serves what fits. -/
theorem ColInv.serves {s : ColSys} (h : ColInv hashkey s) : ServesCurrent hashkey s := by
  intro key vals db' hget
  obtain ⟨⟨view, hinv⟩, hfits⟩ := h
  cases hv : view key with
  | none =>
    rw [memdbGet_absent hinv.rep hv] at hget
    exact absurd hget (by simp)
  | some ae =>
    obtain ⟨a, e⟩ := ae
    cases hg : e.gone s.now s.cache.cdbMtime with
    | true =>
      obtain ⟨_, hrun, -⟩ := memdbGet_gone hinv.rep hv hg []
      rw [hrun] at hget
      exact absurd hget (by simp)
    | false =>
      rw [memdbGet_live hinv.rep hv hg []] at hget
      have hvals : e.vals = vals := congrArg (fun r => r.2.1) (Option.some.inj hget)
      subst hvals
      cases e with
      | null expire stamp => exact Or.inl rfl
      | value v stamp =>
        have hcached := hinv.rep.cached_iff.mpr ⟨a, hv⟩
        rcases hfits.records key v stamp hcached with hlen | hstale
        · exact Or.inr hlen
        · have hlive : ¬ s.cache.cdbMtime > stamp := by simpa [Entry.gone] using hg
          omega

/-- Nothing is cached at the start. -/
theorem colInit_inv {file : CdbFile} {cdb : Cdb} (hload : cdbLoad file = .ok cdb) (now : Int) :
    ColInv hashkey (colInit cdb now) := by
  refine ⟨⟨fun _ => none, memdbNew_rep, (cdbLoad_ok hload).1.columns, fun _ => trivial⟩,
    fun k v stamp hc => ?_, fun _ => trivial, fun t k v hrow => absurd hrow (by simp [colInit])⟩
  obtain ⟨a, ha⟩ := memdbNew_rep.cached_iff.mp hc
  exact absurd ha (by simp)

/-- **Cached records have the current number of columns**, in every state of every run
whose reloads find nothing of another length that they would not outdate. -/
theorem cached_columns (hashkey : Bytes → Fin HASHSIZE) (nullCacheTimeout : Int)
    (file : CdbFile) (cdb : Cdb) (now : Int) (acts : List ColAct) (os : List CacheOut)
    (s : ColSys) (hload : cdbLoad file = .ok cdb)
    (hrun : runs (colStep hashkey nullCacheTimeout) (colInit cdb now) acts = some (os, s))
    (hkeeps : Guarded (colStep hashkey nullCacheTimeout) (KeepsColumns hashkey) (colInit cdb now)
      acts) : ServesCurrent hashkey s := by
  have hinv : ColInv hashkey s :=
    runs_invariant (fun s act o s' hI hg hstep => colStep_inv hI hg hstep) (colInit_inv hload now)
      hkeeps hrun
  exact hinv.serves

/-- A record is cached when a newer file with the same columns is loaded, and served after. -/
theorem cached_columns_reload :
    ∃ s, runs (colStep (fun _ => 0) 60) (colInit (twoColumnsLoaded 5) 10)
        [.updStart 0 [1] [[7], [8]], .updFind 0, .addLocked 0, .reload ⟨twoColumns, 8⟩, .get 0 [1]]
      = some ([.silent, .silent, .updated [1] [[7], [8]] 0 10, .silent,
          .got [1] 0 [[7], [8]]], s) ∧
      ServesCurrent (fun _ => 0) s := by
  have hload : cdbLoad ⟨twoColumns, 8⟩ = .ok (twoColumnsLoaded 8) := cdbLoad_twoColumns 8
  have hinit := @colInit_inv (fun _ => 0) ⟨twoColumns, 5⟩ _ (cdbLoad_twoColumns 5) 10
  have hrun : ∃ s, runs (colStep (fun _ => 0) 60) (colInit (twoColumnsLoaded 5) 10)
        [.updStart 0 [1] [[7], [8]], .updFind 0, .addLocked 0, .reload ⟨twoColumns, 8⟩, .get 0 [1]]
      = some ([.silent, .silent, .updated [1] [[7], [8]] 0 10, .silent,
          .got [1] 0 [[7], [8]]], s) := by
    simp only [runs, colStep, hload]
    exact ⟨_, rfl⟩
  obtain ⟨s, hs⟩ := hrun
  refine ⟨s, hs, cached_columns (fun _ => 0) 60 ⟨twoColumns, 5⟩ (twoColumnsLoaded 5) 10 _ _ s
    (cdbLoad_twoColumns 5) hs ⟨trivial, fun o₁ s₁ h₁ => ⟨trivial, fun o₂ s₂ h₂ => ⟨trivial,
      fun o₃ s₃ h₃ => ⟨?_, fun _ _ _ => ⟨trivial, fun _ _ _ => trivial⟩⟩⟩⟩⟩⟩
  -- the record is there by now
  have hinv₁ : ColInv (fun _ => 0) s₁ :=
    colStep_inv hinit (show KeepsColumns _ _ (.updStart 0 [1] [[7], [8]]) from trivial) h₁
  have hinv₂ : ColInv (fun _ => 0) s₂ :=
    colStep_inv hinv₁ (show KeepsColumns _ _ (.updFind 0) from trivial) h₂
  have hinv₃ : ColInv (fun _ => 0) s₃ :=
    colStep_inv hinv₂ (show KeepsColumns _ _ (.addLocked 0) from trivial) h₃
  obtain ⟨-, rfl⟩ := Prod.mk.inj (Option.some.inj h₁)
  obtain ⟨-, rfl⟩ := Prod.mk.inj (Option.some.inj h₂)
  obtain ⟨-, rfl⟩ := Prod.mk.inj (Option.some.inj h₃)
  exact keepsColumns_same hinv₃ hload rfl (by decide)

/-- The file was written at 8 and is loaded at 20; an update of 10 is served with the
old two columns. -/
theorem cached_columns_stale :
    ¬ ∀ (file : CdbFile) (cdb : Cdb) (now : Int) (acts : List ColAct) (os : List CacheOut)
      (s : ColSys), cdbLoad file = .ok cdb →
      runs (colStep (fun _ => 0) 60) (colInit cdb now) acts = some (os, s) →
      ServesCurrent (fun _ => 0) s := by
  intro h
  have hload : cdbLoad ⟨oneColumn, 8⟩ = .ok (oneColumnLoaded 8) := cdbLoad_oneColumn 8
  have hserves := h ⟨twoColumns, 5⟩ (twoColumnsLoaded 5) 10
    [.updStart 0 [1] [[7], [8]], .updFind 0, .addLocked 0, .tick 10, .reload ⟨oneColumn, 8⟩]
    _ _ (cdbLoad_twoColumns 5)
    (by
      simp only [runs, colStep, hload]
      rfl)
  have hbad : [[7], [8]] = ([] : List Bytes) ∨ 2 = 1 := hserves [1] [[7], [8]] _ rfl
  exact absurd hbad (by decide)

end Nastd.Server
