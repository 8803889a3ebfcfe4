import Nastd.Lib.Run
import Nastd.Server.CacheMap

/-!
# The cache after a CDB reload

`cdb_periodic` does not empty the cache when it loads a new CDB: entries are time
stamped, and `memdb_get` is to drop those that are older than the file. The system here
is the cache, `cdb_mtime` and the clock, under calls of `memdb_add`, `memdb_upd` and
`memdb_get` one at a time and reloads that set `cdb_mtime` to a larger value, in any order.

`memdb_get` compares the stamp of a record with `cdb_mtime`, and of a non-result only the
time it expires.

* `KeepsFresh`: the steps that leave no non-result behind that is older than `cdb_mtime`
  and has not expired.
* `cache_fresh_iff`: after such steps nothing stale is served, and after the first other
  one the right question is answered with a stale entry.
-/

namespace Nastd.Server

open Nastd.Lib

/-- The cache, `cdb_mtime`, and the last reading of the clock. -/
structure CacheClock where
  db : Memdb
  cdbMtime : Int
  clock : Int

inductive ClockAct where
  | add (key : Bytes) (vals : List Bytes) (now : Int)
  | upd (key : Bytes) (vals : List Bytes) (dbFieldcount : Nat) (now : Int)
  | get (key : Bytes) (now : Int)
  /-- `cdb_periodic` has loaded a CDB of this age. -/
  | reload (cdbMtime : Int)

/-- What `memdb_get` returned, the `upd_time` of the entry it found, and `cdb_mtime`. -/
structure Served where
  rc : Int
  updTime : Option Int
  cdbMtime : Int

/-- Nothing older than the CDB was served. -/
def Served.Fresh (r : Served) : Prop :=
  r.rc = 0 → ∀ stamp, r.updTime = some stamp → ¬ stamp < r.cdbMtime

section Steps

variable (hashkey : Bytes → Fin HASHSIZE) (nullCacheTimeout : Int)

/-- The entry the walk for `key` ends at. -/
def entAt (key : Bytes) (db : Memdb) : Option Mement :=
  match memdbUpdFind hashkey key db with
  | some (some p) => (db.heap.cell p).map Node.ent
  | _ => none

/-- One call or reload, and what a `memdb_get` returned. The clock does not go back. -/
def clockStep (s : CacheClock) : ClockAct → Option (Option Served × CacheClock)
  | .add key vals now =>
    if s.clock ≤ now then
      (memdbAdd hashkey nullCacheTimeout now key vals s.db).map fun r =>
        (none, { s with db := r.2, clock := now })
    else none
  | .upd key vals dbFieldcount now =>
    if s.clock ≤ now then
      (memdbUpd hashkey dbFieldcount nullCacheTimeout now key vals s.db).map fun r =>
        (none, { s with db := r.2, clock := now })
    else none
  | .get key now =>
    if s.clock ≤ now then
      (memdbGet hashkey now s.cdbMtime key [] s.db).map fun r =>
        (some ⟨r.1, (entAt hashkey key s.db).bind Mement.updTime, s.cdbMtime⟩,
          { s with db := r.2.2, clock := now })
    else none
  | .reload cdbMtime =>
    if s.cdbMtime < cdbMtime then some (none, { s with cdbMtime := cdbMtime }) else none

/-- The condition on a step. A reload finds every cached non-result that is older than the
new CDB expired. A non-result that is stored (by `memdb_upd` only where records have no
columns) is not older than the CDB already, or is not kept. -/
def KeepsFresh (s : CacheClock) : ClockAct → Prop
  | .add key vals now => vals = [] →
    (∀ ent, entAt hashkey key s.db = some ent → ent.type = .expire) →
    s.cdbMtime ≤ now ∨ nullCacheTimeout ≤ 0
  | .upd key vals dbFieldcount now => vals = [] → dbFieldcount = 0 →
    entAt hashkey key s.db = none → s.cdbMtime ≤ now ∨ nullCacheTimeout ≤ 0
  | .get _ _ => True
  | .reload cdbMtime => ∀ key ent, entAt hashkey key s.db = some ent → ent.type = .expire →
    ∀ stamp expire, ent.updTime = some stamp → ent.typeval = some expire →
      stamp < cdbMtime → expire ≤ s.clock

end Steps

variable {hashkey : Bytes → Fin HASHSIZE} {nullCacheTimeout : Int}

/-! ## The calls on the map -/

theorem Refines.entAt {db : Memdb} {m : CacheMap} (h : Refines hashkey db m) (key : Bytes) :
    entAt hashkey key db = (m key).map (Entry.toMement key) := by
  obtain ⟨view, hr, hm⟩ := h
  unfold Server.entAt
  rw [memdbUpdFind_eq hr, ← hm key]
  cases hv : view key with
  | none => rfl
  | some ae =>
    obtain ⟨nx, hcell⟩ := hr.cell hv
    simp only [Option.map_some, hcell]

namespace CacheMap

/-- `memdb_upd` without the assumption that records have a column: an empty record for a
new key becomes a non-result. -/
def updOrAdd (m : CacheMap) (nullCacheTimeout : Int) (dbFieldcount : Nat) (now : Int)
    (key : Bytes) (vals : List Bytes) : CacheMap :=
  if vals.length ≠ dbFieldcount then m
  else
    match m key with
    | none => m.add nullCacheTimeout now key vals
    | some _ => Function.update m key (some (.value vals now))

/-- The non-results that are stamped before `cdbMtime` have expired at `clock`. -/
def OldNullsExpired (m : CacheMap) (cdbMtime clock : Int) : Prop :=
  ∀ key expire stamp, m key = some (.null expire stamp) → stamp < cdbMtime → expire ≤ clock

end CacheMap

theorem memdbUpd_refines_any {db : Memdb} {m : CacheMap} (h : Refines hashkey db m)
    (nullCacheTimeout : Int) (dbFieldcount : Nat) (now : Int) (key : Bytes) (vals : List Bytes) :
    ∃ rc db', memdbUpd hashkey dbFieldcount nullCacheTimeout now key vals db = some (rc, db') ∧
      Refines hashkey db' (m.updOrAdd nullCacheTimeout dbFieldcount now key vals) := by
  unfold memdbUpd CacheMap.updOrAdd
  by_cases hlen : vals.length ≠ dbFieldcount
  · rw [if_pos hlen, if_pos hlen]
    exact ⟨-1, db, rfl, h⟩
  · rw [if_neg hlen, if_neg hlen]
    obtain ⟨view, hr, hm⟩ := h
    have hkey := hm key
    rw [memdbUpdFind_eq hr]
    cases hv : view key with
    | none =>
      rw [hv] at hkey
      rw [← hkey]
      obtain ⟨db', hrun, hr'⟩ := memdbAdd_refines ⟨view, hr, hm⟩ nullCacheTimeout now key vals
      exact ⟨0, db', hrun, hr'⟩
    | some ae =>
      obtain ⟨a, e⟩ := ae
      rw [hv] at hkey
      rw [← hkey]
      exact ⟨0, _, rfl, _, memdbUpdWrite_rep hr hv now vals, fun k => map_update hm k⟩

/-! ## One step -/

/-- What the system looks like after steps that keep it fresh. -/
structure FreshInv (hashkey : Bytes → Fin HASHSIZE) (s : CacheClock) (m : CacheMap) : Prop where
  map : Refines hashkey s.db m
  fresh : m.OldNullsExpired s.cdbMtime s.clock

/-- A new entry that may be stored. -/
theorem oldNullsExpired_add {m : CacheMap} {cdbMtime clock now : Int} {key : Bytes}
    {vals : List Bytes} (h : m.OldNullsExpired cdbMtime clock) (hle : clock ≤ now)
    (hnew : vals = [] → (∀ v stamp, m key ≠ some (.value v stamp)) →
      cdbMtime ≤ now ∨ nullCacheTimeout ≤ 0) :
    (m.add nullCacheTimeout now key vals).OldNullsExpired cdbMtime now := by
  intro k expire stamp hk hlt
  rcases CacheMap.add_some hk with hold | ⟨rfl, hentry⟩
  · exact Int.le_trans (h k expire stamp hold hlt) hle
  · unfold CacheMap.newEntry at hentry
    split at hentry
    next hnil =>
      obtain ⟨rfl, rfl⟩ := Entry.null.inj hentry
      have hfree : ∀ v stamp, m k ≠ some (.value v stamp) := by
        intro v stamp hv
        unfold CacheMap.add at hk
        rw [hv] at hk
        exact absurd (hv.symm.trans hk) (by simp)
      rcases hnew hnil hfree with hm | hn
      · omega
      · omega
    next => exact absurd hentry (by simp)

theorem oldNullsExpired_upd {m : CacheMap} {cdbMtime clock now : Int} {key : Bytes}
    {vals : List Bytes} {dbFieldcount : Nat} (h : m.OldNullsExpired cdbMtime clock)
    (hle : clock ≤ now)
    (hnew : vals = [] → dbFieldcount = 0 → m key = none →
      cdbMtime ≤ now ∨ nullCacheTimeout ≤ 0) :
    (m.updOrAdd nullCacheTimeout dbFieldcount now key vals).OldNullsExpired cdbMtime now := by
  have hlater : m.OldNullsExpired cdbMtime now :=
    fun k expire stamp hk hlt => Int.le_trans (h k expire stamp hk hlt) hle
  unfold CacheMap.updOrAdd
  split
  · exact hlater
  next hlen =>
    split
    next hnone =>
      refine oldNullsExpired_add h hle fun hnil _ => hnew hnil ?_ hnone
      rw [hnil] at hlen
      exact (not_not.mp hlen).symm
    next e hsome =>
      intro k expire stamp hk hlt
      by_cases hkey : k = key
      · subst hkey
        rw [Function.update_self] at hk
        exact absurd hk (by simp)
      · rw [Function.update_of_ne hkey] at hk
        exact hlater k expire stamp hk hlt

/-- What is served from a fresh cache is fresh. -/
theorem get_fresh {s : CacheClock} {m : CacheMap} {key : Bytes} {now : Int}
    (h : FreshInv hashkey s m) (hle : s.clock ≤ now) :
    Served.Fresh ⟨(m.get now s.cdbMtime key).1,
      (entAt hashkey key s.db).bind Mement.updTime, s.cdbMtime⟩ := by
  intro hrc stamp hstamp hlt
  obtain ⟨e, he, hlive, -⟩ := CacheMap.get_hit hrc
  have hent : entAt hashkey key s.db = some (e.toMement key) := by
    rw [h.map.entAt, he]
    rfl
  change (entAt hashkey key s.db).bind Mement.updTime = some stamp at hstamp
  change stamp < s.cdbMtime at hlt
  rw [hent] at hstamp
  cases e with
  | value v u =>
    obtain rfl : u = stamp := Option.some.inj hstamp
    have hkept : ¬ s.cdbMtime > u := by simpa [Entry.gone] using hlive
    exact hkept hlt
  | null expire u =>
    obtain rfl : u = stamp := Option.some.inj hstamp
    have hkept : ¬ now ≥ expire := by simpa [Entry.gone] using hlive
    exact hkept (Int.le_trans (h.fresh key expire u he hlt) hle)

/-- What one step that keeps the cache fresh leaves behind, and what it serves. -/
theorem clockStep_fresh {s s' : CacheClock} {m : CacheMap} {act : ClockAct} {o : Option Served}
    (h : FreshInv hashkey s m) (hkeep : KeepsFresh hashkey nullCacheTimeout s act)
    (hstep : clockStep hashkey nullCacheTimeout s act = some (o, s')) :
    (∀ r, o = some r → r.Fresh) ∧ ∃ m', FreshInv hashkey s' m' := by
  cases act with
  | add key vals now =>
    rw [clockStep] at hstep
    split at hstep
    next hle =>
      obtain ⟨db', hrun, hmap⟩ := memdbAdd_refines h.map nullCacheTimeout now key vals
      rw [hrun] at hstep
      obtain ⟨rfl, rfl⟩ := Prod.mk.inj (Option.some.inj hstep)
      refine ⟨fun r hr => absurd hr (by simp), _, hmap, oldNullsExpired_add h.fresh hle ?_⟩
      intro hnil hfree
      refine hkeep hnil fun ent hent => ?_
      rw [h.map.entAt] at hent
      obtain ⟨e, he, rfl⟩ := Option.map_eq_some_iff.mp hent
      cases e with
      | value v stamp => exact absurd he (hfree v stamp)
      | null expire stamp => rfl
    next => exact absurd hstep (by simp)
  | upd key vals dbFieldcount now =>
    rw [clockStep] at hstep
    split at hstep
    next hle =>
      obtain ⟨rc, db', hrun, hmap⟩ :=
        memdbUpd_refines_any h.map nullCacheTimeout dbFieldcount now key vals
      rw [hrun] at hstep
      obtain ⟨rfl, rfl⟩ := Prod.mk.inj (Option.some.inj hstep)
      refine ⟨fun r hr => absurd hr (by simp), _, hmap, oldNullsExpired_upd h.fresh hle ?_⟩
      intro hnil hzero hnone
      refine hkeep hnil hzero ?_
      rw [h.map.entAt, hnone]
      rfl
    next => exact absurd hstep (by simp)
  | get key now =>
    rw [clockStep] at hstep
    split at hstep
    next hle =>
      obtain ⟨db', hrun, hmap⟩ := memdbGet_refines h.map now s.cdbMtime key
      rw [hrun] at hstep
      obtain ⟨rfl, rfl⟩ := Prod.mk.inj (Option.some.inj hstep)
      refine ⟨fun r hr => ?_, _, hmap, fun k expire stamp hk hlt => ?_⟩
      · obtain rfl := Option.some.inj hr
        exact get_fresh h hle
      · exact Int.le_trans (h.fresh k expire stamp (CacheMap.get_some hk) hlt) hle
    next => exact absurd hstep (by simp)
  | reload cdbMtime =>
    rw [clockStep] at hstep
    split at hstep
    next hlt =>
      obtain ⟨rfl, rfl⟩ := Prod.mk.inj (Option.some.inj hstep)
      refine ⟨fun r hr => absurd hr (by simp), m, h.map, fun k expire stamp hk hold => ?_⟩
      refine hkeep k (Entry.toMement k (.null expire stamp)) ?_ rfl stamp expire rfl rfl hold
      rw [h.map.entAt, hk]
      rfl
    next => exact absurd hstep (by simp)

/-- The clock does not go back, and a reload is of a newer CDB. -/
def ClockAct.InTime (s : CacheClock) : ClockAct → Prop
  | .add _ _ now => s.clock ≤ now
  | .upd _ _ _ now => s.clock ≤ now
  | .get _ now => s.clock ≤ now
  | .reload cdbMtime => s.cdbMtime < cdbMtime

/-- Every call in time returns. -/
theorem clockStep_some {s : CacheClock} {m : CacheMap} {act : ClockAct}
    (h : Refines hashkey s.db m) (htime : act.InTime s) :
    ∃ r, clockStep hashkey nullCacheTimeout s act = some r := by
  cases act with
  | add key vals now =>
    have hle : s.clock ≤ now := htime
    obtain ⟨db', hrun, -⟩ := memdbAdd_refines h nullCacheTimeout now key vals
    exact ⟨(none, { s with db := db', clock := now }), by rw [clockStep, if_pos hle, hrun]; rfl⟩
  | upd key vals dbFieldcount now =>
    have hle : s.clock ≤ now := htime
    obtain ⟨rc, db', hrun, -⟩ := memdbUpd_refines_any h nullCacheTimeout dbFieldcount now key vals
    exact ⟨(none, { s with db := db', clock := now }), by rw [clockStep, if_pos hle, hrun]; rfl⟩
  | get key now =>
    have hle : s.clock ≤ now := htime
    obtain ⟨db', hrun, -⟩ := memdbGet_refines h now s.cdbMtime key
    refine ⟨(some ⟨(m.get now s.cdbMtime key).1, (entAt hashkey key s.db).bind Mement.updTime,
      s.cdbMtime⟩, { s with db := db', clock := now }), ?_⟩
    rw [clockStep, if_pos hle, hrun]
    rfl
  | reload cdbMtime =>
    have hlt : s.cdbMtime < cdbMtime := htime
    exact ⟨(none, { s with cdbMtime := cdbMtime }), by rw [clockStep, if_pos hlt]⟩

/-- A non-result that is older than the CDB and has not expired is served. -/
theorem get_stale {s : CacheClock} {m : CacheMap} {key : Bytes} (expire stamp : Int)
    (hmap : Refines hashkey s.db m) (hk : m key = some (.null expire stamp))
    (hold : stamp < s.cdbMtime) (hlive : s.clock < expire) :
    ∃ r s', clockStep hashkey nullCacheTimeout s (.get key s.clock) = some (some r, s') ∧
      ¬ r.Fresh := by
  obtain ⟨db', hrun, -⟩ := memdbGet_refines hmap s.clock s.cdbMtime key
  refine ⟨⟨(m.get s.clock s.cdbMtime key).1,
    (entAt hashkey key s.db).bind Mement.updTime, s.cdbMtime⟩, { s with db := db' }, ?_, ?_⟩
  · rw [clockStep, if_pos (Int.le_refl _), hrun]
    rfl
  · have hgone : (Entry.null expire stamp).gone s.clock s.cdbMtime = false := by
      have hnot : ¬ s.clock ≥ expire := by omega
      simpa [Entry.gone] using hnot
    have hrc : (m.get s.clock s.cdbMtime key).1 = 0 := by
      unfold CacheMap.get
      simp only [hk, hgone, Bool.false_eq_true, if_false]
    have hent : (entAt hashkey key s.db).bind Mement.updTime = some stamp := by
      rw [hmap.entAt, hk]
      rfl
    exact fun hfresh => hfresh hrc stamp hent hold

/-- A step that does not keep the cache fresh leaves a key that is answered wrongly. -/
theorem clockStep_stale {s s' : CacheClock} {m : CacheMap} {act : ClockAct} {o : Option Served}
    (h : FreshInv hashkey s m) (hbreak : ¬ KeepsFresh hashkey nullCacheTimeout s act)
    (hstep : clockStep hashkey nullCacheTimeout s act = some (o, s')) :
    ∃ key r s'', clockStep hashkey nullCacheTimeout s' (.get key s'.clock) = some (some r, s'') ∧
      ¬ r.Fresh := by
  cases act with
  | add key vals now =>
    rw [clockStep] at hstep
    split at hstep
    next hle =>
      obtain ⟨db', hrun, hmap⟩ := memdbAdd_refines h.map nullCacheTimeout now key vals
      rw [hrun] at hstep
      obtain ⟨rfl, rfl⟩ := Prod.mk.inj (Option.some.inj hstep)
      simp only [KeepsFresh, Classical.not_imp, not_or, Int.not_le] at hbreak
      obtain ⟨hnil, hfree, hold, hpos⟩ := hbreak
      refine ⟨key, get_stale (now + nullCacheTimeout) now hmap ?_ hold ?_⟩
      · unfold CacheMap.add CacheMap.newEntry
        rw [if_pos hnil]
        cases hv : m key with
        | none => exact Function.update_self ..
        | some e =>
          cases e with
          | null expire stamp => exact Function.update_self ..
          | value v stamp =>
            have hent : entAt hashkey key s.db = some (Entry.toMement key (.value v stamp)) := by
              rw [h.map.entAt, hv]
              rfl
            exact absurd (hfree _ hent) (by simp [Entry.toMement])
      · show now < now + nullCacheTimeout
        omega
    next => exact absurd hstep (by simp)
  | upd key vals dbFieldcount now =>
    rw [clockStep] at hstep
    split at hstep
    next hle =>
      obtain ⟨rc, db', hrun, hmap⟩ :=
        memdbUpd_refines_any h.map nullCacheTimeout dbFieldcount now key vals
      rw [hrun] at hstep
      obtain ⟨rfl, rfl⟩ := Prod.mk.inj (Option.some.inj hstep)
      simp only [KeepsFresh, Classical.not_imp, not_or, Int.not_le] at hbreak
      obtain ⟨hnil, hzero, hnone, hold, hpos⟩ := hbreak
      refine ⟨key, get_stale (now + nullCacheTimeout) now hmap ?_ hold ?_⟩
      · have hkey : m key = none := by
          rw [h.map.entAt] at hnone
          exact Option.map_eq_none_iff.mp hnone
        subst hnil hzero
        unfold CacheMap.updOrAdd CacheMap.add CacheMap.newEntry
        simp only [hkey, List.length_nil, ne_eq, not_true_eq_false, if_false, if_true]
        exact Function.update_self ..
      · show now < now + nullCacheTimeout
        omega
    next => exact absurd hstep (by simp)
  | get key now => exact absurd trivial hbreak
  | reload cdbMtime =>
    rw [clockStep] at hstep
    split at hstep
    next hlt =>
      obtain ⟨rfl, rfl⟩ := Prod.mk.inj (Option.some.inj hstep)
      simp only [KeepsFresh, not_forall, Int.not_le] at hbreak
      obtain ⟨key, ent, hent, htype, stamp, expire, hstamp, hexpire, hold, hlive⟩ := hbreak
      rw [h.map.entAt] at hent
      obtain ⟨e, he, rfl⟩ := Option.map_eq_some_iff.mp hent
      cases e with
      | value v u => exact absurd htype (by simp [Entry.toMement])
      | null expire' u =>
        obtain rfl : u = stamp := Option.some.inj hstamp
        obtain rfl : expire' = expire := Option.some.inj hexpire
        exact ⟨key, get_stale (s := { s with cdbMtime := cdbMtime }) _ _ h.map he hold hlive⟩
    next => exact absurd hstep (by simp)

/-! ## Every run -/

/-- After `memdb_new`. -/
def clockStart (cdbMtime clock : Int) : CacheClock := ⟨memdbNew, cdbMtime, clock⟩

theorem clockStart_inv (cdbMtime clock : Int) :
    FreshInv hashkey (clockStart cdbMtime clock) fun _ => none :=
  ⟨⟨_, memdbNew_rep, fun _ => rfl⟩, fun _ _ _ hk => absurd hk (by simp)⟩

/-- In every run whose steps meet the condition nothing older than the CDB is served. And the
condition is exact: after the first step that does not meet it, a `memdb_get` serves an
entry older than the CDB. -/
theorem cache_fresh_iff (hashkey : Bytes → Fin HASHSIZE) (nullCacheTimeout cdbMtime clock : Int)
    (acts : List ClockAct) (os : List (Option Served)) (s : CacheClock)
    (hrun : runs (clockStep hashkey nullCacheTimeout) (clockStart cdbMtime clock) acts
      = some (os, s))
    (hkeep : Guarded (clockStep hashkey nullCacheTimeout) (KeepsFresh hashkey nullCacheTimeout)
      (clockStart cdbMtime clock) acts) :
    (∀ r, some r ∈ os → r.Fresh) ∧
    ∀ act o s', clockStep hashkey nullCacheTimeout s act = some (o, s') →
      ¬ KeepsFresh hashkey nullCacheTimeout s act →
      ∃ key r s'', clockStep hashkey nullCacheTimeout s' (.get key s'.clock) = some (some r, s'') ∧
        ¬ r.Fresh := by
  have hstart : ∃ m, FreshInv hashkey (clockStart cdbMtime clock) m :=
    ⟨_, clockStart_inv cdbMtime clock⟩
  constructor
  · intro r hr
    have hall := runs_forall_outputs (g := KeepsFresh hashkey nullCacheTimeout)
      (I := fun s => ∃ m, FreshInv hashkey s m) (P := fun o => ∀ r, o = some r → r.Fresh)
      (fun s act o s' hI hg hstep => by
        obtain ⟨m, hm⟩ := hI
        exact clockStep_fresh hm hg hstep) hstart hkeep hrun
    exact hall (some r) hr r rfl
  · intro act o s' hstep hbreak
    obtain ⟨m, hm⟩ : ∃ m, FreshInv hashkey s m :=
      runs_invariant (g := KeepsFresh hashkey nullCacheTimeout)
        (I := fun s => ∃ m, FreshInv hashkey s m) (fun s act o s' hI hg hstep => by
          obtain ⟨m, hm⟩ := hI
          exact (clockStep_fresh hm hg hstep).2) hstart hkeep hrun
    exact clockStep_stale hm hbreak hstep

/-- A non-result of time 0 has run out when a CDB of time 10 is loaded at 20, and a record is
newer. -/
theorem cache_fresh_iff_record : ∃ os s, runs (clockStep (fun _ => 0) 5) (clockStart 0 0)
      [.add [66] [] 0, .add [65] [[66]] 20, .reload 10, .get [66] 20, .get [65] 20]
      = some (os, s) ∧
    ∀ r, some r ∈ os → r.Fresh := by
  have hsome : (runs (clockStep (fun _ => 0) 5) (clockStart 0 0)
      [.add [66] [] 0, .add [65] [[66]] 20, .reload 10, .get [66] 20, .get [65] 20]).isSome := by
    rfl
  obtain ⟨⟨os, s⟩, hrun⟩ := Option.isSome_iff_exists.mp hsome
  refine ⟨os, s, hrun, (cache_fresh_iff _ _ _ _ _ _ _ hrun ⟨fun _ _ => Or.inl (by decide),
    fun o₁ s₁ h₁ => ⟨fun hnil => absurd hnil (by simp), fun o₂ s₂ h₂ => ⟨?_,
      fun _ _ _ => ⟨trivial, fun _ _ _ => ⟨trivial, fun _ _ _ => trivial⟩⟩⟩⟩⟩).1⟩
  -- the entries at the reload are those of the two calls
  have hstart : Refines (fun _ => 0) (clockStart 0 0).db fun _ => none := (clockStart_inv 0 0).map
  obtain ⟨db₁, hadd₁, hmap₁⟩ := memdbAdd_refines hstart 5 0 [66] []
  obtain ⟨db₂, hadd₂, hmap₂⟩ := memdbAdd_refines hmap₁ 5 20 [65] [[66]]
  rw [clockStep, if_pos (by decide), hadd₁] at h₁
  obtain ⟨-, rfl⟩ := Prod.mk.inj (Option.some.inj h₁)
  have hlater : (0 : Int) ≤ 20 := by decide
  rw [clockStep, if_pos hlater, hadd₂] at h₂
  obtain ⟨-, rfl⟩ := Prod.mk.inj (Option.some.inj h₂)
  intro key ent hent htype stamp expire hstamp hexpire hold
  rw [hmap₂.entAt] at hent
  obtain ⟨e, he, rfl⟩ := Option.map_eq_some_iff.mp hent
  rcases CacheMap.add_some he with hfirst | ⟨-, hrecord⟩
  · rcases CacheMap.add_some hfirst with hnone | ⟨-, hnull⟩
    · exact absurd hnone (by simp)
    · have hnewEntry : CacheMap.newEntry 5 0 [] = .null 5 0 := rfl
      rw [hnull.trans hnewEntry] at hexpire
      obtain rfl := Option.some.inj hexpire
      show (5 : Int) ≤ 20
      decide
  · have hnewEntry : CacheMap.newEntry 5 20 [[66]] = .value [[66]] 20 := rfl
    rw [hrecord.trans hnewEntry] at htype
    exact absurd htype (by simp [Entry.toMement])

/-- A non-result stored at 0 is served at 20, after the CDB of time 10 has been loaded. -/
theorem stale_null : ∃ os s r, runs (clockStep (fun _ => 0) 60) (clockStart 0 0)
      [.add [65] [] 0, .reload 10, .get [65] 20] = some (os, s) ∧
    some r ∈ os ∧ ¬ r.Fresh := by
  have hos : (runs (clockStep (fun _ => 0) 60) (clockStart 0 0)
      [.add [65] [] 0, .reload 10, .get [65] 20]).map Prod.fst
        = some [none, none, some ⟨0, some 0, 10⟩] := by
    rfl
  obtain ⟨⟨os, s⟩, hrun, rfl⟩ := Option.map_eq_some_iff.mp hos
  refine ⟨_, s, ⟨0, some 0, 10⟩, hrun, by simp, fun hfresh => ?_⟩
  exact hfresh rfl 0 rfl (by decide)

end Nastd.Server
