import Mathlib.Algebra.BigOperators.Group.Finset.Sigma
import Mathlib.Data.Fintype.Basic
import Nastd.Server.Freshness

/-!
# `memdbsize` and the entries that are linked

`memdb_add` counts every entry it links; the two branches of `memdb_get` that unlink an
entry count nothing. So `memdbsize` runs ahead of the chains by one for every entry that
was dropped: `callMemdb_surplus` for one call, `runs_surplus` for a run.

* `memdbLinked`: the number of nodes on all chains.
* `memdbsize_exact_iff`: `memdbsize` is that number if and only if no `memdb_get` of the run
  found an entry that was out of date.
-/

namespace Nastd.Server

open Nastd.Lib

/-- The number of entries linked in all bucket chains. -/
def memdbLinked (db : Memdb) : Nat := ∑ i, chainLength db.heap db.heap.brk (db.bucket i)

/-- The tests of `memdb_get` on the entry it found. -/
def Mement.outOfDate (now cdbMtime : Int) (ent : Mement) : Bool :=
  match ent.type with
  | .del => false
  | .expire => ent.typeval.any fun expire => decide (now ≥ expire)
  | .upd | .tryval => ent.updTime.any fun updTime => decide (cdbMtime > updTime)

/-- The call is a `memdb_get` that finds an entry which is out of date. -/
def Call.Drops (hashkey : Bytes → Fin HASHSIZE) (db : Memdb) (c : Call) : Bool :=
  match c.op with
  | .get key => (entAt hashkey key db).any (Mement.outOfDate c.now c.cdbMtime)
  | _ => false

theorem toMement_outOfDate (now cdbMtime : Int) (key : Bytes) (e : Entry) :
    (e.toMement key).outOfDate now cdbMtime = e.gone now cdbMtime := by
  cases e <;> rfl

variable {hashkey : Bytes → Fin HASHSIZE}

/-! ## Chains and keys -/

/-- The keys on all chains. -/
def cachedKeys (chains : Chains) : Finset Bytes :=
  Finset.univ.biUnion fun i => ((chains i).map Slot.key).toFinset

theorem mem_cachedKeys {db : Memdb} {chains : Chains} (h : Wf hashkey db chains) (k : Bytes) :
    k ∈ cachedKeys chains ↔ viewOf hashkey chains k ≠ none := by
  unfold cachedKeys
  rw [Finset.mem_biUnion, viewOf_eq, ne_eq, Option.map_eq_none_iff]
  constructor
  · intro ⟨i, _, hk⟩ hnone
    obtain ⟨s, hs, rfl⟩ := List.mem_map.mp (List.mem_toFinset.mp hk)
    obtain rfl := h.placed i s hs
    exact slotOf_eq_none hnone s hs rfl
  · intro hsome
    obtain ⟨s, hs⟩ := Option.ne_none_iff_exists'.mp hsome
    obtain ⟨rfl, pre, post, hl, -⟩ := slotOf_eq_some hs
    refine ⟨hashkey s.key, Finset.mem_univ _, List.mem_toFinset.mpr (List.mem_map_of_mem ?_)⟩
    rw [hl]
    simp

/-- Every key is on one chain, and once. -/
theorem card_cachedKeys {db : Memdb} {chains : Chains} (h : Wf hashkey db chains) :
    (cachedKeys chains).card = memdbLinked db := by
  unfold cachedKeys memdbLinked
  rw [Finset.card_biUnion]
  · refine Finset.sum_congr rfl fun i _ => ?_
    have hseg := h.chain i
    rw [chainLength_seg hseg hseg.length_le, List.toFinset_card_of_nodup (h.uniq i),
      List.length_map, List.length_map]
  · intro i _ j _ hne
    apply Finset.disjoint_left.mpr
    intro k hi hj
    obtain ⟨s, hs, rfl⟩ := List.mem_map.mp (List.mem_toFinset.mp hi)
    obtain ⟨t, ht, hkey⟩ := List.mem_map.mp (List.mem_toFinset.mp hj)
    apply hne
    rw [← h.placed i s hs, ← h.placed j t ht, hkey]

/-- The count is that of the keys of the view. -/
theorem Rep.linked {db : Memdb} {view : Bytes → Option (Nat × Entry)}
    (hr : Rep hashkey db view) :
    ∃ keys : Finset Bytes, (∀ k, k ∈ keys ↔ view k ≠ none) ∧ keys.card = memdbLinked db := by
  obtain ⟨chains, h, rfl⟩ := hr
  exact ⟨cachedKeys chains, mem_cachedKeys h, card_cachedKeys h⟩

section Counts

variable {db db' : Memdb} {view view' : Bytes → Option (Nat × Entry)} {key : Bytes}

theorem linked_same (hr : Rep hashkey db view) (hr' : Rep hashkey db' view')
    (h : ∀ k, view' k = none ↔ view k = none) : memdbLinked db' = memdbLinked db := by
  obtain ⟨keys, hkeys, hcard⟩ := hr.linked
  obtain ⟨keys', hkeys', hcard'⟩ := hr'.linked
  have hsame : keys' = keys := by
    ext k
    rw [hkeys', hkeys, ne_eq, ne_eq, h]
  rw [← hcard, ← hcard', hsame]

/-- A key that has an entry gets another. -/
theorem update_eq_none_iff {x y : Nat × Entry} (hv : view key = some x) (k : Bytes) :
    Function.update view key (some y) k = none ↔ view k = none := by
  by_cases hk : k = key
  · subst hk
    rw [Function.update_self, hv]
    simp
  · rw [Function.update_of_ne hk]

/-- A key more. -/
theorem linked_insert {x : Nat × Entry} (hr : Rep hashkey db view)
    (hr' : Rep hashkey db' (Function.update view key (some x))) (hv : view key = none) :
    memdbLinked db' = memdbLinked db + 1 := by
  obtain ⟨keys, hkeys, hcard⟩ := hr.linked
  obtain ⟨keys', hkeys', hcard'⟩ := hr'.linked
  have hnew : keys' = insert key keys := by
    ext k
    rw [hkeys', Finset.mem_insert, hkeys]
    by_cases hk : k = key
    · subst hk
      simp
    · rw [Function.update_of_ne hk]
      simp [hk]
  have hout : key ∉ keys := fun hmem => (hkeys key).mp hmem hv
  rw [← hcard, ← hcard', hnew, Finset.card_insert_of_notMem hout]

/-- A key less. -/
theorem linked_erase (hr : Rep hashkey db view)
    (hr' : Rep hashkey db' (Function.update view key none)) (hv : view key ≠ none) :
    memdbLinked db' + 1 = memdbLinked db := by
  obtain ⟨keys, hkeys, hcard⟩ := hr.linked
  obtain ⟨keys', hkeys', hcard'⟩ := hr'.linked
  have hless : keys' = keys.erase key := by
    ext k
    rw [hkeys', Finset.mem_erase, hkeys]
    by_cases hk : k = key
    · subst hk
      simp
    · rw [Function.update_of_ne hk]
      simp [hk]
  rw [← hcard, ← hcard', hless, Finset.card_erase_add_one ((hkeys key).mpr hv)]

/-! ## One call -/

/-- How far `memdbsize` is ahead of the chains. -/
def memdbSurplus (db : Memdb) : Int := db.memdbsize - memdbLinked db

theorem memdbAdd_surplus (hr : Rep hashkey db view) (nullCacheTimeout now : Int) (key : Bytes)
    (vals : List Bytes) :
    ∃ db' view', memdbAdd hashkey nullCacheTimeout now key vals db = some (0, db') ∧
      Rep hashkey db' view' ∧ memdbSurplus db' = memdbSurplus db := by
  obtain ⟨db', hadd⟩ := memdbAddLocked_rep hr key (CacheMap.newEntry nullCacheTimeout now vals)
  refine ⟨db', _, ?_, hadd.rep, ?_⟩
  · unfold memdbAdd
    rw [memdbAddEnt_eq]
    exact hadd.run
  have hsize := hadd.size
  have hrep := hadd.rep
  unfold memdbSurplus
  cases hv : view key with
  | none =>
    -- a new key is linked and counted
    rw [hv] at hsize
    rw [addView_of_not_value fun p v stamp => by rw [hv]; simp] at hrep
    rw [hsize, linked_insert hr hrep hv, Option.isNone_none, if_pos rfl]
    omega
  | some x =>
    rw [hv] at hsize
    have hkeys : ∀ k, addView view key db.heap.brk (CacheMap.newEntry nullCacheTimeout now vals) k
        = none ↔ view k = none := by
      intro k
      obtain ⟨p, old⟩ := x
      cases old with
      | value v stamp => rw [addView_of_value hv]
      | null expire stamp =>
        rw [addView_of_not_value fun p v stamp => by rw [hv]; simp]
        exact update_eq_none_iff hv k
    rw [hsize, linked_same hr hrep hkeys, Option.isNone_some, if_neg Bool.false_ne_true,
      Int.add_zero]

theorem memdbUpd_surplus (hr : Rep hashkey db view) (dbFieldcount : Nat)
    (nullCacheTimeout now : Int) (key : Bytes) (vals : List Bytes) :
    ∃ rc db' view', memdbUpd hashkey dbFieldcount nullCacheTimeout now key vals db
        = some (rc, db') ∧ Rep hashkey db' view' ∧ memdbSurplus db' = memdbSurplus db := by
  unfold memdbUpd
  split
  · exact ⟨-1, db, view, rfl, hr, rfl⟩
  · rw [memdbUpdFind_eq hr]
    cases hv : view key with
    | none =>
      obtain ⟨db', view', hrun, hr', hsurplus⟩ := memdbAdd_surplus hr nullCacheTimeout now key vals
      exact ⟨0, db', view', hrun, hr', hsurplus⟩
    | some x =>
      obtain ⟨a, e⟩ := x
      have hrep := memdbUpdWrite_rep hr hv now vals
      refine ⟨0, _, _, rfl, hrep, ?_⟩
      unfold memdbSurplus
      rw [linked_same hr hrep (update_eq_none_iff hv)]
      rfl

theorem Rep.entAt (hr : Rep hashkey db view) (key : Bytes) :
    entAt hashkey key db = (view key).map fun x => x.2.toMement key := by
  have hent := Refines.entAt (m := fun k => (view k).map Prod.snd) ⟨view, hr, fun _ => rfl⟩ key
  rw [hent, Option.map_map]
  rfl

theorem memdbGet_surplus (hr : Rep hashkey db view) (now cdbMtime : Int) (key : Bytes) :
    ∃ (r : Int × List Bytes) (db' : Memdb) (view' : Bytes → Option (Nat × Entry)),
      memdbGet hashkey now cdbMtime key [] db = some (r.1, r.2, db') ∧
      Rep hashkey db' view' ∧ memdbSurplus db' = memdbSurplus db +
        (if (Server.entAt hashkey key db).any (Mement.outOfDate now cdbMtime) then 1 else 0) := by
  rw [hr.entAt]
  cases hv : view key with
  | none =>
    refine ⟨(-1, []), db, view, memdbGet_absent hr hv now cdbMtime [], hr, ?_⟩
    simp
  | some x =>
    obtain ⟨a, e⟩ := x
    rw [Option.map_some, Option.any_some, toMement_outOfDate]
    cases hg : e.gone now cdbMtime with
    | false =>
      refine ⟨(0, e.vals), db, view, memdbGet_live hr hv hg [], hr, ?_⟩
      simp
    | true =>
      -- the entry is unlinked, and `memdbsize` stays
      obtain ⟨db', hrun, hr', -, -, hsize⟩ := memdbGet_gone hr hv hg []
      refine ⟨(-1, []), db', _, hrun, hr', ?_⟩
      have hlinked := linked_erase hr hr' (by rw [hv]; simp)
      unfold memdbSurplus
      rw [hsize, if_pos rfl]
      omega

/-- A call leaves the surplus alone, or drops an entry and adds one to it. -/
theorem callMemdb_surplus (nullCacheTimeout : Int) (hr : Rep hashkey db view) (c : Call) :
    ∃ r db' view', callMemdb hashkey nullCacheTimeout db c = some (r, db') ∧
      Rep hashkey db' view' ∧
      memdbSurplus db' = memdbSurplus db + (if c.Drops hashkey db then 1 else 0) := by
  unfold callMemdb Call.Drops
  cases c.op with
  | add key vals =>
    obtain ⟨db', view', hrun, hr', hsurplus⟩ := memdbAdd_surplus hr nullCacheTimeout c.now key vals
    refine ⟨(0, []), db', view', by simp only [hrun, Option.map_some], hr', ?_⟩
    simpa using hsurplus
  | upd key vals =>
    obtain ⟨rc, db', view', hrun, hr', hsurplus⟩ :=
      memdbUpd_surplus hr c.dbFieldcount nullCacheTimeout c.now key vals
    refine ⟨(rc, []), db', view', by simp only [hrun, Option.map_some], hr', ?_⟩
    simpa using hsurplus
  | get key =>
    obtain ⟨r, db', view', hrun, hr', hsurplus⟩ := memdbGet_surplus hr c.now c.cdbMtime key
    exact ⟨(r.1, r.2), db', view', by simp only [hrun, Option.map_some], hr', hsurplus⟩

end Counts

/-! ## Runs -/

/-- The surplus grows by the number of entries that were dropped. -/
theorem runs_surplus (nullCacheTimeout : Int) : ∀ (calls : List Call) {db : Memdb}
    {view : Bytes → Option (Nat × Entry)}, Rep hashkey db view →
    ∃ (n : Nat) (os : List (Int × List Bytes)) (db' : Memdb),
      runs (callMemdb hashkey nullCacheTimeout) db calls = some (os, db') ∧
      memdbSurplus db' = memdbSurplus db + n ∧
      (n = 0 ↔ Guarded (callMemdb hashkey nullCacheTimeout)
        (fun db c => c.Drops hashkey db = false) db calls) := by
  intro calls
  induction calls with
  | nil =>
    intro db view _
    exact ⟨0, [], db, rfl, by simp, fun _ => trivial, fun _ => rfl⟩
  | cons c calls ih =>
    intro db view hr
    obtain ⟨r, db₁, view₁, hcall, hr₁, hone⟩ := callMemdb_surplus nullCacheTimeout hr c
    obtain ⟨n, os, db', hrun, hrest, hiff⟩ := ih hr₁
    refine ⟨n + if c.Drops hashkey db then 1 else 0, r :: os, db',
      runs_cons.mpr ⟨r, db₁, os, hcall, hrun, rfl⟩, ?_, ?_⟩
    · rw [hrest, hone]
      split <;> push_cast <;> omega
    · constructor
      · intro hzero
        have hkeeps : c.Drops hashkey db = false := by
          cases hd : c.Drops hashkey db with
          | false => rfl
          | true =>
            rw [hd, if_pos rfl] at hzero
            omega
        exact guarded_cons hkeeps hcall (hiff.mp (by omega))
      · intro ⟨hkeeps, hguard⟩
        rw [hiff.mpr (hguard r db₁ hcall), hkeeps]
        rfl

theorem memdbNew_surplus : memdbSurplus memdbNew = 0 := by
  have hempty : memdbLinked memdbNew = 0 := Finset.sum_eq_zero fun _ _ => rfl
  unfold memdbSurplus
  rw [hempty]
  rfl

/-- After `memdb_new` and any calls, `memdbsize` is the number of entries linked in all
chains if and only if no `memdb_get` found an entry that was out of date. -/
theorem memdbsize_exact_iff (hashkey : Bytes → Fin HASHSIZE) (nullCacheTimeout : Int)
    (calls : List Call) :
    ∃ os db, runs (callMemdb hashkey nullCacheTimeout) memdbNew calls = some (os, db) ∧
      (db.memdbsize = memdbLinked db ↔ Guarded (callMemdb hashkey nullCacheTimeout)
        (fun db c => c.Drops hashkey db = false) memdbNew calls) := by
  obtain ⟨n, os, db, hrun, hsurplus, hiff⟩ := runs_surplus nullCacheTimeout calls memdbNew_rep
  refine ⟨os, db, hrun, ?_⟩
  rw [← hiff]
  rw [memdbNew_surplus] at hsurplus
  unfold memdbSurplus at hsurplus
  omega

/-- A record is stored, a newer CDB is loaded, and the record is asked for: the cache is
empty and counts one. -/
theorem memdbsize_counts_dropped :
    ¬ ∀ (hashkey : Bytes → Fin HASHSIZE) (nullCacheTimeout : Int) (calls : List Call)
      (os : List (Int × List Bytes)) (db : Memdb),
      runs (callMemdb hashkey nullCacheTimeout) memdbNew calls = some (os, db) →
      db.memdbsize = memdbLinked db := by
  intro h
  obtain ⟨n, os, db, hrun, hsurplus, hiff⟩ := runs_surplus 60
    [⟨.add [1] [[7]], 5, 0, 1⟩, ⟨.get [1], 20, 10, 1⟩]
    (memdbNew_rep : Rep (fun _ => 0) memdbNew fun _ => none)
  have hsize := h _ _ _ os db hrun
  rw [memdbNew_surplus] at hsurplus
  unfold memdbSurplus at hsurplus
  have hguard := hiff.mp (by omega)
  exact absurd (hguard.2 _ _ rfl).1 (by decide)

end Nastd.Server
