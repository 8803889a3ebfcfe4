import Nastd.Server.MemdbRep
import Nastd.Lib.Run

/-!
# The cache is a finite map

What `memdb.c` is for, without chains and pointers: a map from keys to entries
with three operations. An add never overwrites a record, an update always does, and
a get drops what is out of date.

`memdb_refines_map` is the refinement: from `memdb_new` on, any sequence of calls
returns exactly what the map returns, whatever the hash function does, and the
chains stay well formed (`Wf`) throughout. Other files reason about the map.
-/

namespace Nastd.Server

open Nastd.Lib

/-- The map from keys to entries. -/
abbrev CacheMap := Bytes → Option Entry

namespace CacheMap

/-- What `memdb_add` stores: a record, or for an empty list a non-result that
expires. -/
def newEntry (nullCacheTimeout now : Int) (vals : List Bytes) : Entry :=
  if vals = [] then .null (now + nullCacheTimeout) now else .value vals now

/-- An absent key is inserted, a non-result replaced, a record left as it is. -/
def add (m : CacheMap) (nullCacheTimeout now : Int) (key : Bytes) (vals : List Bytes) :
    CacheMap :=
  match m key with
  | some (.value _ _) => m
  | _ => Function.update m key (some (newEntry nullCacheTimeout now vals))

/-- A list of the right length is stored; any other is refused. -/
def upd (m : CacheMap) (dbFieldcount : Nat) (now : Int) (key : Bytes) (vals : List Bytes) :
    Int × CacheMap :=
  if vals.length ≠ dbFieldcount then (-1, m)
  else (0, Function.update m key (some (.value vals now)))

/-- A missing, expired or outdated entry is a miss, and removed; any other is
served. -/
def get (m : CacheMap) (now cdbMtime : Int) (key : Bytes) : Int × List Bytes × CacheMap :=
  match m key with
  | none => (-1, [], m)
  | some e => if e.gone now cdbMtime then (-1, [], Function.update m key none) else (0, e.vals, m)

theorem add_other (m : CacheMap) {nullCacheTimeout now : Int} {key k : Bytes}
    {vals : List Bytes} (hk : k ≠ key) : m.add nullCacheTimeout now key vals k = m k := by
  unfold add
  cases m key with
  | none => exact Function.update_of_ne hk ..
  | some e =>
    cases e with
    | value v stamp => rfl
    | null expire stamp => exact Function.update_of_ne hk ..

theorem upd_other (m : CacheMap) {dbFieldcount : Nat} {now : Int} {key k : Bytes}
    {vals : List Bytes} (hk : k ≠ key) : (m.upd dbFieldcount now key vals).2 k = m k := by
  unfold upd
  split
  · rfl
  · exact Function.update_of_ne hk ..

theorem get_other (m : CacheMap) {now cdbMtime : Int} {key k : Bytes} (hk : k ≠ key) :
    (m.get now cdbMtime key).2.2 k = m k := by
  unfold get
  split
  · rfl
  · split
    · exact Function.update_of_ne hk ..
    · rfl

/-- Only the new entry comes in. -/
theorem add_some {m : CacheMap} {nullCacheTimeout now : Int} {key k : Bytes} {vals : List Bytes}
    {e : Entry} (h : m.add nullCacheTimeout now key vals k = some e) :
    m k = some e ∨ (k = key ∧ e = newEntry nullCacheTimeout now vals) := by
  by_cases hk : k = key
  · subst hk
    unfold add at h
    cases hm : m k with
    | none =>
      simp only [hm, Function.update_self] at h
      exact .inr ⟨rfl, (Option.some.inj h).symm⟩
    | some e' =>
      cases e' with
      | value v stamp =>
        simp only [hm] at h
        exact .inl h
      | null expire stamp =>
        simp only [hm, Function.update_self] at h
        exact .inr ⟨rfl, (Option.some.inj h).symm⟩
  · rw [add_other m hk] at h
    exact .inl h

/-- A lookup adds nothing. -/
theorem get_some {m : CacheMap} {now cdbMtime : Int} {key k : Bytes} {e : Entry}
    (h : (m.get now cdbMtime key).2.2 k = some e) : m k = some e := by
  by_cases hk : k = key
  · subst hk
    unfold get at h
    split at h
    · exact h
    · split at h
      · exact absurd h (by simp)
      · exact h
  · rw [get_other m hk] at h
    exact h

/-- A hit is an entry that is not gone. -/
theorem get_hit {m : CacheMap} {now cdbMtime : Int} {key : Bytes}
    (h : (m.get now cdbMtime key).1 = 0) :
    ∃ e, m key = some e ∧ e.gone now cdbMtime = false ∧ (m.get now cdbMtime key).2.1 = e.vals := by
  unfold get at h ⊢
  cases hm : m key with
  | none =>
    rw [hm] at h
    exact absurd h (show (-1 : Int) ≠ 0 by decide)
  | some e =>
    simp only [hm] at h ⊢
    by_cases hgone : e.gone now cdbMtime = true
    · rw [if_pos hgone] at h
      exact absurd h (show (-1 : Int) ≠ 0 by decide)
    · rw [if_neg hgone]
      exact ⟨e, rfl, by simpa using hgone, rfl⟩

theorem newEntry_vals (nullCacheTimeout now : Int) (vals : List Bytes) :
    (newEntry nullCacheTimeout now vals).vals = vals := by
  unfold newEntry
  split
  · next hnil => exact hnil.symm
  · rfl

/-- A non-result that is served has not expired. -/
theorem newEntry_null {nullCacheTimeout stamp now cdbMtime : Int} {vals : List Bytes}
    (h : (newEntry nullCacheTimeout stamp vals).gone now cdbMtime = false) (hnil : vals = [])
    (hstamp : stamp ≤ now) : 0 < nullCacheTimeout := by
  unfold newEntry at h
  rw [if_pos hnil] at h
  have hlt : ¬ now ≥ stamp + nullCacheTimeout := by simpa [Entry.gone] using h
  omega

/-- A new entry is served at once, a non-result if it is kept at all. -/
theorem newEntry_fresh {nullCacheTimeout now : Int} {vals : List Bytes}
    (h : vals = [] → 0 < nullCacheTimeout) :
    (newEntry nullCacheTimeout now vals).gone now now = false := by
  unfold newEntry
  split
  · next hnil =>
    have hpos := h hnil
    have hlt : ¬ now ≥ now + nullCacheTimeout := by omega
    simpa [Entry.gone] using hlt
  · simp [Entry.gone]

end CacheMap

/-- One operation of the cache. -/
inductive MemOp where
  | add (key : Bytes) (vals : List Bytes)
  | upd (key : Bytes) (vals : List Bytes)
  | get (key : Bytes)

/-- The key an operation is about. -/
def MemOp.key : MemOp → Bytes
  | add key _ => key
  | upd key _ => key
  | get key => key

/-- A call: the operation, and the clock and the globals it reads. -/
structure Call where
  op : MemOp
  now : Int
  cdbMtime : Int
  dbFieldcount : Nat

/-- A call on `memdb.c`: the return code and the list handed out. -/
def callMemdb (hashkey : Bytes → Fin HASHSIZE) (nullCacheTimeout : Int) (db : Memdb) (c : Call) :
    Option ((Int × List Bytes) × Memdb) :=
  match c.op with
  | .add key vals =>
    (memdbAdd hashkey nullCacheTimeout c.now key vals db).map fun r => ((r.1, []), r.2)
  | .upd key vals =>
    (memdbUpd hashkey c.dbFieldcount nullCacheTimeout c.now key vals db).map
      fun r => ((r.1, []), r.2)
  | .get key =>
    (memdbGet hashkey c.now c.cdbMtime key [] db).map fun r => ((r.1, r.2.1), r.2.2)

/-- The same call on the map. -/
def callMap (nullCacheTimeout : Int) (m : CacheMap) (c : Call) : (Int × List Bytes) × CacheMap :=
  match c.op with
  | .add key vals => ((0, []), m.add nullCacheTimeout c.now key vals)
  | .upd key vals =>
    let r := m.upd c.dbFieldcount c.now key vals
    ((r.1, []), r.2)
  | .get key =>
    let r := m.get c.now c.cdbMtime key
    ((r.1, r.2.1), r.2.2)

/-! ## The simulation -/

variable {hashkey : Bytes → Fin HASHSIZE}

/-- The cache represents the map. -/
def Refines (hashkey : Bytes → Fin HASHSIZE) (db : Memdb) (m : CacheMap) : Prop :=
  ∃ view, Rep hashkey db view ∧ ∀ k, (view k).map Prod.snd = m k

/-- The entry `memdb_add` builds is the map's new entry, as stored. -/
theorem memdbAddEnt_eq (nullCacheTimeout now : Int) (key : Bytes) (vals : List Bytes) :
    memdbAddEnt nullCacheTimeout now key vals
      = (CacheMap.newEntry nullCacheTimeout now vals).toMement key := by
  unfold memdbAddEnt CacheMap.newEntry
  cases vals with
  | nil => rfl
  | cons v vs => rfl

/-- Dropping the addresses commutes with changing one key. -/
theorem map_update {view : Bytes → Option (Nat × Entry)} {m : CacheMap} {key : Bytes}
    {x : Option (Nat × Entry)} (hm : ∀ k, (view k).map Prod.snd = m k) (k : Bytes) :
    (Function.update view key x k).map Prod.snd
      = Function.update m key (x.map Prod.snd) k := by
  by_cases hk : k = key
  · subst hk
    rw [Function.update_self, Function.update_self]
  · rw [Function.update_of_ne hk, Function.update_of_ne hk, hm]

theorem memdbAdd_refines {db : Memdb} {m : CacheMap} (h : Refines hashkey db m)
    (nullCacheTimeout now : Int) (key : Bytes) (vals : List Bytes) :
    ∃ db', memdbAdd hashkey nullCacheTimeout now key vals db = some (0, db') ∧
      Refines hashkey db' (m.add nullCacheTimeout now key vals) := by
  obtain ⟨view, hr, hm⟩ := h
  obtain ⟨db', hadd⟩ := memdbAddLocked_rep hr key (CacheMap.newEntry nullCacheTimeout now vals)
  refine ⟨db', ?_, _, hadd.rep, fun k => ?_⟩
  · unfold memdbAdd
    rw [memdbAddEnt_eq]
    exact hadd.run
  · have hkey := hm key
    unfold addView CacheMap.add
    cases hv : view key with
    | none =>
      rw [hv] at hkey
      rw [← hkey]
      exact map_update hm k
    | some ae =>
      obtain ⟨a, e⟩ := ae
      rw [hv] at hkey
      rw [← hkey]
      cases e with
      | value v stamp => exact hm k
      | null expire stamp => exact map_update hm k

theorem memdbGet_refines {db : Memdb} {m : CacheMap} (h : Refines hashkey db m)
    (now cdbMtime : Int) (key : Bytes) :
    ∃ db', memdbGet hashkey now cdbMtime key [] db
        = some ((m.get now cdbMtime key).1, (m.get now cdbMtime key).2.1, db') ∧
      Refines hashkey db' (m.get now cdbMtime key).2.2 := by
  obtain ⟨view, hr, hm⟩ := h
  have hkey := hm key
  unfold CacheMap.get
  cases hv : view key with
  | none =>
    rw [hv] at hkey
    rw [← hkey]
    exact ⟨db, memdbGet_absent hr hv now cdbMtime [], view, hr, hm⟩
  | some ae =>
    obtain ⟨a, e⟩ := ae
    rw [hv] at hkey
    rw [← hkey]
    cases hg : e.gone now cdbMtime with
    | false =>
      simp only [Option.map_some, hg, Bool.false_eq_true, if_false]
      exact ⟨db, memdbGet_live hr hv hg [], view, hr, hm⟩
    | true =>
      obtain ⟨db', hrun, hr', -⟩ := memdbGet_gone hr hv hg []
      simp only [Option.map_some, hg, if_true]
      exact ⟨db', hrun, _, hr', fun k => map_update hm k⟩

/-- With at least one column an update is never stored as a non-result. -/
theorem memdbUpd_refines {db : Memdb} {m : CacheMap} (h : Refines hashkey db m)
    {dbFieldcount : Nat} (hfc : 1 ≤ dbFieldcount) (nullCacheTimeout now : Int) (key : Bytes)
    (vals : List Bytes) :
    ∃ db', memdbUpd hashkey dbFieldcount nullCacheTimeout now key vals db
        = some ((m.upd dbFieldcount now key vals).1, db') ∧
      Refines hashkey db' (m.upd dbFieldcount now key vals).2 := by
  unfold memdbUpd CacheMap.upd
  by_cases hlen : vals.length ≠ dbFieldcount
  · rw [if_pos hlen, if_pos hlen]
    exact ⟨db, rfl, h⟩
  · rw [if_neg hlen, if_neg hlen]
    obtain ⟨view, hr, hm⟩ := h
    have hkey := hm key
    rw [memdbUpdFind_eq hr]
    cases hv : view key with
    | none =>
      -- not there: added, and the list is not empty
      obtain ⟨db', hrun, hr'⟩ := memdbAdd_refines ⟨view, hr, hm⟩ nullCacheTimeout now key vals
      refine ⟨db', hrun, ?_⟩
      have hne : vals ≠ [] := by
        intro he
        rw [he] at hlen
        simp only [List.length_nil, ne_eq, Decidable.not_not] at hlen
        omega
      rw [hv] at hkey
      unfold CacheMap.add at hr'
      rw [← hkey, CacheMap.newEntry, if_neg hne] at hr'
      exact hr'
    | some ae =>
      obtain ⟨a, e⟩ := ae
      exact ⟨_, rfl, _, memdbUpdWrite_rep hr hv now vals, fun k => map_update hm k⟩

/-- One call on the cache does what the map does. -/
theorem callMemdb_refines (nullCacheTimeout : Int) {db : Memdb} {m : CacheMap} {c : Call}
    (hfc : 1 ≤ c.dbFieldcount) (h : Refines hashkey db m) :
    ∃ db', callMemdb hashkey nullCacheTimeout db c
        = some ((callMap nullCacheTimeout m c).1, db') ∧
      Refines hashkey db' (callMap nullCacheTimeout m c).2 := by
  unfold callMemdb callMap
  cases c.op with
  | add key vals =>
    obtain ⟨db', hrun, hr⟩ := memdbAdd_refines h nullCacheTimeout c.now key vals
    exact ⟨db', by simp only [hrun, Option.map_some], hr⟩
  | upd key vals =>
    obtain ⟨db', hrun, hr⟩ := memdbUpd_refines h hfc nullCacheTimeout c.now key vals
    exact ⟨db', by simp only [hrun, Option.map_some], hr⟩
  | get key =>
    obtain ⟨db', hrun, hr⟩ := memdbGet_refines h c.now c.cdbMtime key
    exact ⟨db', by simp only [hrun, Option.map_some], hr⟩

/-- A call changes the map at its own key only. -/
theorem callMap_other (nullCacheTimeout : Int) (m : CacheMap) (c : Call) {k : Bytes}
    (hk : k ≠ c.op.key) : (callMap nullCacheTimeout m c).2 k = m k := by
  obtain ⟨op, now, cdbMtime, dbFieldcount⟩ := c
  cases op with
  | add key vals => exact m.add_other hk
  | upd key vals => exact m.upd_other hk
  | get key => exact m.get_other hk

/-- **The cache refines a finite map.** After `memdb_new`, any calls, with any
clock and any `cdb_mtime` at each, return what the map returns. The chains then list
the map's entries, each in its key's bucket and at most one per key (`Wf`), and one
more call leaves the entries of all other keys as they are. -/
theorem memdb_refines_map (hashkey : Bytes → Fin HASHSIZE) (nullCacheTimeout : Int)
    (calls : List Call) (hfc : ∀ c ∈ calls, 1 ≤ c.dbFieldcount) :
    ∃ db chains,
      runs (callMemdb hashkey nullCacheTimeout) memdbNew calls
        = some ((runsTotal (callMap nullCacheTimeout) (fun _ => none) calls).1, db) ∧
      Wf hashkey db chains ∧
      (∀ k, (viewOf hashkey chains k).map Prod.snd
        = (runsTotal (callMap nullCacheTimeout) (fun _ => none) calls).2 k) ∧
      ∀ c : Call, 1 ≤ c.dbFieldcount → ∃ r db' chains',
        callMemdb hashkey nullCacheTimeout db c = some (r, db') ∧ Wf hashkey db' chains' ∧
        ∀ k, k ≠ c.op.key →
          (viewOf hashkey chains' k).map Prod.snd = (viewOf hashkey chains k).map Prod.snd := by
  have hnew : Refines hashkey memdbNew fun _ => none := ⟨_, memdbNew_rep, fun _ => rfl⟩
  obtain ⟨db, hrun, hR⟩ := runs_refines (p := fun c : Call => 1 ≤ c.dbFieldcount)
    (fun db m c hok h => callMemdb_refines (c := c) nullCacheTimeout hok h) hfc hnew
  obtain ⟨_, ⟨chains, hwf, rfl⟩, hm⟩ := id hR
  refine ⟨db, chains, hrun, hwf, hm, fun c hc => ?_⟩
  obtain ⟨db', hrun', _, ⟨chains', hwf', rfl⟩, hm'⟩ := callMemdb_refines nullCacheTimeout hc hR
  refine ⟨_, db', chains', hrun', hwf', fun k hk => ?_⟩
  rw [hm', hm, callMap_other nullCacheTimeout _ c hk]

/-- Two keys of one bucket: a non-result replaced by an update, and read behind the other's
record. -/
theorem memdb_refines_map_collide :
    ∃ db chains,
      runs (callMemdb (fun _ => 0) 60) memdbNew
          [⟨.add [1] [], 5, 0, 1⟩, ⟨.add [2] [[8]], 5, 0, 1⟩, ⟨.upd [1] [[7]], 6, 0, 1⟩,
            ⟨.get [2], 7, 0, 1⟩, ⟨.get [1], 7, 0, 1⟩]
        = some ([(0, []), (0, []), (0, []), (0, [[8]]), (0, [[7]])], db) ∧
      Wf (fun _ => 0) db chains := by
  obtain ⟨db, chains, hrun, hwf, -⟩ := memdb_refines_map (fun _ => 0) 60
    [⟨.add [1] [], 5, 0, 1⟩, ⟨.add [2] [[8]], 5, 0, 1⟩, ⟨.upd [1] [[7]], 6, 0, 1⟩,
      ⟨.get [2], 7, 0, 1⟩, ⟨.get [1], 7, 0, 1⟩] (by decide)
  exact ⟨db, chains, hrun, hwf⟩

end Nastd.Server
