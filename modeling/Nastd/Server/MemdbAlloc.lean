import Nastd.Server.CacheMap

/-!
# The cache when memory runs out

`memdb_upd`, `memdb_add` and `memdb_get` of `server/memdb.c` with the array functions of
`server/array.c` they call, where any allocation may fail. `fails k` says that the `k`-th
`malloc` of the call does.

What a failure can leave behind is in `ent.vals`: NULL, or an array whose `items` are NULL
although it counts strings, or one with some of the strings (`ValsPtr`). It is kept per node
beside the `Memdb` of `Server/Memdb.lean`, whose list of values are the strings that are
there. `AllocRep` says which entries, with which pointers, a cache stands for; the
operations below are the map operations on them.

Two things end a call in another way than with a return code: NULL is dereferenced
(`crash`), or a pointer that was never set is freed (`wild`).
-/

namespace Nastd.Server

open Nastd.Lib

/-! ## Arrays -/

/-- What a pointer to an `array_t` leads to. An array without strings is `items []`, whatever
its `items` is. -/
inductive ValsPtr where
  | null
  /-- It counts strings, and `items` is NULL. -/
  | noItems
  | items (strs : List Bytes)
  deriving DecidableEq

/-- The strings that are there. -/
def ValsPtr.strings : ValsPtr → List Bytes
  | .items strs => strs
  | _ => []

/-- `array_dup` out of it when nothing fails; `none` if it dereferences NULL. -/
def ValsPtr.read : ValsPtr → Option (List Bytes)
  | .items strs => some strs
  | _ => none

/-- `array_delete` does not dereference NULL. -/
def ValsPtr.deletes : ValsPtr → Bool
  | .noItems => false
  | _ => true

/-- `string_new`, and the number of the next `malloc`. -/
def stringNew (fails : Nat → Bool) (k : Nat) (str : Bytes) : Option Bytes × Nat :=
  if fails k then (none, k + 1)
  else if fails (k + 1) then (none, k + 2)
  else (some str, k + 2)

/-- The loop of `array_dup`: whether all strings were copied, and those that were. -/
def dupLoop (fails : Nat → Bool) : Nat → List Bytes → Bool × List Bytes × Nat
  | k, [] => (true, [], k)
  | k, str :: rest =>
    match stringNew fails k str with
    | (none, k') => (false, [], k')
    | (some s, k') =>
      let r := dupLoop fails k' rest
      (r.1, s :: r.2.1, r.2.2)

/-- `array_dup` of a whole array into a new one: whether it returns 0, and the new one. -/
def arrayDup (fails : Nat → Bool) (k : Nat) (vals : List Bytes) : Bool × ValsPtr × Nat :=
  if fails k then (false, if vals = [] then .items [] else .noItems, k + 1)
  else
    let r := dupLoop fails (k + 1) vals
    (r.1, .items r.2.1, r.2.2)

/-- `array_new`. -/
def arrayNew (fails : Nat → Bool) (k : Nat) : ValsPtr × Nat :=
  if fails k then (.null, k + 1) else (.items [], k + 1)

/-! ## The cache -/

/-- The cache, and what `ent.vals` of the node at each address leads to. -/
structure AllocMemdb where
  db : Memdb
  vals : Nat → ValsPtr

/-- How a call that writes ends. -/
inductive WriteResult where
  | done (rc : Int) (s : AllocMemdb)
  /-- NULL is dereferenced. -/
  | crash
  /-- A pointer that was never set is freed, or a dangling one followed. -/
  | wild

/-- A lookup: the key, and the clock and the global it reads. -/
structure Lookup where
  key : Bytes
  now : Int
  cdbMtime : Int

section Ops

variable (hashkey : Bytes → Fin HASHSIZE)

/-- `memdb_get` with every allocation succeeding. -/
def memdbGetAlloc (s : AllocMemdb) (q : Lookup) : Option ((Int × List Bytes) × AllocMemdb) :=
  match memdbFind hashkey q.key s.db with
  | none => none
  | some (_, none) => some ((-1, []), s)
  | some (prev, some p) =>
    match s.db.heap.cell p with
    | none => none
    | some n =>
      let gone :=
        if (s.vals p).deletes then
          some ((-1, []), { s with db := memdbUnlink hashkey q.key prev p n.next s.db })
        else none
      let found := (s.vals p).read.map fun strs => ((0, strs), s)
      match n.ent.type with
      | .del => some ((0, []), s)
      | .expire =>
        match n.ent.typeval with
        | some expire => if q.now ≥ expire then gone else found
        | none => found
      | .upd | .tryval =>
        match n.ent.updTime with
        | some updTime => if q.cdbMtime > updTime then gone else found
        | none => found

/-- `memdb_add`. `junk` says that the memory of a new node does not happen to be NULL where
`ent.vals` is. -/
def memdbAddAlloc (fails : Nat → Bool) (junk : Bool) (nullCacheTimeout now : Int) (key : Bytes)
    (vals : List Bytes) (s : AllocMemdb) : WriteResult :=
  if fails 0 then .done (-1) s
  else if fails 1 then
    -- `ent_delete` looks at `ent.vals` before it is set
    if junk then .wild else .done (-1) s
  else
    match arrayNew fails 2 with
    | (.null, _) => .done (-1) s
    | (_, k) =>
      match arrayDup fails k vals with
      | (false, ptr, _) => if ptr.deletes then .done (-1) s else .crash
      | (true, ptr, k) =>
        if fails k then .done (-1) s
        -- the result of the `malloc` for `typeval` is not checked
        else if vals.length = 0 ∧ fails (k + 1) = true then .crash
        else
          match memdbAddLocked hashkey (memdbAddEnt nullCacheTimeout now key vals) s.db with
          | none => .wild
          | some (rc, db) =>
            .done rc { db := db, vals := Function.update s.vals s.db.heap.brk ptr }

/-- `memdb_upd`. -/
def memdbUpdAlloc (fails : Nat → Bool) (junk : Bool) (dbFieldcount : Nat)
    (nullCacheTimeout now : Int) (key : Bytes) (vals : List Bytes) (s : AllocMemdb) :
    WriteResult :=
  if vals.length ≠ dbFieldcount then .done (-1) s
  else
    match memdbUpdFind hashkey key s.db with
    | none => .wild
    | some none => memdbAddAlloc hashkey fails junk nullCacheTimeout now key vals s
    | some (some p) =>
      if (s.vals p).deletes = false then .crash
      else
        match arrayNew fails 0 with
        | (.null, _) =>
          .done (-1)
            { db := memdbUpdWrite p now [] s.db, vals := Function.update s.vals p .null }
        | (_, k) =>
          match arrayDup fails k vals with
          | (ok, ptr, _) =>
            .done (if ok then 0 else -1)
              { db := memdbUpdWrite p now ptr.strings s.db
                vals := Function.update s.vals p ptr }

end Ops

/-! ## What it stands for -/

/-- An entry and what its `vals` leads to. -/
structure AllocEntry where
  entry : Entry
  vals : ValsPtr
  deriving DecidableEq

/-- The values of the entry are the strings that are there, and a non-result has its empty
array. -/
def AllocEntry.Stored (c : AllocEntry) : Prop :=
  match c.entry with
  | .value strs _ => strs = c.vals.strings
  | .null _ _ => c.vals = .items []

/-- What `memdb_get` makes of it; `none` if it dereferences NULL. -/
def AllocEntry.answer (now cdbMtime : Int) (c : AllocEntry) : Option (Int × List Bytes) :=
  if c.entry.gone now cdbMtime then if c.vals.deletes then some (-1, []) else none
  else c.vals.read.map fun strs => (0, strs)

/-- The map from keys to entries. -/
abbrev AllocMap := Bytes → Option AllocEntry

/-- A lookup in the map. -/
def AllocMap.look (m : AllocMap) (q : Lookup) : Option ((Int × List Bytes) × AllocMap) :=
  match m q.key with
  | none => some ((-1, []), m)
  | some c =>
    (c.answer q.now q.cdbMtime).map fun r =>
      (r, if c.entry.gone q.now q.cdbMtime then Function.update m q.key none else m)

/-- The cache stands for the map. -/
structure AllocRep (hashkey : Bytes → Fin HASHSIZE) (s : AllocMemdb) (m : AllocMap) : Prop where
  rep : ∃ view, Rep hashkey s.db view ∧ ∀ k, m k = (view k).map fun ae => ⟨ae.2, s.vals ae.1⟩
  stored : ∀ k c, m k = some c → c.Stored

variable {hashkey : Bytes → Fin HASHSIZE}

/-- Two keys do not share a node. -/
theorem Rep.addr_inj {db : Memdb} {view : Bytes → Option (Nat × Entry)} (hr : Rep hashkey db view)
    {k k' : Bytes} {a : Nat} {e e' : Entry} (hk : view k = some (a, e))
    (hk' : view k' = some (a, e')) : k = k' := by
  obtain ⟨nx, hn⟩ := hr.cell hk
  obtain ⟨nx', hn'⟩ := hr.cell hk'
  rw [hn] at hn'
  have hent := congrArg (fun c => c.ent.key) (Option.some.inj hn')
  simpa using hent

theorem stored_update {m : AllocMap} (h : ∀ k c, m k = some c → c.Stored) {key : Bytes}
    {o : Option AllocEntry} (ho : ∀ c, o = some c → c.Stored) (k : Bytes) (c : AllocEntry)
    (hc : Function.update m key o k = some c) : c.Stored := by
  by_cases hk : k = key
  · rw [hk, Function.update_self] at hc
    exact ho c hc
  · rw [Function.update_of_ne hk] at hc
    exact h k c hc

/-- The empty cache. -/
theorem memdbNew_alloc : AllocRep hashkey ⟨memdbNew, fun _ => .null⟩ fun _ => none := by
  refine ⟨⟨fun _ => none, memdbNew_rep, fun k => rfl⟩, fun k c h => ?_⟩
  exact absurd h (by simp)

/-! ## Lookups -/

section Specs

variable {s : AllocMemdb} {m : AllocMap} {view : Bytes → Option (Nat × Entry)} {key : Bytes}

theorem memdbGetAlloc_absent {q : Lookup} (hr : Rep hashkey s.db view) (hv : view q.key = none) :
    memdbGetAlloc hashkey s q = some ((-1, []), s) := by
  obtain ⟨chains, h, -, hl⟩ := hr.no_slot hv
  unfold memdbGetAlloc
  rw [memdbFind_none h hl]

/-- An entry is unlinked, if it is gone, or copied. -/
theorem memdbGetAlloc_present {q : Lookup} (hr : Rep hashkey s.db view) {a : Nat} {e : Entry}
    (hv : view q.key = some (a, e)) :
    ∃ db', (e.gone q.now q.cdbMtime = true → Rep hashkey db' (Function.update view q.key none)) ∧
      memdbGetAlloc hashkey s q =
        if e.gone q.now q.cdbMtime then
          if (s.vals a).deletes then some ((-1, []), { s with db := db' }) else none
        else (s.vals a).read.map fun strs => ((0, strs), s) := by
  obtain ⟨chains, pre, post, h, -, hl, hpre⟩ := hr.slot hv
  obtain ⟨nx, hn⟩ := hr.cell hv
  refine ⟨memdbUnlink hashkey q.key (trail none (pre.map Slot.node)) a nx s.db, fun hg => ?_, ?_⟩
  · -- what `memdb_get` does where the array is whole
    obtain ⟨db', hrun, hr', -⟩ := memdbGet_gone hr hv hg []
    have hunlink : memdbGet hashkey q.now q.cdbMtime q.key [] s.db
        = some (-1, [], memdbUnlink hashkey q.key (trail none (pre.map Slot.node)) a nx s.db) := by
      unfold memdbGet
      rw [memdbFind_some h hl rfl hpre]
      simp only [hn]
      cases e with
      | value v stamp =>
        have hgt : q.cdbMtime > stamp := by simpa [Entry.gone] using hg
        simp only [Entry.toMement, if_pos hgt]
      | null expire stamp =>
        have hge : q.now ≥ expire := by simpa [Entry.gone] using hg
        simp only [Entry.toMement, if_pos hge]
    rw [hunlink] at hrun
    obtain rfl := (Prod.mk.inj (Prod.mk.inj (Option.some.inj hrun)).2).2
    exact hr'
  · unfold memdbGetAlloc
    rw [memdbFind_some h hl rfl hpre]
    simp only [hn]
    cases e with
    | value v stamp => simp [Entry.toMement, Entry.gone]
    | null expire stamp => simp [Entry.toMement, Entry.gone]

/-- A lookup in the cache does what it does in the map. -/
theorem look_refines (h : AllocRep hashkey s m) (q : Lookup) :
    (memdbGetAlloc hashkey s q = none ∧ m.look q = none) ∨
      ∃ o s' m', memdbGetAlloc hashkey s q = some (o, s') ∧ m.look q = some (o, m') ∧
        AllocRep hashkey s' m' := by
  obtain ⟨view, hr, hm⟩ := h.rep
  have hkey := hm q.key
  unfold AllocMap.look
  cases hv : view q.key with
  | none =>
    rw [hv] at hkey
    rw [hkey]
    exact Or.inr ⟨_, s, m, memdbGetAlloc_absent hr hv, rfl, h⟩
  | some ae =>
    obtain ⟨a, e⟩ := ae
    rw [hv] at hkey
    obtain ⟨db', hrep, hrun⟩ := memdbGetAlloc_present (q := q) hr hv
    rw [hrun, hkey]
    dsimp only [Option.map_some]
    unfold AllocEntry.answer
    dsimp only
    cases hg : e.gone q.now q.cdbMtime with
    | false =>
      rw [if_neg (by simp), if_neg (by simp)]
      cases hread : (s.vals a).read with
      | none => exact Or.inl ⟨rfl, rfl⟩
      | some strs => exact Or.inr ⟨_, s, m, rfl, rfl, h⟩
    | true =>
      rw [if_pos rfl, if_pos rfl]
      cases hdel : (s.vals a).deletes with
      | false => exact Or.inl ⟨rfl, rfl⟩
      | true =>
        refine Or.inr ⟨_, _, _, rfl, rfl, ⟨_, hrep hg, fun k => ?_⟩, fun k c hc => ?_⟩
        · by_cases hk : k = q.key
          · rw [hk, Function.update_self, Function.update_self]
            rfl
          · rw [Function.update_of_ne hk, Function.update_of_ne hk]
            exact hm k
        · exact stored_update h.stored (fun c hnone => absurd hnone (by simp)) k c hc

/-- So any lookups have the answers that they have in the map. -/
theorem runs_look (h : AllocRep hashkey s m) (qs : List Lookup) :
    (runs (memdbGetAlloc hashkey) s qs).map Prod.fst = (runs AllocMap.look m qs).map Prod.fst :=
  runs_same_outputs (R := AllocRep hashkey) (fun _ _ q hR => look_refines hR q) h

/-! ## Writes -/

/-- Replacing the entry of a key where it stands. -/
theorem updWrite_alloc (h : AllocRep hashkey s m) (hr : Rep hashkey s.db view)
    (hm : ∀ k, m k = (view k).map fun ae => ⟨ae.2, s.vals ae.1⟩) {p : Nat} {e : Entry}
    (hv : view key = some (p, e)) (now : Int) (ptr : ValsPtr) :
    AllocRep hashkey
      { db := memdbUpdWrite p now ptr.strings s.db, vals := Function.update s.vals p ptr }
      (Function.update m key (some ⟨.value ptr.strings now, ptr⟩)) := by
  refine ⟨⟨_, memdbUpdWrite_rep hr hv now ptr.strings, fun k => ?_⟩, fun k c hc => ?_⟩
  · by_cases hk : k = key
    · rw [hk, Function.update_self, Function.update_self]
      show _ = some (AllocEntry.mk _ (Function.update s.vals p ptr p))
      rw [Function.update_self]
    · rw [Function.update_of_ne hk, Function.update_of_ne hk, hm k]
      cases hvk : view k with
      | none => rfl
      | some ae =>
        -- another key, so another node
        have hne : ae.1 ≠ p := by
          intro hp
          have hvk' : view k = some (p, ae.2) := by rw [hvk, ← hp]
          exact hk (hr.addr_inj hvk' hv)
        show some (AllocEntry.mk _ _) = some (AllocEntry.mk _ (Function.update s.vals p ptr ae.1))
        rw [Function.update_of_ne hne]
  · refine stored_update h.stored (fun c hc => ?_) k c hc
    obtain rfl := Option.some.inj hc
    rfl

/-- What an add makes of the map. -/
def AllocMap.add (m : AllocMap) (key : Bytes) (c : AllocEntry) : AllocMap :=
  match m key with
  | some ⟨.value _ _, _⟩ => m
  | _ => Function.update m key (some c)

theorem add_cases (m : AllocMap) (key : Bytes) (c : AllocEntry) :
    m.add key c = m ∨ m.add key c = Function.update m key (some c) := by
  unfold AllocMap.add
  cases m key with
  | none => exact Or.inr rfl
  | some old =>
    obtain ⟨e, ptr⟩ := old
    cases e with
    | value v stamp => exact Or.inl rfl
    | null expire stamp => exact Or.inr rfl

/-- A new entry holds what it was given. -/
theorem newEntry_stored (nullCacheTimeout now : Int) (vals : List Bytes) :
    AllocEntry.Stored ⟨CacheMap.newEntry nullCacheTimeout now vals, .items vals⟩ := by
  unfold AllocEntry.Stored CacheMap.newEntry
  by_cases hnil : vals = []
  · rw [if_pos hnil, hnil]
  · rw [if_neg hnil]
    rfl

/-- The nodes that are linked are not at the address of a new one. -/
theorem held_elsewhere (hr : Rep hashkey s.db view) (ptr : ValsPtr) (k : Bytes) :
    ((view k).map fun ae => AllocEntry.mk ae.2 (s.vals ae.1))
      = (view k).map fun ae =>
          ⟨ae.2, Function.update s.vals s.db.heap.brk ptr ae.1⟩ := by
  cases hvk : view k with
  | none => rfl
  | some ae =>
    obtain ⟨nx, hn⟩ := hr.cell (a := ae.1) (e := ae.2) hvk
    have hne : ae.1 ≠ s.db.heap.brk := Nat.ne_of_lt (Heap.lt_brk hn)
    show some (AllocEntry.mk _ _) = some (AllocEntry.mk _ (Function.update s.vals _ _ ae.1))
    rw [Function.update_of_ne hne]

/-- Linking a new node. -/
theorem addLocked_alloc (h : AllocRep hashkey s m) (nullCacheTimeout now : Int) (key : Bytes)
    (vals : List Bytes) :
    ∃ db', memdbAddLocked hashkey (memdbAddEnt nullCacheTimeout now key vals) s.db
        = some (0, db') ∧
      AllocRep hashkey { db := db', vals := Function.update s.vals s.db.heap.brk (.items vals) }
        (m.add key ⟨CacheMap.newEntry nullCacheTimeout now vals, .items vals⟩) := by
  obtain ⟨view, hr, hm⟩ := h.rep
  obtain ⟨db', hadd⟩ :=
    memdbAddLocked_rep hr key (CacheMap.newEntry nullCacheTimeout now vals)
  rw [memdbAddEnt_eq]
  refine ⟨db', hadd.run, ⟨_, hadd.rep, ?_⟩, ?_⟩
  · have hold : ∀ k, m k = (view k).map fun ae =>
        ⟨ae.2, Function.update s.vals s.db.heap.brk (.items vals) ae.1⟩ :=
      fun k => (hm k).trans (held_elsewhere hr (.items vals) k)
    have hnew : ∀ k, Function.update m key
          (some ⟨CacheMap.newEntry nullCacheTimeout now vals, .items vals⟩) k
        = (Function.update view key
            (some (s.db.heap.brk, CacheMap.newEntry nullCacheTimeout now vals)) k).map fun ae =>
              ⟨ae.2, Function.update s.vals s.db.heap.brk (.items vals) ae.1⟩ := by
      intro k
      by_cases hk : k = key
      · rw [hk, Function.update_self, Function.update_self]
        show _ = some (AllocEntry.mk _ (Function.update s.vals s.db.heap.brk _ s.db.heap.brk))
        rw [Function.update_self]
      · rw [Function.update_of_ne hk, Function.update_of_ne hk]
        exact hold k
    have hkey := hm key
    unfold addView AllocMap.add
    cases hv : view key with
    | none =>
      rw [hv] at hkey
      rw [hkey]
      exact hnew
    | some ae =>
      obtain ⟨a, e⟩ := ae
      rw [hv] at hkey
      rw [hkey]
      cases e with
      | value v stamp => exact hold
      | null expire stamp => exact hnew
  · rcases add_cases m key ⟨CacheMap.newEntry nullCacheTimeout now vals, .items vals⟩ with
      hsame | hadd
    · rw [hsame]
      exact h.stored
    · rw [hadd]
      refine stored_update h.stored fun c hc => ?_
      obtain rfl := Option.some.inj hc
      exact newEntry_stored nullCacheTimeout now vals

end Specs

end Nastd.Server
