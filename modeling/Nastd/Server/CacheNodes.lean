import Mathlib.Data.Set.Card
import Nastd.Lib.Live
import Nastd.Server.CacheThreads
import Nastd.Server.EntryCount

/-!
# What the cache loses

The nodes of `server/memdb.c` that are allocated, beside those that are linked. `memdb_get` and
`memdb_add` free what they unlink. But `memdb_add` builds its node before it takes the lock:
if a later `malloc` fails it returns -1 and leaves the node, and where it finds a record
under its key it returns 0 and forgets it.

In the cache under many threads a node comes to the heap with the locked section that has
it to link. `NodeSys` keeps the account of `malloc` and `free` beside that, with the
calls that fail. The arrays of values are allocated.

* `memdbAddLocked_adrift`, `memdbGet_adrift`, `memdbUpdWrite_adrift`: each stretch under the
  lock.
* `cache_nodes`: after any run of any threads the nodes that are allocated are the linked
  ones, those of the threads on their way to the lock of `memdb_add`, and the lost ones.
-/

namespace Nastd.Server

open Nastd.Lib

/-- The number of nodes in the heap: a locked section of `memdb_add` has brought them there, and
nobody has freed them. -/
def memdbNodes (db : Memdb) : Nat := db.heap.live.card

/-- How many of them are not linked. -/
def memdbAdrift (db : Memdb) : Int := memdbNodes db - memdbLinked db

/-- `memdb_add` keeps this entry. -/
def Mement.isRecord (ent : Mement) : Bool :=
  match ent.type with
  | .upd | .tryval => true
  | .expire | .del => false

section Ops

variable (hashkey : Bytes → Fin HASHSIZE)

/-- There is a record under this key. -/
def hasRecord (key : Bytes) (db : Memdb) : Bool := (entAt hashkey key db).any Mement.isRecord

/-- The step is a locked section of `memdb_add`, from wherever it was called, that finds a
record. -/
def AddsBeside (s : CacheSys) : CacheAct → Bool
  | .addLocked t =>
    match s.thread t with
    | .adding ent => hasRecord hashkey ent.key s.db
    | .updAdding ent => hasRecord hashkey ent.key s.db
    | _ => false
  | _ => false

end Ops

/-- The thread has built a node in `memdb_add`, and has not had the lock yet. -/
def CacheThread.builds : CacheThread → Bool
  | .adding _ => true
  | .updAdding _ => true
  | _ => false

/-- The threads that have a node in hand. -/
def CacheSys.builders (s : CacheSys) : Set Nat := {t | (s.thread t).builds = true}

/-- The cache, and how many nodes are allocated: each `malloc` less each `free`. -/
structure NodeSys where
  cache : CacheSys
  allocated : Int

/-- A step of the cache, or a `memdb_add` that fails and returns -1: with its first `malloc`, the
one for the node, or behind it. (A failing `malloc` for the key hands `ent_delete` a node whose
`vals` nothing has set; these are the calls it survives.) -/
inductive NodeAct where
  | cache (act : CacheAct)
  /-- For a fallthrough result. -/
  | addFails (t : Nat) (first : Bool)
  /-- Where `memdb_upd` has not found its key. -/
  | updAddFails (t : Nat) (first : Bool)

/-- The nodes a step of the cache allocates, less those it frees. The `malloc` is on the way to
the lock of `memdb_add`, and under the lock the heap takes the node over. -/
def nodesGained (s s' : CacheSys) : CacheAct → Int
  | .addStart _ _ _ _ => 1
  | .updFind t _ => if (s'.thread t).builds then 1 else 0
  | .addLocked _ => memdbNodes s'.db - (memdbNodes s.db + 1)
  | _ => memdbNodes s'.db - memdbNodes s.db

/-- What a `memdb_add` that fails leaves behind. -/
def nodesLeft (first : Bool) : Int := if first then 0 else 1

section NodeSteps

variable (hashkey : Bytes → Fin HASHSIZE) (nullCacheTimeout : Int)

def nodeStep (s : NodeSys) : NodeAct → Option (CacheOut × NodeSys)
  | .cache act =>
    (cacheStep hashkey nullCacheTimeout s.cache act).map fun r =>
      (r.1, ⟨r.2, s.allocated + nodesGained s.cache r.2 act⟩)
  | .addFails t first =>
    match s.cache.thread t with
    | .idle => some (.silent, { s with allocated := s.allocated + nodesLeft first })
    | _ => none
  | .updAddFails t first =>
    match s.cache.thread t with
    | .updFinding key vals =>
      match memdbUpdFind hashkey key s.cache.db with
      | some none =>
        some (.updated key vals (-1) 0, ⟨s.cache.goto t .idle, s.allocated + nodesLeft first⟩)
      | _ => none
    | _ => none

/-- Nothing is allocated at the start. -/
def nodeInit (mtime : Int) (fieldcount : Nat) : NodeSys := ⟨cacheInit mtime fieldcount, 0⟩

/-- The step loses a node: a `memdb_add` has found a record, or has failed with its node built. -/
def LosesNode (s : NodeSys) : NodeAct → Bool
  | .cache act => AddsBeside hashkey s.cache act
  | .addFails _ first => !first
  | .updAddFails _ first => !first

end NodeSteps

variable {hashkey : Bytes → Fin HASHSIZE} {nullCacheTimeout : Int}

/-! ## Each stretch under the lock -/

section Sections

variable {db db' : Memdb} {view view' : Bytes → Option (Nat × Entry)} {key : Bytes}

theorem hasRecord_eq (hr : Rep hashkey db view) (key : Bytes) :
    hasRecord hashkey key db = true ↔ ∃ a v stamp, view key = some (a, .value v stamp) := by
  unfold hasRecord
  rw [hr.entAt]
  cases hv : view key with
  | none => simp
  | some x =>
    obtain ⟨a, e⟩ := x
    cases e with
    | value v stamp => exact iff_of_true rfl ⟨a, v, stamp, rfl⟩
    | null expire stamp => exact iff_of_false Bool.false_ne_true (by simp)

theorem Rep.live (hr : Rep hashkey db view) {a : Nat} {e : Entry} (hv : view key = some (a, e)) :
    db.heap.cell a ≠ none := by
  obtain ⟨nx, hn⟩ := hr.cell hv
  rw [hn]
  simp

/-- What `memdb_add` does with the nodes: it has one more, or it frees one for it. -/
theorem memdbAddLocked_nodes {ent : Mement} {rc : Int}
    (h : memdbAddLocked hashkey ent db = some (rc, db')) :
    db'.heap.live = insert db.heap.brk db.heap.live ∧ memdbNodes db' = memdbNodes db + 1 ∨
      memdbNodes db' = memdbNodes db ∧ db'.memdbsize = db.memdbsize := by
  have halloc : memdbNodes { db with heap := db.heap.alloc ⟨ent, none⟩ } = memdbNodes db + 1 :=
    db.heap.card_live_alloc _
  unfold memdbAddLocked at h
  dsimp only at h
  split at h
  next =>
    obtain ⟨-, rfl⟩ := Prod.mk.inj (Option.some.inj h)
    exact Or.inl ⟨Heap.live_alloc .., halloc⟩
  next head hhead =>
    split at h
    next q p hwalk =>
      split at h
      next => exact absurd h (by simp)
      next n hn =>
        split at h
        next hkey =>
          -- the node of a non-result is freed once it is unlinked
          have hfreed : ∀ heap : Heap Mement, heap.live = (db.heap.alloc ⟨ent, none⟩).live →
              (heap.free p).live.card = memdbNodes db := by
            intro heap hlive
            have hp : heap.cell p ≠ none := by
              rw [← Heap.mem_live, hlive, Heap.mem_live, hn]
              simp
            have hcard := Heap.card_live_free hp
            rw [hlive, Heap.card_live_alloc] at hcard
            exact Nat.succ.inj hcard
          have hlive : ∀ (head q : Option Nat) (f : Cachent → Cachent),
              ((relink (db.heap.alloc ⟨ent, none⟩) head q (some db.heap.brk)).1.modify
                db.heap.brk f).live = (db.heap.alloc ⟨ent, none⟩).live :=
            fun _ _ _ => (Heap.live_modify ..).trans (relink_live ..)
          split at h
          next =>
            obtain ⟨-, rfl⟩ := Prod.mk.inj (Option.some.inj h)
            exact Or.inr ⟨hfreed _ (hlive ..), rfl⟩
          next =>
            obtain ⟨-, rfl⟩ := Prod.mk.inj (Option.some.inj h)
            exact Or.inr ⟨hfreed _ (hlive ..), rfl⟩
          next =>
            obtain ⟨-, rfl⟩ := Prod.mk.inj (Option.some.inj h)
            exact Or.inl ⟨Heap.live_alloc .., halloc⟩
          next =>
            obtain ⟨-, rfl⟩ := Prod.mk.inj (Option.some.inj h)
            exact Or.inl ⟨Heap.live_alloc .., halloc⟩
        next hkey =>
          obtain ⟨-, rfl⟩ := Prod.mk.inj (Option.some.inj h)
          refine Or.inl ⟨(Heap.live_modify ..).trans (Heap.live_alloc ..), ?_⟩
          unfold memdbNodes
          rw [Heap.live_modify, Heap.card_live_alloc]
    next => exact absurd h (by simp)

/-- Where there is a record, nothing happens but that the node was allocated. -/
theorem memdbAddLocked_record (hr : Rep hashkey db view) {a : Nat} {v : List Bytes} {stamp : Int}
    (hv : view key = some (a, .value v stamp)) (e : Entry) :
    memdbAddLocked hashkey (e.toMement key) db
      = some (0, { db with heap := db.heap.alloc ⟨e.toMement key, none⟩ }) := by
  obtain ⟨chains, pre, post, h, -, hl, hpre⟩ := hr.slot hv
  have hmem : (⟨a, key, .value v stamp⟩ : Slot) ∈ chains (hashkey key) := by rw [hl]; simp
  have halloc := h.alloc ⟨e.toMement key, none⟩
  obtain ⟨head, hhead⟩ := h.head hmem
  obtain ⟨nx, hn⟩ := halloc.cell hmem
  have hn' : (db.heap.alloc ⟨e.toMement key, none⟩).cell a
      = some ⟨Entry.toMement key (.value v stamp), nx⟩ := hn
  have hwalk := addWalk halloc hl (Or.inl rfl) hpre hhead
  have hkey : sameKey key ⟨Entry.toMement key (.value v stamp), nx⟩ = true := by simp [sameKey]
  unfold memdbAddLocked
  simp only [Entry.toMement_key]
  rw [hhead]
  simp only [hwalk, hn', hkey, if_true]
  rfl

/-- The locked section of `memdb_add` loses its node if there is a record. -/
theorem memdbAddLocked_adrift (hr : Rep hashkey db view) (key : Bytes) (e : Entry) {rc : Int}
    (h : memdbAddLocked hashkey (e.toMement key) db = some (rc, db')) :
    memdbAdrift db' = memdbAdrift db + (if hasRecord hashkey key db then 1 else 0) := by
  obtain ⟨db'', hadd⟩ := memdbAddLocked_rep hr key e
  obtain ⟨-, rfl⟩ := Prod.mk.inj (Option.some.inj (hadd.run.symm.trans h))
  have hrep := hadd.rep
  have hsize := hadd.size
  unfold memdbAdrift
  cases hv : view key with
  | none =>
    have hno : hasRecord hashkey key db = false := by
      rw [← Bool.not_eq_true, hasRecord_eq hr, hv]
      simp
    rw [addView_of_not_value fun p v stamp => by rw [hv]; simp] at hrep
    rw [hv, Option.isNone_none, if_pos rfl] at hsize
    rw [linked_insert hr hrep hv, hno, if_neg Bool.false_ne_true]
    rcases memdbAddLocked_nodes h with ⟨-, hnodes⟩ | ⟨-, hsame⟩
    · rw [hnodes]
      push_cast
      omega
    · omega
  | some x =>
    obtain ⟨a, old⟩ := x
    cases old with
    | null expire stamp =>
      have hno : hasRecord hashkey key db = false := by
        rw [← Bool.not_eq_true, hasRecord_eq hr, hv]
        simp
      rw [addView_of_not_value fun p v stamp => by rw [hv]; simp] at hrep
      rw [linked_same hr hrep (update_eq_none_iff hv), hno, if_neg Bool.false_ne_true]
      rcases memdbAddLocked_nodes h with ⟨hlive, -⟩ | ⟨hnodes, -⟩
      · -- the non-result is freed
        have hgone := (hadd.freed a expire stamp hv).2
        have hmem : a ∈ db''.heap.live := by
          rw [hlive]
          exact Finset.mem_insert_of_mem (Heap.mem_live.mpr (hr.live hv))
        exact absurd hgone (Heap.mem_live.mp hmem)
      · rw [hnodes, Int.add_zero]
    | value v stamp =>
      have hyes : hasRecord hashkey key db = true := (hasRecord_eq hr key).mpr ⟨a, v, stamp, hv⟩
      -- the record stays, and the new node is linked nowhere
      rw [addView_of_value hv] at hrep
      rw [linked_same hr hrep fun _ => Iff.rfl, hyes, if_pos rfl]
      rw [memdbAddLocked_record hr hv] at h
      obtain ⟨-, rfl⟩ := Prod.mk.inj (Option.some.inj h)
      unfold memdbNodes
      rw [Heap.card_live_alloc]
      push_cast
      omega

theorem memdbUnlink_nodes {p : Nat} (hp : db.heap.cell p ≠ none) (key : Bytes)
    (q next : Option Nat) :
    memdbNodes (memdbUnlink hashkey key q p next db) + 1 = memdbNodes db := by
  have hlive : (relink db.heap (db.bucket (hashkey key)) q next).1.cell p ≠ none := by
    rw [← Heap.mem_live, relink_live, Heap.mem_live]
    exact hp
  have hcard := Heap.card_live_free hlive
  rw [relink_live] at hcard
  exact hcard

/-- What `memdb_get` does with the nodes: nothing, or it frees one. -/
theorem memdbGet_nodes {now cdbMtime rc : Int} {vals vals' : List Bytes}
    (h : memdbGet hashkey now cdbMtime key vals db = some (rc, vals', db')) :
    db' = db ∨ memdbNodes db' + 1 = memdbNodes db := by
  unfold memdbGet at h
  dsimp only at h
  split at h
  next => exact absurd h (by simp)
  next =>
    obtain ⟨-, -, rfl⟩ := by simpa using h
    exact Or.inl rfl
  next q p hfind =>
    split at h
    next => exact absurd h (by simp)
    next n hn =>
      have hp : db.heap.cell p ≠ none := by
        rw [hn]
        simp
      have hgone : ∀ vals, some ((-1 : Int), vals, memdbUnlink hashkey key q p n.next db)
          = some (rc, vals', db') → db' = db ∨ memdbNodes db' + 1 = memdbNodes db := by
        intro vals heq
        obtain ⟨-, -, rfl⟩ := by simpa using heq
        exact Or.inr (memdbUnlink_nodes hp ..)
      have hfound : ∀ (rc₀ : Int) (vals : List Bytes),
          some (rc₀, vals, db) = some (rc, vals', db') →
          db' = db ∨ memdbNodes db' + 1 = memdbNodes db := by
        intro rc₀ vals heq
        obtain ⟨-, -, rfl⟩ := by simpa using heq
        exact Or.inl rfl
      cases htype : n.ent.type with
      | del =>
        simp only [htype] at h
        exact hfound _ _ h
      | expire =>
        simp only [htype] at h
        split at h
        · split at h
          · exact hgone _ h
          · exact hfound _ _ h
        · exact hfound _ _ h
      | upd =>
        simp only [htype] at h
        split at h
        · split at h
          · exact hgone _ h
          · exact hfound _ _ h
        · exact hfound _ _ h
      | tryval =>
        simp only [htype] at h
        split at h
        · split at h
          · exact hgone _ h
          · exact hfound _ _ h
        · exact hfound _ _ h

/-- `memdb_get` frees what it unlinks. -/
theorem memdbGet_adrift (hr : Rep hashkey db view) {now cdbMtime rc : Int} {vals : List Bytes}
    (h : memdbGet hashkey now cdbMtime key [] db = some (rc, vals, db')) :
    memdbAdrift db' = memdbAdrift db := by
  cases hv : view key with
  | none =>
    rw [memdbGet_absent hr hv] at h
    obtain ⟨-, -, rfl⟩ := by simpa using h
    rfl
  | some x =>
    obtain ⟨a, e⟩ := x
    cases hg : e.gone now cdbMtime with
    | false =>
      rw [memdbGet_live hr hv hg] at h
      obtain ⟨-, -, rfl⟩ := by simpa using h
      rfl
    | true =>
      obtain ⟨db'', hrun, hrep, hdead, -, -⟩ := memdbGet_gone hr hv hg []
      rw [hrun] at h
      obtain ⟨-, -, rfl⟩ := by simpa using h
      have hlinked := linked_erase hr hrep (by rw [hv]; simp)
      unfold memdbAdrift
      rcases memdbGet_nodes hrun with rfl | hnodes
      · exact absurd hdead.2 (hr.live hv)
      · omega

/-- `memdb_upd` writes where its pointer leads. -/
theorem memdbUpdWrite_adrift (hr : Rep hashkey db view) {p : Nat}
    (hp : db.heap.Dead p ∨ ∃ e, view key = some (p, e)) (now : Int) (vals : List Bytes) :
    memdbAdrift (memdbUpdWrite p now vals db) = memdbAdrift db := by
  have hnodes : memdbNodes (memdbUpdWrite p now vals db) = memdbNodes db :=
    congrArg Finset.card (Heap.live_modify ..)
  unfold memdbAdrift
  rw [hnodes]
  rcases hp with hdead | ⟨e, hv⟩
  · rw [linked_same hr (memdbUpdWrite_dangling hdead.2 now vals hr) fun _ => Iff.rfl]
  · rw [linked_same hr (memdbUpdWrite_rep hr hv now vals) (update_eq_none_iff hv)]

end Sections

/-! ## Runs -/

/-- One step of any thread. -/
theorem cacheStep_adrift {s s' : CacheSys} {act : CacheAct} {o : CacheOut}
    {view : Bytes → Option (Nat × Entry)} (h : CacheInv hashkey s view)
    (hstep : cacheStep hashkey nullCacheTimeout s act = some (o, s')) :
    memdbAdrift s'.db = memdbAdrift s.db + (if AddsBeside hashkey s act then 1 else 0) := by
  cases cacheStep_move hstep with
  | get hth hrun => exact (memdbGet_adrift h.rep hrun).trans (Int.add_zero _).symm
  | @addLocked t ent rc db' hth hrun =>
    have hok := h.threads t
    rw [hth] at hok
    obtain ⟨key, e, rfl⟩ := hok
    simp only [AddsBeside, hth, Entry.toMement_key]
    exact memdbAddLocked_adrift h.rep key e hrun
  | @updAddLocked t ent rc db' hth hrun =>
    have hok := h.threads t
    rw [hth] at hok
    obtain ⟨key, vals, stamp, rfl⟩ := hok
    simp only [AddsBeside, hth, Entry.toMement_key]
    exact memdbAddLocked_adrift h.rep key _ hrun
  | @updWrite t key vals p now hth =>
    have hok := h.threads t
    rw [hth] at hok
    exact (memdbUpdWrite_adrift h.rep hok now vals).trans (Int.add_zero _).symm
  | addStart hth => exact (Int.add_zero _).symm
  | updRefused hth hlen => exact (Int.add_zero _).symm
  | updStart hth hlen => exact (Int.add_zero _).symm
  | updMissing hth hfind => exact (Int.add_zero _).symm
  | updFound hth hfind => exact (Int.add_zero _).symm
  | reload hfc => exact (Int.add_zero _).symm

section Builders

variable {s s' : CacheSys} {t : Nat} {th th' : CacheThread}

/-- What becomes of the nodes in hand when a thread moves on. -/
theorem builders_moved (h : s'.thread = Function.update s.thread t th') :
    s'.builders = if th'.builds then insert t s.builders else s.builders \ {t} := by
  unfold CacheSys.builders
  rw [h]
  ext u
  by_cases hu : u = t
  · subst hu
    cases hb : th'.builds <;> simp [hb]
  · cases hb : th'.builds <;> simp [hu]

/-- And of their number. -/
theorem card_builders_moved (hfin : s.builders.Finite) (hth : s.thread t = th)
    (h : s'.thread = Function.update s.thread t th') :
    s'.builders.Finite ∧
      (s'.builders.ncard : Int) = s.builders.ncard + (if th'.builds then 1 else 0)
        - (if th.builds then 1 else 0) := by
  rw [builders_moved h, ← hth]
  by_cases hmem : t ∈ s.builders
  · have hold : (s.thread t).builds = true := hmem
    rw [if_pos hold]
    cases hb : th'.builds with
    | true =>
      rw [if_pos rfl, if_pos rfl, Set.insert_eq_of_mem hmem]
      exact ⟨hfin, by omega⟩
    | false =>
      rw [if_neg Bool.false_ne_true, if_neg Bool.false_ne_true]
      have hcard := Set.ncard_sdiff_singleton_add_one hmem hfin
      exact ⟨hfin.subset Set.sdiff_subset, by omega⟩
  · have hold : ¬ (s.thread t).builds = true := hmem
    rw [if_neg hold]
    cases hb : th'.builds with
    | true =>
      rw [if_pos rfl, if_pos rfl, Set.ncard_insert_of_notMem hmem hfin]
      exact ⟨hfin.insert t, by push_cast; omega⟩
    | false =>
      rw [if_neg Bool.false_ne_true, if_neg Bool.false_ne_true,
        Set.sdiff_singleton_eq_self hmem]
      exact ⟨hfin, by omega⟩

end Builders

/-- The nodes of the heap that are not linked, less those in hand. -/
noncomputable def CacheSys.balance (s : CacheSys) : Int :=
  -(memdbLinked s.db : Int) - s.builders.ncard

/-- What a step of the cache allocates is linked or in hand, but for what `AddsBeside` says. -/
theorem cacheStep_balance {s s' : CacheSys} {act : CacheAct} {o : CacheOut}
    {view : Bytes → Option (Nat × Entry)} (h : CacheInv hashkey s view) (hfin : s.builders.Finite)
    (hstep : cacheStep hashkey nullCacheTimeout s act = some (o, s')) :
    s'.builders.Finite ∧
      s'.balance + nodesGained s s' act
        = s.balance + (if AddsBeside hashkey s act then 1 else 0) := by
  have hadrift := cacheStep_adrift h hstep
  unfold memdbAdrift at hadrift
  unfold CacheSys.balance
  -- what is gained is in the heap, or in the hand of the thread that moves on
  have hmoves : ∀ {t : Nat} {th th' : CacheThread}, s.thread t = th →
      s'.thread = Function.update s.thread t th' →
      nodesGained s s' act = (memdbNodes s'.db : Int) - memdbNodes s.db
        + ((if th'.builds then 1 else 0) - (if th.builds then 1 else 0)) →
      s'.builders.Finite ∧
        -(memdbLinked s'.db : Int) - s'.builders.ncard + nodesGained s s' act
          = -(memdbLinked s.db : Int) - s.builders.ncard
            + (if AddsBeside hashkey s act then 1 else 0) := by
    intro t th th' hth hmove hgain
    obtain ⟨hfin', hcard⟩ := card_builders_moved hfin hth hmove
    rw [hgain]
    exact ⟨hfin', by omega⟩
  cases cacheStep_move hstep with
  | get hth hrun =>
    refine hmoves hth (Function.update_eq_self_iff.mpr hth.symm).symm ?_
    simp [nodesGained]
  | @addStart t key vals now hth =>
    refine hmoves hth rfl ?_
    simp [nodesGained, CacheThread.builds, CacheSys.goto]
  | @addLocked t ent rc db' hth hrun =>
    refine hmoves hth rfl ?_
    simp only [nodesGained, CacheThread.builds, if_true, Bool.false_eq_true, if_false]
    omega
  | @updAddLocked t ent rc db' hth hrun =>
    refine hmoves hth rfl ?_
    simp only [nodesGained, CacheThread.builds, if_true, Bool.false_eq_true, if_false]
    omega
  | @updRefused t key vals hth hlen =>
    refine hmoves hth (Function.update_eq_self_iff.mpr hth.symm).symm ?_
    simp [nodesGained]
  | @updStart t key vals hth hlen =>
    refine hmoves hth rfl ?_
    simp [nodesGained, CacheThread.builds, CacheSys.goto]
  | @updMissing t key vals now hth hfind =>
    refine hmoves hth rfl ?_
    simp [nodesGained, CacheThread.builds, CacheSys.goto]
  | @updFound t key vals now p hth hfind =>
    refine hmoves hth rfl ?_
    simp [nodesGained, CacheThread.builds, CacheSys.goto]
  | @updWrite t key vals p now hth =>
    refine hmoves hth rfl ?_
    simp [nodesGained, CacheThread.builds]
  | @reload mtime fieldcount hfc =>
    refine hmoves rfl (Function.update_eq_self 0 s.thread).symm ?_
    simp [nodesGained]

theorem nodesLeft_eq (first : Bool) : nodesLeft first = if (!first) = true then 1 else 0 := by
  cases first with
  | false => rfl
  | true => rfl

/-- One step of any thread, or a call that fails. -/
theorem nodeStep_balance {s s' : NodeSys} {act : NodeAct} {o : CacheOut}
    (h : (∃ view, CacheInv hashkey s.cache view) ∧ s.cache.builders.Finite)
    (hstep : nodeStep hashkey nullCacheTimeout s act = some (o, s')) :
    s'.allocated + s'.cache.balance
        = s.allocated + s.cache.balance + (if LosesNode hashkey s act then 1 else 0) ∧
      (∃ view, CacheInv hashkey s'.cache view) ∧ s'.cache.builders.Finite := by
  obtain ⟨⟨view, hinv⟩, hfin⟩ := h
  cases act with
  | cache act =>
    obtain ⟨⟨o', cache⟩, hcache, heq⟩ := Option.map_eq_some_iff.mp hstep
    obtain ⟨rfl, rfl⟩ := Prod.mk.inj heq
    obtain ⟨view', hinv', -⟩ := cacheStep_inv hinv hcache
    obtain ⟨hfin', hbalance⟩ := cacheStep_balance hinv hfin hcache
    refine ⟨?_, ⟨view', hinv'⟩, hfin'⟩
    unfold LosesNode
    dsimp only
    omega
  | addFails t first =>
    unfold nodeStep at hstep
    dsimp only at hstep
    split at hstep
    · obtain ⟨-, rfl⟩ := Prod.mk.inj (Option.some.inj hstep)
      refine ⟨?_, ⟨view, hinv⟩, hfin⟩
      unfold LosesNode
      dsimp only
      rw [nodesLeft_eq]
      omega
    · exact absurd hstep (by simp)
  | updAddFails t first =>
    unfold nodeStep at hstep
    dsimp only at hstep
    split at hstep
    next key vals hth =>
      split at hstep
      · obtain ⟨-, rfl⟩ := Prod.mk.inj (Option.some.inj hstep)
        have hidle : (s.cache.goto t .idle).builders = if CacheThread.idle.builds
            then insert t s.cache.builders else s.cache.builders \ {t} := builders_moved rfl
        have hnot : t ∉ s.cache.builders := by
          simp [CacheSys.builders, hth, CacheThread.builds]
        rw [if_neg (by decide), Set.sdiff_singleton_eq_self hnot] at hidle
        have hdb : (s.cache.goto t .idle).db = s.cache.db := rfl
        refine ⟨?_, ⟨view, hinv.goto hinv.stay trivial⟩, hidle ▸ hfin⟩
        unfold CacheSys.balance LosesNode
        dsimp only
        rw [hidle, hdb, nodesLeft_eq]
        omega
      · exact absurd hstep (by simp)
    next => exact absurd hstep (by simp)

/-- **What the cache loses.** After any run of any threads, with any calls of `memdb_add` that
fail, every linked node is in the heap, and the nodes that are allocated are the linked ones,
one for each thread on its way to the lock of `memdb_add`, and one for each `memdb_add` that
found a record under its key or failed with its node built. -/
theorem cache_nodes (hashkey : Bytes → Fin HASHSIZE) (nullCacheTimeout : Int) {mtime : Int}
    {fieldcount : Nat} (hfc : 1 ≤ fieldcount) {acts : List NodeAct} {os : List CacheOut}
    {s : NodeSys}
    (hrun : runs (nodeStep hashkey nullCacheTimeout) (nodeInit mtime fieldcount) acts
      = some (os, s)) :
    (∀ key p, memdbUpdFind hashkey key s.cache.db = some (some p) →
        s.cache.db.heap.cell p ≠ none) ∧
      s.cache.builders.Finite ∧
      s.allocated = memdbLinked s.cache.db + s.cache.builders.ncard +
        stepsWith (nodeStep hashkey nullCacheTimeout) (LosesNode hashkey)
          (nodeInit mtime fieldcount) acts := by
  let I : NodeSys → Prop := fun s =>
    (∃ view, CacheInv hashkey s.cache view) ∧ s.cache.builders.Finite
  have hnone : (nodeInit mtime fieldcount).cache.builders = ∅ := by
    ext t
    simp [CacheSys.builders, nodeInit, cacheInit, CacheThread.builds]
  have hinit : I (nodeInit mtime fieldcount) :=
    ⟨⟨_, memdbNew_rep, hfc, fun _ => trivial⟩, hnone ▸ Set.finite_empty⟩
  obtain ⟨⟨view, h⟩, hfin⟩ : I s :=
    runs_invariant (fun _ _ _ _ hI _ hstep => (nodeStep_balance hI hstep).2) hinit
      guarded_true hrun
  refine ⟨fun key p hfind => ?_, hfin, ?_⟩
  · rw [memdbUpdFind_eq h.rep key] at hfind
    obtain ⟨ae, hv, rfl⟩ := Option.map_eq_some_iff.mp (Option.some.inj hfind)
    exact h.rep.live hv
  · have hcount := runs_count (m := fun s : NodeSys => s.allocated + s.cache.balance) (I := I)
      (p := LosesNode hashkey) (fun s act o s' hI hstep => by exact nodeStep_balance hI hstep)
      hinit hrun
    have hstart : (nodeInit mtime fieldcount).cache.balance = 0 := by
      have hlinked : memdbLinked (nodeInit mtime fieldcount).cache.db = 0 :=
        Finset.sum_eq_zero fun _ _ => rfl
      unfold CacheSys.balance
      rw [hlinked, hnone, Set.ncard_empty]
      rfl
    rw [hstart] at hcount
    unfold CacheSys.balance at hcount
    have hzero : (nodeInit mtime fieldcount).allocated = 0 := rfl
    omega

/-- Two fallthrough results for one key, of which the second is lost; a third that has not had
the lock; and a call that fails with its node built. -/
theorem cache_nodes_four :
    ∃ os s, runs (nodeStep (fun _ => 0) 60) (nodeInit 0 1)
        [.cache (.addStart 1 [1] [[7]] 5), .cache (.addStart 2 [1] [[7]] 6), .addFails 3 false,
          .cache (.addLocked 1), .cache (.addStart 1 [2] [[8]] 7), .cache (.addLocked 2)]
        = some (os, s) ∧
      s.allocated = memdbLinked s.cache.db + s.cache.builders.ncard + 2 := by
  have hrun : (runs (nodeStep (fun _ => 0) 60) (nodeInit 0 1)
        [.cache (.addStart 1 [1] [[7]] 5), .cache (.addStart 2 [1] [[7]] 6), .addFails 3 false,
          .cache (.addLocked 1), .cache (.addStart 1 [2] [[8]] 7), .cache (.addLocked 2)]).isSome
      = true := rfl
  obtain ⟨⟨os, s⟩, hrun⟩ := Option.isSome_iff_exists.mp hrun
  exact ⟨os, s, hrun, (cache_nodes (fun _ => 0) 60 (by decide) hrun).2.2⟩

end Nastd.Server
