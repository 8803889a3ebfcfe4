import Nastd.Server.MemdbRep
import Nastd.Server.RwLock

/-!
# What the cache does under which lock

The operations of `server/memdb.c` once more, each with the trace of what it does to
`memdb_lk` and to what the lock is there for: `readLock`, `writeLock` and `unlock` are its
calls, `change` is one write to, unlinking of or freeing of an entry in a chain or a
bucket head. An entry that `memdb_add` has not linked yet is its own; the counters are
not in the cache. Allocations succeed, and a call runs alone. Results and caches are those
of `Server.Memdb` (`memdbGetTraced_run` and its like).

* `Disciplined`: a lock is asked for by a thread that holds none, given back, and every
  change is made by a writer.
* `lock_discipline_iff`: which runs of which operations are disciplined.
* `memdbTrace_some`: over sound chains every operation has its run.
-/

namespace Nastd.Server

open Nastd.Lib

inductive LockEvent where
  | readLock
  | writeLock
  | unlock
  | change
  deriving DecidableEq, Repr

/-! ## The discipline -/

/-- What a thread holds after an event. -/
def lockAfter : Option Mode → LockEvent → Option Mode
  | _, .readLock => some .read
  | _, .writeLock => some .write
  | _, .unlock => none
  | held, .change => held

/-- What a thread that held `held` holds after `tr`. -/
def heldAfter (held : Option Mode) (tr : List LockEvent) : Option Mode := tr.foldl lockAfter held

/-- The rule, for a trace that starts with `held`. -/
structure DisciplinedFrom (held : Option Mode) (tr : List LockEvent) : Prop where
  asks : ∀ pre e post, tr = pre ++ e :: post → e = .readLock ∨ e = .writeLock →
    heldAfter held pre = none
  gives : heldAfter held tr = none
  changes : ∀ pre post, tr = pre ++ .change :: post → heldAfter held pre = some .write

/-- The thread asks for the lock only when it does not hold it, holds nothing when the call
returns, and changes the cache only between a write lock and its unlock. -/
def Disciplined (tr : List LockEvent) : Prop := DisciplinedFrom none tr

/-- The rule for the first event. -/
def lockOk : Option Mode → LockEvent → Bool
  | held, .readLock => held.isNone
  | held, .writeLock => held.isNone
  | _, .unlock => true
  | held, .change => decide (held = some .write)

/-- The rule, one event after the other. -/
def lockCheck : Option Mode → List LockEvent → Bool
  | held, [] => held.isNone
  | held, e :: tr => lockOk held e && lockCheck (lockAfter held e) tr

theorem disciplinedFrom_cons {held : Option Mode} {e : LockEvent} {tr : List LockEvent} :
    DisciplinedFrom held (e :: tr) ↔
      lockOk held e = true ∧ DisciplinedFrom (lockAfter held e) tr := by
  constructor
  · intro h
    refine ⟨?_, ?_, h.gives, ?_⟩
    · cases e with
      | readLock =>
        exact Option.isNone_iff_eq_none.mpr (h.asks [] _ tr rfl (Or.inl rfl))
      | writeLock =>
        exact Option.isNone_iff_eq_none.mpr (h.asks [] _ tr rfl (Or.inr rfl))
      | unlock => rfl
      | change => exact decide_eq_true (h.changes [] tr rfl)
    · rintro pre e' post rfl he
      exact h.asks (e :: pre) e' post rfl he
    · rintro pre post rfl
      exact h.changes (e :: pre) post rfl
  · intro ⟨hok, h⟩
    refine ⟨?_, h.gives, ?_⟩
    · intro pre e' post heq he
      cases pre with
      | nil =>
        obtain ⟨rfl, -⟩ := List.cons.inj heq
        rcases he with rfl | rfl
        · exact Option.isNone_iff_eq_none.mp hok
        · exact Option.isNone_iff_eq_none.mp hok
      | cons x pre =>
        obtain ⟨rfl, rfl⟩ := List.cons.inj heq
        exact h.asks pre e' post rfl he
    · intro pre post heq
      cases pre with
      | nil =>
        obtain ⟨rfl, -⟩ := List.cons.inj heq
        exact of_decide_eq_true hok
      | cons x pre =>
        obtain ⟨rfl, rfl⟩ := List.cons.inj heq
        exact h.changes pre post rfl

/-- The rule can be checked. -/
theorem disciplinedFrom_iff {held : Option Mode} {tr : List LockEvent} :
    DisciplinedFrom held tr ↔ lockCheck held tr = true := by
  induction tr generalizing held with
  | nil =>
    rw [lockCheck, Option.isNone_iff_eq_none]
    refine ⟨fun h => h.gives, fun h => ⟨?_, h, ?_⟩⟩
    · intro pre e post heq
      exact absurd heq (by simp)
    · intro pre post heq
      exact absurd heq (by simp)
  | cons e tr ih => rw [disciplinedFrom_cons, ih, lockCheck, Bool.and_eq_true]

instance (tr : List LockEvent) : Decidable (Disciplined tr) :=
  decidable_of_iff _ disciplinedFrom_iff.symm

/-- A disciplined call may be followed by another. -/
theorem lockCheck_append {held : Option Mode} {a b : List LockEvent}
    (ha : lockCheck held a = true) : lockCheck held (a ++ b) = lockCheck none b := by
  induction a generalizing held with
  | nil =>
    obtain rfl := Option.isNone_iff_eq_none.mp ha
    rfl
  | cons e a ih =>
    rw [lockCheck, Bool.and_eq_true] at ha
    rw [List.cons_append, lockCheck, ha.1, ih ha.2, Bool.true_and]

/-- A writer may make any number of changes. -/
theorem lockCheck_changes (n : Nat) (tr : List LockEvent) :
    lockCheck (some .write) (List.replicate n .change ++ tr) = lockCheck (some .write) tr := by
  induction n with
  | zero => rfl
  | succ n ih =>
    rw [List.replicate_succ, List.cons_append, lockCheck, lockAfter, ih]
    rfl

/-! ## The operations -/

/-- What the operations read besides the cache: the clock, `cdb_mtime`, and two settings. -/
structure MemdbEnv where
  now : Int
  cdbMtime : Int
  nullCacheTimeout : Int
  dbFieldcount : Nat

section Ops

variable (hashkey : Bytes → Fin HASHSIZE)

/-- The loop of `memdb_delete` over one chain; two changes for each entry. -/
def freeChain : Nat → Heap Mement → Option Nat → Option (List LockEvent × Heap Mement)
  | _, heap, none => some ([], heap)
  | 0, _, some _ => none
  | fuel + 1, heap, some p =>
    match heap.cell p with
    | none => none
    | some n =>
      match freeChain fuel (heap.free p) n.next with
      | none => none
      | some (tr, heap') => some (.change :: .change :: tr, heap')

/-- The loop of `memdb_delete` over the buckets. -/
def freeChains (fuel : Nat) (bucket : Fin HASHSIZE → Option Nat) :
    List (Fin HASHSIZE) → Heap Mement → Option (List LockEvent × Heap Mement)
  | [], heap => some ([], heap)
  | i :: is, heap =>
    match freeChain fuel heap (bucket i) with
    | none => none
    | some (tr, heap') =>
      match freeChains fuel bucket is heap' with
      | none => none
      | some (tr', heap'') => some (tr ++ tr', heap'')

/-- `memdb_delete`; it frees the buckets too. -/
def memdbDelete (db : Memdb) : Option (List LockEvent × Heap Mement) :=
  match freeChains db.heap.brk db.bucket (List.finRange HASHSIZE) db.heap with
  | none => none
  | some (tr, heap) => some (tr ++ [.change], heap)

/-- `memdb_new`, the first time or again. -/
def memdbNewTraced : Option Memdb → Option (List LockEvent × Int × Memdb)
  | none => some ([.writeLock, .change, .unlock], 0, memdbNew)
  | some db =>
    match memdbDelete db with
    | none => none
    | some (tr, heap) =>
      some (.writeLock :: tr ++ [.change, .unlock], 0, ⟨heap, fun _ => none, 0⟩)

/-- `memdb_add` from its write lock on. -/
def memdbAddTraced (ent : Mement) (db : Memdb) : Option (List LockEvent × Int × Memdb) :=
  let key := ent.key
  let a := db.heap.brk
  let heap := db.heap.alloc ⟨ent, none⟩
  match db.bucket (hashkey key) with
  | none =>
    some ([.writeLock, .change, .unlock], 0,
      { heap := heap
        bucket := Function.update db.bucket (hashkey key) (some a)
        memdbsize := db.memdbsize + 1 })
  | some head =>
    match walk (fun n => n.next.isNone || sameKey key n) heap heap.brk none (some head) with
    | some (q, some p) =>
      match heap.cell p with
      | none => none
      | some n =>
        if sameKey key n then
          match n.ent.type with
          | .expire | .del =>
            let r := relink heap (some head) q (some a)
            -- linked in, given its successor; the old entry emptied and freed
            some ([.writeLock, .change, .change, .change, .change, .unlock], 0,
              { heap := (r.1.modify a fun m => { m with next := n.next }).free p
                bucket := Function.update db.bucket (hashkey key) r.2
                memdbsize := db.memdbsize })
          | .upd | .tryval => some ([.writeLock, .unlock], 0, { db with heap := heap })
        else
          some ([.writeLock, .change, .unlock], 0,
            { heap := heap.modify p fun m => { m with next := some a }
              bucket := db.bucket
              memdbsize := db.memdbsize + 1 })
    | _ => none

/-- `memdb_get`. It takes the read lock, also for what it drops. -/
def memdbGetTraced (now cdbMtime : Int) (key : Bytes) (vals : List Bytes) (db : Memdb) :
    Option (List LockEvent × Int × List Bytes × Memdb) :=
  match memdbFind hashkey key db with
  | none => none
  | some (_, none) => some ([.readLock, .unlock], -1, vals, db)
  | some (q, some p) =>
    match db.heap.cell p with
    | none => none
    | some n =>
      -- `ent_delete`, the link before it, `free`
      let gone := some ([.readLock, .change, .change, .change, .unlock], -1, vals,
        memdbUnlink hashkey key q p n.next db)
      let found := some ([.readLock, .unlock], 0, n.ent.vals, db)
      match n.ent.type with
      | .del => some ([.readLock, .unlock], 0, vals, db)
      | .expire =>
        match n.ent.typeval with
        | some expire => if now ≥ expire then gone else found
        | none => found
      | .upd | .tryval =>
        match n.ent.updTime with
        | some updTime => if cdbMtime > updTime then gone else found
        | none => found

/-- `memdb_upd`. It gives the read lock back before it asks for the write lock. -/
def memdbUpdTraced (env : MemdbEnv) (key : Bytes) (vals : List Bytes) (db : Memdb) :
    Option (List LockEvent × Int × Memdb) :=
  if vals.length ≠ env.dbFieldcount then some ([], -1, db)
  else
    match memdbUpdFind hashkey key db with
    | none => none
    | some none =>
      match memdbAddTraced hashkey (memdbAddEnt env.nullCacheTimeout env.now key vals) db with
      | none => none
      | some (tr, rc, db') => some ([.readLock, .unlock] ++ tr, rc, db')
    | some (some p) =>
      -- `type`, `typeval`, `*upd_time`, the old `vals`, the new pointer, its contents
      some ([.readLock, .unlock, .writeLock] ++ List.replicate 6 .change ++ [.unlock], 0,
        memdbUpdWrite p env.now vals db)

/-- What `memdb_del` leaves of an entry. It frees `vals` and keeps the pointer. -/
def memdbMark (p : Nat) (db : Memdb) : Memdb :=
  { db with
    heap := db.heap.modify p fun n =>
      { n with ent := { n.ent with type := .del, typeval := none, vals := [] } } }

/-- `memdb_del`: a key without an entry gets one first, and then the call starts over. It
asks for the write lock with the read lock in its hands. -/
def memdbDelTraced (env : MemdbEnv) (key : Bytes) : Nat → Memdb →
    Option (List LockEvent × Int × Memdb)
  | 0, _ => none
  | fuel + 1, db =>
    match memdbFind hashkey key db with
    | none => none
    | some (_, none) =>
      match memdbAddTraced hashkey (memdbAddEnt env.nullCacheTimeout env.now key []) db with
      | none => none
      | some (tr, _, db') =>
        match memdbDelTraced env key fuel db' with
        | none => none
        | some (tr', rc, db'') => some ([.readLock, .unlock] ++ tr ++ tr', rc, db'')
    | some (_, some p) =>
      match db.heap.cell p with
      | none => none
      | some n =>
        let typeval := if n.ent.typeval.isSome then [LockEvent.change, .change] else []
        some ([.readLock, .writeLock] ++ typeval ++ [.change, .change, .unlock], 0,
          memdbMark p db)

inductive MemdbOp where
  | new
  | add (key : Bytes) (vals : List Bytes)
  | del (key : Bytes)
  | get (key : Bytes) (vals : List Bytes)
  | upd (key : Bytes) (vals : List Bytes)

/-- One operation run on the cache: its trace and the cache afterwards. Only `memdb_new` can
run before there is one. -/
def memdbTrace (env : MemdbEnv) (fuel : Nat) : MemdbOp → Option Memdb →
    Option (List LockEvent × Memdb)
  | .new, memdb => (memdbNewTraced memdb).map fun r => (r.1, r.2.2)
  | _, none => none
  | .add key vals, some db =>
    (memdbAddTraced hashkey (memdbAddEnt env.nullCacheTimeout env.now key vals) db).map
      fun r => (r.1, r.2.2)
  | .del key, some db => (memdbDelTraced hashkey env key fuel db).map fun r => (r.1, r.2.2)
  | .get key vals, some db =>
    (memdbGetTraced hashkey env.now env.cdbMtime key vals db).map fun r => (r.1, r.2.2.2)
  | .upd key vals, some db => (memdbUpdTraced hashkey env key vals db).map fun r => (r.1, r.2.2)

/-! ## The same results as without the traces -/

theorem memdbGetTraced_run (now cdbMtime : Int) (key : Bytes) (vals : List Bytes) (db : Memdb) :
    (memdbGetTraced hashkey now cdbMtime key vals db).map Prod.snd
      = memdbGet hashkey now cdbMtime key vals db := by
  unfold memdbGetTraced memdbGet
  rcases memdbFind hashkey key db with _ | ⟨q, _ | p⟩
  · rfl
  · rfl
  · rcases hcell : db.heap.cell p with _ | n
    · simp only [hcell]
      rfl
    · simp only [hcell]
      cases n.ent.type with
      | del => rfl
      | expire =>
        cases n.ent.typeval with
        | none => rfl
        | some expire => exact apply_ite _ _ _ _
      | upd =>
        cases n.ent.updTime with
        | none => rfl
        | some updTime => exact apply_ite _ _ _ _
      | tryval =>
        cases n.ent.updTime with
        | none => rfl
        | some updTime => exact apply_ite _ _ _ _

theorem memdbAddTraced_run (ent : Mement) (db : Memdb) :
    (memdbAddTraced hashkey ent db).map Prod.snd = memdbAddLocked hashkey ent db := by
  unfold memdbAddTraced memdbAddLocked
  dsimp only
  cases db.bucket (hashkey ent.key) with
  | none => rfl
  | some head =>
    dsimp only
    rcases walk (fun n => n.next.isNone || sameKey ent.key n) (db.heap.alloc ⟨ent, none⟩)
      (db.heap.alloc ⟨ent, none⟩).brk none (some head) with _ | ⟨q, _ | p⟩
    · rfl
    · rfl
    · rcases hcell : (db.heap.alloc ⟨ent, none⟩).cell p with _ | n
      · simp only [hcell]
        rfl
      · simp only [hcell]
        cases sameKey ent.key n with
        | false => rfl
        | true =>
          cases n.ent.type with
          | del => rfl
          | expire => rfl
          | upd => rfl
          | tryval => rfl

theorem memdbUpdTraced_run (env : MemdbEnv) (key : Bytes) (vals : List Bytes) (db : Memdb) :
    (memdbUpdTraced hashkey env key vals db).map Prod.snd
      = memdbUpd hashkey env.dbFieldcount env.nullCacheTimeout env.now key vals db := by
  unfold memdbUpdTraced memdbUpd
  by_cases hcount : vals.length ≠ env.dbFieldcount
  · rw [if_pos hcount, if_pos hcount]
    rfl
  · rw [if_neg hcount, if_neg hcount]
    rcases memdbUpdFind hashkey key db with _ | _ | p
    · rfl
    · dsimp only
      rw [memdbAdd, ← memdbAddTraced_run]
      cases memdbAddTraced hashkey (memdbAddEnt env.nullCacheTimeout env.now key vals) db with
      | none => rfl
      | some r => rfl
    · rfl

end Ops

/-! ## Which runs are disciplined -/

/-- `memdb_get` drops the entry: a non-result that has expired, or a record older than the
CDB. -/
def Mement.dropped (now cdbMtime : Int) (m : Mement) : Prop :=
  match m.type with
  | .del => False
  | .expire => ∃ expire, m.typeval = some expire ∧ now ≥ expire
  | .upd | .tryval => ∃ updTime, m.updTime = some updTime ∧ cdbMtime > updTime

variable {hashkey : Bytes → Fin HASHSIZE}

theorem freeChain_trace {fuel : Nat} {heap heap' : Heap Mement} {p : Option Nat}
    {tr : List LockEvent} (h : freeChain fuel heap p = some (tr, heap')) :
    ∃ n, tr = List.replicate n .change := by
  induction fuel generalizing heap heap' p tr with
  | zero =>
    cases p with
    | none =>
      obtain ⟨rfl, -⟩ := Prod.mk.inj (Option.some.inj h)
      exact ⟨0, rfl⟩
    | some a => exact absurd h (by simp [freeChain])
  | succ fuel ih =>
    cases p with
    | none =>
      obtain ⟨rfl, -⟩ := Prod.mk.inj (Option.some.inj h)
      exact ⟨0, rfl⟩
    | some a =>
      rw [freeChain] at h
      split at h
      · exact absurd h (by simp)
      next n _ =>
        split at h
        · exact absurd h (by simp)
        next tr' heap'' hrest =>
          obtain ⟨rfl, -⟩ := Prod.mk.inj (Option.some.inj h)
          obtain ⟨k, rfl⟩ := ih hrest
          exact ⟨k + 2, rfl⟩

theorem freeChains_trace {fuel : Nat} {bucket : Fin HASHSIZE → Option Nat}
    {is : List (Fin HASHSIZE)} {heap heap' : Heap Mement} {tr : List LockEvent}
    (h : freeChains fuel bucket is heap = some (tr, heap')) :
    ∃ n, tr = List.replicate n .change := by
  induction is generalizing heap heap' tr with
  | nil =>
    obtain ⟨rfl, -⟩ := Prod.mk.inj (Option.some.inj h)
    exact ⟨0, rfl⟩
  | cons i is ih =>
    rw [freeChains] at h
    split at h
    · exact absurd h (by simp)
    next tr₁ heap₁ hfirst =>
      split at h
      · exact absurd h (by simp)
      next tr₂ heap₂ hrest =>
        obtain ⟨rfl, -⟩ := Prod.mk.inj (Option.some.inj h)
        obtain ⟨n₁, rfl⟩ := freeChain_trace hfirst
        obtain ⟨n₂, rfl⟩ := ih hrest
        exact ⟨n₁ + n₂, (List.replicate_add n₁ n₂ _).symm⟩

theorem memdbNewTraced_check {memdb : Option Memdb} {tr : List LockEvent} {r : Int × Memdb}
    (h : memdbNewTraced memdb = some (tr, r)) : lockCheck none tr = true := by
  unfold memdbNewTraced at h
  split at h
  · obtain ⟨rfl, -⟩ := Prod.mk.inj (Option.some.inj h)
    rfl
  next db =>
    split at h
    · exact absurd h (by simp)
    next tr' heap hdel =>
      obtain ⟨rfl, -⟩ := Prod.mk.inj (Option.some.inj h)
      unfold memdbDelete at hdel
      split at hdel
      · exact absurd hdel (by simp)
      next tr'' heap' hchains =>
        obtain ⟨rfl, -⟩ := Prod.mk.inj (Option.some.inj hdel)
        obtain ⟨n, rfl⟩ := freeChains_trace hchains
        rw [List.cons_append, lockCheck, List.append_assoc]
        exact lockCheck_changes n _

theorem memdbAddTraced_check {ent : Mement} {db : Memdb} {tr : List LockEvent} {r : Int × Memdb}
    (h : memdbAddTraced hashkey ent db = some (tr, r)) : lockCheck none tr = true := by
  unfold memdbAddTraced at h
  dsimp only at h
  split at h
  · obtain ⟨rfl, -⟩ := Prod.mk.inj (Option.some.inj h)
    rfl
  · split at h
    · split at h
      · exact absurd h (by simp)
      next n _ =>
        split at h
        · cases ht : n.ent.type <;> rw [ht] at h <;>
            (obtain ⟨rfl, -⟩ := Prod.mk.inj (Option.some.inj h); rfl)
        · obtain ⟨rfl, -⟩ := Prod.mk.inj (Option.some.inj h)
          rfl
    · exact absurd h (by simp)

/-- An entry with a time is dropped if it is `gone` by then, and looked at otherwise. -/
theorem dropOrLook_check {ρ : Type} {time : Option Int} {gone : Int → Prop} [DecidablePred gone]
    {dropped found r : ρ} {tr : List LockEvent}
    (h : (match time with
      | some v =>
        if gone v then some ([.readLock, .change, .change, .change, .unlock], dropped)
        else some ([.readLock, .unlock], found)
      | none => some ([.readLock, .unlock], found)) = some (tr, r)) :
    lockCheck none tr = true ↔ ¬ ∃ v, time = some v ∧ gone v := by
  cases time with
  | none =>
    obtain ⟨rfl, -⟩ := Prod.mk.inj (Option.some.inj h)
    exact iff_of_true rfl (by simp)
  | some v =>
    dsimp only at h
    split at h
    next hgone =>
      obtain ⟨rfl, -⟩ := Prod.mk.inj (Option.some.inj h)
      exact iff_of_false (by decide) (not_not.mpr ⟨v, rfl, hgone⟩)
    next hlive =>
      obtain ⟨rfl, -⟩ := Prod.mk.inj (Option.some.inj h)
      refine iff_of_true rfl ?_
      intro ⟨v', hv, hgone⟩
      obtain rfl := Option.some.inj hv
      exact hlive hgone

/-- Under the read lock `memdb_get` may only look. -/
theorem memdbGetTraced_check {now cdbMtime : Int} {key : Bytes} {vals : List Bytes} {db : Memdb}
    {tr : List LockEvent} {r : Int × List Bytes × Memdb}
    (h : memdbGetTraced hashkey now cdbMtime key vals db = some (tr, r)) :
    lockCheck none tr = true ↔ ∀ q p n, memdbFind hashkey key db = some (q, some p) →
      db.heap.cell p = some n → ¬ n.ent.dropped now cdbMtime := by
  unfold memdbGetTraced at h
  split at h
  · exact absurd h (by simp)
  next hfind =>
    obtain ⟨rfl, -⟩ := Prod.mk.inj (Option.some.inj h)
    refine iff_of_true rfl fun q p n hfind' _ => ?_
    exact absurd (hfind.symm.trans hfind') (by simp)
  next q p hfind =>
    split at h
    · exact absurd h (by simp)
    next n hcell =>
      have hone : (∀ q p n, memdbFind hashkey key db = some (q, some p) →
          db.heap.cell p = some n → ¬ n.ent.dropped now cdbMtime)
          ↔ ¬ n.ent.dropped now cdbMtime := by
        constructor
        · exact fun hall => hall q p n hfind hcell
        · intro hn q' p' n' hfind' hcell'
          obtain ⟨-, hp⟩ := Prod.mk.inj (Option.some.inj (hfind.symm.trans hfind'))
          obtain rfl := Option.some.inj hp
          obtain rfl := Option.some.inj (hcell.symm.trans hcell')
          exact hn
      rw [hone]
      unfold Mement.dropped
      dsimp only at h
      cases ht : n.ent.type with
      | del =>
        rw [ht] at h
        obtain ⟨rfl, -⟩ := Prod.mk.inj (Option.some.inj h)
        exact iff_of_true rfl id
      | expire =>
        rw [ht] at h
        exact dropOrLook_check h
      | upd =>
        rw [ht] at h
        exact dropOrLook_check h
      | tryval =>
        rw [ht] at h
        exact dropOrLook_check h

theorem memdbUpdTraced_check {env : MemdbEnv} {key : Bytes} {vals : List Bytes} {db : Memdb}
    {tr : List LockEvent} {r : Int × Memdb}
    (h : memdbUpdTraced hashkey env key vals db = some (tr, r)) : lockCheck none tr = true := by
  unfold memdbUpdTraced at h
  split at h
  · obtain ⟨rfl, -⟩ := Prod.mk.inj (Option.some.inj h)
    rfl
  · split at h
    · exact absurd h (by simp)
    · split at h
      · exact absurd h (by simp)
      next tr' rc db' hadd =>
        obtain ⟨rfl, -⟩ := Prod.mk.inj (Option.some.inj h)
        rw [lockCheck_append rfl]
        exact memdbAddTraced_check hadd
    · obtain ⟨rfl, -⟩ := Prod.mk.inj (Option.some.inj h)
      rfl

/-- `memdb_del` ends in asking for the write lock while it reads, at once or after it has
added an entry. -/
theorem memdbDelTraced_check {env : MemdbEnv} {key : Bytes} {fuel : Nat} {db : Memdb}
    {tr : List LockEvent} {r : Int × Memdb}
    (h : memdbDelTraced hashkey env key fuel db = some (tr, r)) : lockCheck none tr = false := by
  induction fuel generalizing db tr r with
  | zero => exact absurd h (by simp [memdbDelTraced])
  | succ fuel ih =>
    rw [memdbDelTraced] at h
    split at h
    · exact absurd h (by simp)
    · split at h
      · exact absurd h (by simp)
      next tr₁ rc₁ db₁ hadd =>
        split at h
        · exact absurd h (by simp)
        next tr₂ rc₂ db₂ hagain =>
          obtain ⟨rfl, -⟩ := Prod.mk.inj (Option.some.inj h)
          have hfirst : lockCheck none ([.readLock, .unlock] ++ tr₁) = true := by
            rw [lockCheck_append rfl]
            exact memdbAddTraced_check hadd
          rw [lockCheck_append hfirst]
          exact ih hagain
    · split at h
      · exact absurd h (by simp)
      · obtain ⟨rfl, -⟩ := Prod.mk.inj (Option.some.inj h)
        rfl

/-! ## Every operation has its run -/

/-- Every bucket head leads along a chain, and no two chains share an entry. -/
structure SoundChains (db : Memdb) (chains : Fin HASHSIZE → List (Nat × Mement)) : Prop where
  chain : ∀ i, Seg db.heap (db.bucket i) (chains i) none
  apart : ∀ i j, i ≠ j → ∀ x ∈ chains i, ∀ y ∈ chains j, x.1 ≠ y.1

/-- The cache of the runs without deletions is sound. -/
theorem Wf.sound {db : Memdb} {chains : Chains} (h : Wf hashkey db chains) :
    SoundChains db fun i => (chains i).map Slot.node := by
  refine ⟨h.chain, fun i j hij x hx y hy heq => ?_⟩
  obtain ⟨s, hs, rfl⟩ := List.mem_map.mp hx
  obtain ⟨t, ht, rfl⟩ := List.mem_map.mp hy
  exact hij (h.same_bucket hs ht heq)

theorem freeChain_some {fuel : Nat} {heap : Heap Mement} {p : Option Nat}
    {l : List (Nat × Mement)} (h : Seg heap p l none) (hfuel : l.length ≤ fuel) :
    ∃ tr heap', freeChain fuel heap p = some (tr, heap') ∧
      ∀ b, b ∉ l.map Prod.fst → heap'.cell b = heap.cell b := by
  induction l generalizing fuel heap p with
  | nil =>
    obtain rfl := h
    exact ⟨[], heap, by rw [freeChain], fun _ _ => rfl⟩
  | cons x l ih =>
    obtain ⟨a, e⟩ := x
    have hnodup := h.nodup
    rw [List.map_cons, List.nodup_cons] at hnodup
    obtain ⟨rfl, n, hn, hl⟩ := h
    cases fuel with
    | zero => simp at hfuel
    | succ fuel =>
      have hframe : Seg (heap.free a) n l none :=
        hl.frame fun y hy =>
          have hya : y.1 ≠ a := by
            intro hya
            have hmem := List.mem_map_of_mem (f := Prod.fst) hy
            exact hnodup.1 (hya ▸ hmem)
          Heap.free_cell_ne hya
      obtain ⟨tr, heap', hrest, hkeep⟩ := ih hframe (by simpa using hfuel)
      refine ⟨.change :: .change :: tr, heap', ?_, fun b hb => ?_⟩
      · rw [freeChain, hn]
        simp only [hrest]
      · rw [List.map_cons, List.mem_cons, not_or] at hb
        rw [hkeep b hb.2, Heap.free_cell_ne hb.1]

theorem freeChains_some (fuel : Nat) {bucket : Fin HASHSIZE → Option Nat}
    {chains : Fin HASHSIZE → List (Nat × Mement)} {is : List (Fin HASHSIZE)}
    (heap : Heap Mement) (his : is.Nodup)
    (hchain : ∀ i ∈ is, Seg heap (bucket i) (chains i) none)
    (hfuel : ∀ i ∈ is, (chains i).length ≤ fuel)
    (hapart : ∀ i j, i ≠ j → ∀ x ∈ chains i, ∀ y ∈ chains j, x.1 ≠ y.1) :
    ∃ r, freeChains fuel bucket is heap = some r := by
  induction is generalizing heap with
  | nil => exact ⟨_, rfl⟩
  | cons i is ih =>
    obtain ⟨hi, his⟩ := List.nodup_cons.mp his
    obtain ⟨tr, heap', hfirst, hkeep⟩ :=
      freeChain_some (hchain i List.mem_cons_self) (hfuel i List.mem_cons_self)
    have hrest : ∀ j ∈ is, Seg heap' (bucket j) (chains j) none := by
      intro j hj
      refine (hchain j (List.mem_cons_of_mem _ hj)).frame fun y hy => hkeep y.1 fun hmem => ?_
      obtain ⟨x, hx, hxy⟩ := List.mem_map.mp hmem
      have hij : i ≠ j := fun hij => hi (hij ▸ hj)
      exact hapart i j hij x hx y hy hxy
    obtain ⟨⟨tr', heap''⟩, hr⟩ := ih _ his hrest fun j hj => hfuel j (List.mem_cons_of_mem _ hj)
    refine ⟨(tr ++ tr', heap''), ?_⟩
    rw [freeChains, hfirst]
    simp only [hr]

/-- The walk that starts `memdb_get`, `memdb_del` and `memdb_upd`, on a sound chain. -/
theorem memdbFind_cases {db : Memdb} {l : List (Nat × Mement)} {key : Bytes}
    (h : Seg db.heap (db.bucket (hashkey key)) l none) :
    (∃ q, memdbFind hashkey key db = some (q, none) ∧ ∀ x ∈ l, x.2.key ≠ key) ∨
    ∃ q p n, memdbFind hashkey key db = some (q, some p) ∧ db.heap.cell p = some n := by
  rcases walk_total (sameKey key) none h h.length_le with
    ⟨q, hw, hnone⟩ | ⟨q, p, n, hw, -, hn, -⟩
  · refine Or.inl ⟨q, hw, fun x hx hkey => ?_⟩
    obtain ⟨n, hn⟩ := h.cell (a := x.1) (e := x.2) hx
    exact absurd (hnone x hx _ hn) (by simp [sameKey, hkey])
  · exact Or.inr ⟨q, p, n, hw, hn⟩

/-- `memdb_add` comes to its end, and an entry for a new key stands last in its chain. -/
theorem memdbAddTraced_some (ent : Mement) {db : Memdb} {l : List (Nat × Mement)}
    (h : Seg db.heap (db.bucket (hashkey ent.key)) l none) :
    ∃ tr rc db', memdbAddTraced hashkey ent db = some (tr, rc, db') ∧
      ((∀ x ∈ l, x.2.key ≠ ent.key) →
        Seg db'.heap (db'.bucket (hashkey ent.key)) (l ++ [(db.heap.brk, ent)]) none) := by
  have hfresh : ∀ x ∈ l, x.1 ≠ db.heap.brk := fun x hx => Nat.ne_of_lt (h.lt_brk hx)
  have hseg : Seg (db.heap.alloc ⟨ent, none⟩) (db.bucket (hashkey ent.key)) l none :=
    h.frame fun x hx => Heap.alloc_cell_ne (hfresh x hx) _
  have hnew := Heap.alloc_cell_self db.heap ⟨ent, none⟩
  unfold memdbAddTraced
  dsimp only
  cases hhead : db.bucket (hashkey ent.key) with
  | none =>
    refine ⟨_, _, _, rfl, fun _ => ?_⟩
    rw [hhead] at hseg
    obtain rfl := hseg.functional (seg_nil.mpr rfl)
    exact ⟨Function.update_self .., none, hnew, rfl⟩
  | some head =>
    rw [hhead] at hseg
    have hlen : l.length ≤ (db.heap.alloc ⟨ent, none⟩).brk :=
      Nat.le_succ_of_le h.length_le
    rcases walk_total (fun n => n.next.isNone || sameKey ent.key n) none hseg hlen with
      ⟨q, hw, hnone⟩ | ⟨q, p, n, hw, hp, hn, hstop⟩
    · -- the last entry stops the walk
      rcases List.eq_nil_or_concat' l with rfl | ⟨pre, x, rfl⟩
      · exact absurd hseg (by simp)
      · obtain ⟨m, -, hlast⟩ := seg_append.mp hseg
        obtain ⟨-, nx, hx, rfl⟩ := hlast
        exact absurd (hnone x (by simp) _ hx) (by simp)
    · simp only [hw, hn]
      obtain ⟨x, hx, rfl⟩ := List.mem_map.mp hp
      obtain ⟨pre, post, rfl⟩ := List.append_of_mem hx
      obtain ⟨m, hpre, hm, nx, hcell, hpost⟩ := seg_append.mp hseg
      obtain rfl := Option.some.inj (hn.symm.trans hcell)
      by_cases hkey : sameKey ent.key ⟨x.2, nx⟩ = true
      · simp only [hkey, if_true]
        have hhas : ¬ ∀ y ∈ pre ++ x :: post, y.2.key ≠ ent.key := by
          intro hall
          exact hall x hx (of_decide_eq_true hkey)
        cases x.2.type with
        | del => exact ⟨_, _, _, rfl, fun hall => absurd hall hhas⟩
        | expire => exact ⟨_, _, _, rfl, fun hall => absurd hall hhas⟩
        | upd => exact ⟨_, _, _, rfl, fun hall => absurd hall hhas⟩
        | tryval => exact ⟨_, _, _, rfl, fun hall => absurd hall hhas⟩
      · simp only [hkey]
        refine ⟨_, _, _, rfl, fun _ => ?_⟩
        have hnx : nx = none := by
          rw [Bool.not_eq_true] at hkey
          rw [hkey, Bool.or_false] at hstop
          exact Option.isNone_iff_eq_none.mp hstop
        subst hnx
        obtain rfl := hpost.functional (seg_nil.mpr rfl)
        show Seg ((db.heap.alloc ⟨ent, none⟩).modify x.1 fun m =>
          { m with next := some db.heap.brk }) (db.bucket (hashkey ent.key)) _ none
        rw [hhead]
        refine append_chain hseg hnew fun hmem => ?_
        obtain ⟨y, hy, hya⟩ := List.mem_map.mp hmem
        exact hfresh y hy hya

/-- Two rounds of `memdb_del` are enough. -/
theorem memdbDelTraced_some (env : MemdbEnv) (fuel : Nat) {db : Memdb}
    {l : List (Nat × Mement)} {key : Bytes}
    (h : Seg db.heap (db.bucket (hashkey key)) l none) :
    ∃ r, memdbDelTraced hashkey env key (fuel + 2) db = some r := by
  rw [memdbDelTraced]
  rcases memdbFind_cases h with ⟨q, hfind, hnot⟩ | ⟨q, p, n, hfind, hn⟩
  · obtain ⟨tr, rc, db', hadd, hseg⟩ :=
      memdbAddTraced_some (memdbAddEnt env.nullCacheTimeout env.now key []) h
    have hagain : ∃ r, memdbDelTraced hashkey env key (fuel + 1) db' = some r := by
      rw [memdbDelTraced]
      rcases memdbFind_cases (hseg hnot) with ⟨q', -, hnot'⟩ | ⟨q', p', n', hfind', hn'⟩
      · exact absurd rfl (hnot' (db.heap.brk, memdbAddEnt env.nullCacheTimeout env.now key [])
          (by simp))
      · have hfind'' : memdbFind hashkey key db' = some (q', some p') := hfind'
        exact ⟨_, by simp only [hfind'', hn']; rfl⟩
    obtain ⟨r, hr⟩ := hagain
    exact ⟨_, by simp only [hfind, hadd, hr]; rfl⟩
  · exact ⟨_, by simp only [hfind, hn]; rfl⟩

/-- The operations take the chains to be sound; only `memdb_new` runs before there are any. -/
def Runnable : MemdbOp → Option Memdb → Prop
  | op, none => op = .new
  | _, some db => ∃ chains, SoundChains db chains

theorem memdbTrace_some {env : MemdbEnv} {fuel : Nat} {op : MemdbOp} {memdb : Option Memdb}
    (h : Runnable op memdb) : ∃ r, memdbTrace hashkey env (fuel + 2) op memdb = some r := by
  cases memdb with
  | none =>
    obtain rfl := h
    exact ⟨_, rfl⟩
  | some db =>
    obtain ⟨chains, hsound⟩ := h
    cases op with
    | new =>
      obtain ⟨⟨tr, heap⟩, hfree⟩ := freeChains_some db.heap.brk db.heap
        (List.nodup_finRange HASHSIZE) (fun i _ => hsound.chain i)
        (fun i _ => (hsound.chain i).length_le) hsound.apart
      have hsome : (memdbNewTraced (some db)).isSome := by
        unfold memdbNewTraced memdbDelete
        simp only [hfree]
        rfl
      obtain ⟨r, hr⟩ := Option.isSome_iff_exists.mp hsome
      refine ⟨(r.1, r.2.2), ?_⟩
      unfold memdbTrace
      simp only [hr]
      rfl
    | add key vals =>
      obtain ⟨tr, rc, db', hadd, -⟩ := memdbAddTraced_some
        (memdbAddEnt env.nullCacheTimeout env.now key vals) (hsound.chain (hashkey key))
      exact ⟨(tr, db'), by simp only [memdbTrace, hadd]; rfl⟩
    | del key =>
      obtain ⟨r, hr⟩ := memdbDelTraced_some env fuel
        (hsound.chain (hashkey key))
      exact ⟨(r.1, r.2.2), by simp only [memdbTrace, hr]; rfl⟩
    | get key vals =>
      have hsome : (memdbGetTraced hashkey env.now env.cdbMtime key vals db).isSome := by
        unfold memdbGetTraced
        rcases memdbFind_cases (hsound.chain (hashkey key)) with
          ⟨q, hfind, -⟩ | ⟨q, p, n, hfind, hn⟩
        · simp only [hfind]
          rfl
        · simp only [hfind, hn]
          split <;> (try split) <;> (try split) <;> rfl
      obtain ⟨r, hr⟩ := Option.isSome_iff_exists.mp hsome
      exact ⟨(r.1, r.2.2.2), by simp only [memdbTrace, hr]; rfl⟩
    | upd key vals =>
      have hsome : (memdbUpdTraced hashkey env key vals db).isSome := by
        unfold memdbUpdTraced memdbUpdFind
        split
        · rfl
        · obtain ⟨tr, rc, db', hadd, -⟩ := memdbAddTraced_some
            (memdbAddEnt env.nullCacheTimeout env.now key vals) (hsound.chain (hashkey key))
          rcases memdbFind_cases (hsound.chain (hashkey key)) with
            ⟨q, hfind, -⟩ | ⟨q, p, n, hfind, hn⟩
          · simp only [hfind, Option.map_some, hadd]
            rfl
          · simp only [hfind, Option.map_some]
            rfl
      obtain ⟨r, hr⟩ := Option.isSome_iff_exists.mp hsome
      exact ⟨(r.1, r.2.2), by simp only [memdbTrace, hr]; rfl⟩

/-! ## The exact condition -/

/-- What a run of `op` needs to be disciplined: it is no `memdb_del`, and if it is a `memdb_get`,
its key has no entry or one that is not dropped. -/
def KeepsDiscipline (hashkey : Bytes → Fin HASHSIZE) (env : MemdbEnv) :
    MemdbOp → Option Memdb → Prop
  | .del _, _ => False
  | .get key _, some db => ∀ q p n, memdbFind hashkey key db = some (q, some p) →
      db.heap.cell p = some n → ¬ n.ent.dropped env.now env.cdbMtime
  | _, _ => True

/-- Every run of every operation on every cache is disciplined if and only if it meets the
condition; and over sound chains the run is there. -/
theorem lock_discipline_iff (hashkey : Bytes → Fin HASHSIZE) (env : MemdbEnv) (op : MemdbOp)
    (memdb : Option Memdb) :
    (∀ fuel tr db', memdbTrace hashkey env fuel op memdb = some (tr, db') →
      (Disciplined tr ↔ KeepsDiscipline hashkey env op memdb)) ∧
    (Runnable op memdb → ∀ fuel, ∃ r, memdbTrace hashkey env (fuel + 2) op memdb = some r) := by
  refine ⟨fun fuel tr db' h => ?_, fun h fuel => memdbTrace_some h⟩
  rw [Disciplined, disciplinedFrom_iff]
  cases memdb with
  | none =>
    cases op with
    | new =>
      unfold memdbTrace at h
      obtain ⟨r, hr, heq⟩ := Option.map_eq_some_iff.mp h
      obtain ⟨rfl, -⟩ := Prod.mk.inj heq
      exact iff_of_true (memdbNewTraced_check hr) trivial
    | add key vals => exact absurd h (by simp [memdbTrace])
    | del key => exact absurd h (by simp [memdbTrace])
    | get key vals => exact absurd h (by simp [memdbTrace])
    | upd key vals => exact absurd h (by simp [memdbTrace])
  | some db =>
    cases op with
    | new =>
      unfold memdbTrace at h
      obtain ⟨r, hr, heq⟩ := Option.map_eq_some_iff.mp h
      obtain ⟨rfl, -⟩ := Prod.mk.inj heq
      exact iff_of_true (memdbNewTraced_check hr) trivial
    | add key vals =>
      obtain ⟨r, hr, heq⟩ := Option.map_eq_some_iff.mp h
      obtain ⟨rfl, -⟩ := Prod.mk.inj heq
      exact iff_of_true (memdbAddTraced_check hr) trivial
    | del key =>
      obtain ⟨r, hr, heq⟩ := Option.map_eq_some_iff.mp h
      obtain ⟨rfl, -⟩ := Prod.mk.inj heq
      exact iff_of_false (by rw [memdbDelTraced_check hr]; simp) id
    | get key vals =>
      obtain ⟨r, hr, heq⟩ := Option.map_eq_some_iff.mp h
      obtain ⟨rfl, -⟩ := Prod.mk.inj heq
      exact memdbGetTraced_check hr
    | upd key vals =>
      obtain ⟨r, hr, heq⟩ := Option.map_eq_some_iff.mp h
      obtain ⟨rfl, -⟩ := Prod.mk.inj heq
      exact iff_of_true (memdbUpdTraced_check hr) trivial

/-- A cache with one non-result, which expires at 60. -/
def expiringCache : Memdb where
  heap := Heap.empty.alloc ⟨⟨[65], [], some 0, .expire, some 60⟩, none⟩
  bucket := Function.update (fun _ => none) 0 (some 0)
  memdbsize := 1

/-- The question for it at 60 frees the entry under the read lock. -/
theorem undisciplined_get : ∃ tr db',
    memdbTrace (fun _ => 0) ⟨60, 0, 60, 1⟩ 2 (.get [65] []) (some expiringCache)
      = some (tr, db') ∧ ¬ Disciplined tr := by
  have htrace : (memdbTrace (fun _ => 0) ⟨60, 0, 60, 1⟩ 2 (.get [65] [])
      (some expiringCache)).map Prod.fst
        = some [.readLock, .change, .change, .change, .unlock] := by
    rfl
  obtain ⟨⟨tr, db'⟩, hrun, rfl⟩ := Option.map_eq_some_iff.mp htrace
  exact ⟨_, db', hrun, by decide⟩

end Nastd.Server
