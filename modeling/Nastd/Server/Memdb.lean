import Nastd.Nastipc
import Nastd.Lib.Chain

/-!
# The in-memory cache, as the code runs it

`server/memdb.c` with every allocation succeeding. The bucket array holds head
pointers into a heap of `cachent_t` nodes; the three operations below walk a chain
with a trailing pointer and splice it in place, in the order of the source.

Each stretch between taking and releasing `memdb_lk` is a definition of its own
(`memdbGet`, `memdbAddLocked`, `memdbUpdFind`, `memdbUpdWrite`), because other
threads may run between two of them; `memdbAdd` and `memdbUpd` are the calls as one
thread runs them alone.

`none` stands for a walk that meets a dangling pointer or does not end;
`Server/MemdbRep.lean` shows that it never happens. The per-second counters feed
only the rates of `memdb_collate` and are left out. A call reads the clock once:
both `time(NULL)` calls of `memdb_add` give the same second.
-/

namespace Nastd.Server

open Nastd.Lib

/-- `cachetype_t`. -/
inductive CacheType where
  | del
  | upd
  | tryval
  | expire
  deriving DecidableEq, Repr

/-- `mement_t`. `keylen` is the length of `key`; the pointers `upd_time` and
`typeval` may be NULL. -/
structure Mement where
  key : Bytes
  vals : List Bytes
  updTime : Option Int
  type : CacheType
  typeval : Option Int
  deriving DecidableEq, Repr

/-- `cachent_t`. -/
abbrev Cachent := Node Mement

/-- `HASHSIZE`. -/
abbrev HASHSIZE : Nat := 1024

/-- `memdb[]`, the heap its chains live in, and `memdbsize`. The source counts in an `int`, which
is larger than any number of entries here. -/
structure Memdb where
  heap : Heap Mement
  bucket : Fin HASHSIZE → Option Nat
  memdbsize : Int

/-- The cache `memdb_new` leaves behind. -/
def memdbNew : Memdb := ⟨Heap.empty, fun _ => none, 0⟩

section Ops

variable (hashkey : Bytes → Fin HASHSIZE)

/-- `keylen == p->ent.keylen && memcmp(p->ent.key, key, keylen) == 0`. -/
def sameKey (key : Bytes) (p : Cachent) : Bool := decide (p.ent.key = key)

/-- The chain walk that `memdb_get` and `memdb_upd` start with: the trailing
pointer and the entry of `key`, if there is one. -/
def memdbFind (key : Bytes) (db : Memdb) : Option (Option Nat × Option Nat) :=
  walk (sameKey key) db.heap db.heap.brk none (db.bucket (hashkey key))

/-- `if (q != NULL) q->next = p->next; else memdb[hkey] = p->next; free(p);` -/
def memdbUnlink (key : Bytes) (q : Option Nat) (p : Nat) (next : Option Nat) (db : Memdb) :
    Memdb :=
  let r := relink db.heap (db.bucket (hashkey key)) q next
  { db with
    heap := r.1.free p
    bucket := Function.update db.bucket (hashkey key) r.2 }

/-- `memdb_get`: the return code, what `vals` holds afterwards, and the cache. An
expired or outdated entry is unlinked on the way. -/
def memdbGet (now cdbMtime : Int) (key : Bytes) (vals : List Bytes) (db : Memdb) :
    Option (Int × List Bytes × Memdb) :=
  match memdbFind hashkey key db with
  | none => none
  | some (_, none) => some (-1, vals, db)
  | some (q, some p) =>
    match db.heap.cell p with
    | none => none
    | some n =>
      let gone := some (-1, vals, memdbUnlink hashkey key q p n.next db)
      let found := some (0, n.ent.vals, db)
      match n.ent.type with
      | .del => some (0, vals, db)
      | .expire =>
        match n.ent.typeval with
        | some expire => if now ≥ expire then gone else found
        | none => found
      | .upd | .tryval =>
        match n.ent.updTime with
        | some updTime => if cdbMtime > updTime then gone else found
        | none => found

/-- The entry `memdb_add` builds before it takes the lock. An empty list is a
non-result, kept for `null_cache_timeout` seconds. -/
def memdbAddEnt (nullCacheTimeout now : Int) (key : Bytes) (vals : List Bytes) : Mement where
  key := key
  vals := vals
  updTime := some now
  type := if vals.length = 0 then .expire else .upd
  typeval := if vals.length = 0 then some (now + nullCacheTimeout) else none

/-- The locked section of `memdb_add`. The node is its caller's own until it is
linked, so its `malloc` stands at the head of the section. A value entry already
under the key is left alone (and the new node leaks). -/
def memdbAddLocked (ent : Mement) (db : Memdb) : Option (Int × Memdb) :=
  let key := ent.key
  let a := db.heap.brk
  let heap := db.heap.alloc ⟨ent, none⟩
  match db.bucket (hashkey key) with
  | none =>
    some (0, { heap := heap
               bucket := Function.update db.bucket (hashkey key) (some a)
               memdbsize := db.memdbsize + 1 })
  | some head =>
    -- `while (p->next != NULL && !same key)`: stops at the entry or at the last node
    match walk (fun n => n.next.isNone || sameKey key n) heap heap.brk none (some head) with
    | some (q, some p) =>
      match heap.cell p with
      | none => none
      | some n =>
        if sameKey key n then
          match n.ent.type with
          | .expire | .del =>
            let r := relink heap (some head) q (some a)
            some (0, { heap := (r.1.modify a fun m => { m with next := n.next }).free p
                       bucket := Function.update db.bucket (hashkey key) r.2
                       memdbsize := db.memdbsize })
          | .upd | .tryval => some (0, { db with heap := heap })
        else
          some (0, { heap := heap.modify p fun m => { m with next := some a }
                     bucket := db.bucket
                     memdbsize := db.memdbsize + 1 })
    | _ => none

/-- `memdb_add`. -/
def memdbAdd (nullCacheTimeout now : Int) (key : Bytes) (vals : List Bytes) (db : Memdb) :
    Option (Int × Memdb) :=
  memdbAddLocked hashkey (memdbAddEnt nullCacheTimeout now key vals) db

/-- The first locked section of `memdb_upd`: where the key's entry is, if anywhere. -/
def memdbUpdFind (key : Bytes) (db : Memdb) : Option (Option Nat) :=
  (memdbFind hashkey key db).map Prod.snd

/-- The second locked section of `memdb_upd`, writing through the pointer the first
one found. A node freed in between is gone, and the write with it. -/
def memdbUpdWrite (p : Nat) (now : Int) (vals : List Bytes) (db : Memdb) : Memdb :=
  { db with
    heap := db.heap.modify p fun n =>
      { n with
        ent := { n.ent with
                 type := .upd
                 typeval := none
                 updTime := n.ent.updTime.map fun _ => now
                 vals := vals } } }

/-- `memdb_upd` run alone. -/
def memdbUpd (dbFieldcount : Nat) (nullCacheTimeout now : Int) (key : Bytes) (vals : List Bytes)
    (db : Memdb) : Option (Int × Memdb) :=
  if vals.length ≠ dbFieldcount then some (-1, db)
  else
    match memdbUpdFind hashkey key db with
    | none => none
    | some none => memdbAdd hashkey nullCacheTimeout now key vals db
    | some (some p) => some (0, memdbUpdWrite p now vals db)

end Ops

end Nastd.Server
