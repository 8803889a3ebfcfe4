import Nastd.Server.Memdb
import Mathlib.Data.List.Nodup

/-!
# What the cache's heap stands for

`memdb.c` keeps its entries in linked chains; every property of the cache is about
the entry of a key. This file is the bridge. `Rep hashkey db view` says that the
heap of `db` represents `view`, which gives for every key the address and the
content of its entry:

* each bucket head leads along a chain, which ends (so it has no cycle);
* every entry sits in the bucket of its key;
* a chain holds at most one entry of a key.

Addresses are part of the view because `memdb_upd` keeps a pointer across two
locked sections.

Each operation of `Server/Memdb.lean` then gets one lemma that says what it
returns and what the view is afterwards. The chain walks, the trailing pointers
and the splices are dealt with here and nowhere else.
-/

namespace Nastd.Server

open Nastd.Lib

/-- What is cached under a key. -/
inductive Entry where
  /-- A record, stamped with the time it was stored. -/
  | value (vals : List Bytes) (stamp : Int)
  /-- A non-result and the time it expires; `stamp` is when it was stored. -/
  | null (expire stamp : Int)
  deriving DecidableEq, Repr

namespace Entry

/-- The list `memdb_get` hands out. -/
def vals : Entry → List Bytes
  | value vals _ => vals
  | null _ _ => []

/-- The time the entry was stored. -/
def stamp : Entry → Int
  | value _ stamp => stamp
  | null _ stamp => stamp

/-- `memdb_get` drops the entry instead of serving it. -/
def gone (now cdbMtime : Int) : Entry → Bool
  | value _ stamp => decide (cdbMtime > stamp)
  | null expire _ => decide (now ≥ expire)

/-- The entry as `memdb.c` stores it. -/
def toMement (key : Bytes) : Entry → Mement
  | value vals stamp => ⟨key, vals, some stamp, .upd, none⟩
  | null expire stamp => ⟨key, [], some stamp, .expire, some expire⟩

@[simp] theorem toMement_key (key : Bytes) (e : Entry) : (e.toMement key).key = key := by
  cases e <;> rfl

end Entry

/-- One linked entry: where it is, its key, its content. -/
structure Slot where
  addr : Nat
  key : Bytes
  entry : Entry

/-- The node a slot occupies. -/
def Slot.node (s : Slot) : Nat × Mement := (s.addr, s.entry.toMement s.key)

/-- The cache as a table of chains. -/
abbrev Chains := Fin HASHSIZE → List Slot

variable {hashkey : Bytes → Fin HASHSIZE}

/-- `chains` lists what the bucket heads of `db` lead to. -/
structure Wf (hashkey : Bytes → Fin HASHSIZE) (db : Memdb) (chains : Chains) : Prop where
  chain : ∀ i, Seg db.heap (db.bucket i) ((chains i).map Slot.node) none
  placed : ∀ i, ∀ s ∈ chains i, hashkey s.key = i
  uniq : ∀ i, ((chains i).map Slot.key).Nodup

/-- The first slot of `key` in a chain. -/
def slotOf (key : Bytes) (l : List Slot) : Option Slot := l.find? fun s => decide (s.key = key)

/-- Address and content of the entry of each key. -/
def viewOf (hashkey : Bytes → Fin HASHSIZE) (chains : Chains) (key : Bytes) :
    Option (Nat × Entry) :=
  (slotOf key (chains (hashkey key))).map fun s => (s.addr, s.entry)

/-- The heap of `db` represents `view`. -/
def Rep (hashkey : Bytes → Fin HASHSIZE) (db : Memdb) (view : Bytes → Option (Nat × Entry)) :
    Prop :=
  ∃ chains, Wf hashkey db chains ∧ viewOf hashkey chains = view

/-! ## One chain as an association list -/

/-- A slot of another key is passed over. -/
theorem slotOf_skip {key : Bytes} {pre post : List Slot} {s : Slot} (hs : s.key ≠ key) :
    slotOf key (pre ++ s :: post) = slotOf key (pre ++ post) := by
  unfold slotOf
  rw [List.find?_append, List.find?_append, List.find?_cons_of_neg (by simpa using hs)]

/-- Looking a key up splits the chain at its entry. -/
theorem slotOf_eq_some {key : Bytes} {l : List Slot} {s : Slot} (h : slotOf key l = some s) :
    s.key = key ∧ ∃ pre post, l = pre ++ s :: post ∧ ∀ t ∈ pre, t.key ≠ key := by
  unfold slotOf at h
  rw [List.find?_eq_some_iff_append] at h
  obtain ⟨hk, pre, post, hl, hpre⟩ := h
  refine ⟨by simpa using hk, pre, post, hl, fun t ht => ?_⟩
  simpa using hpre t ht

theorem slotOf_eq_none {key : Bytes} {l : List Slot} (h : slotOf key l = none) :
    ∀ t ∈ l, t.key ≠ key := by
  unfold slotOf at h
  rw [List.find?_eq_none] at h
  intro t ht
  simpa using h t ht

theorem slotOf_of_ne {key : Bytes} {l : List Slot} (h : ∀ t ∈ l, t.key ≠ key) :
    slotOf key l = none := by
  unfold slotOf
  rw [List.find?_eq_none]
  intro t ht
  simpa using h t ht

/-- A slot behind a prefix without its key is the one found. -/
theorem slotOf_append_self {pre post : List Slot} {s : Slot} (hpre : ∀ t ∈ pre, t.key ≠ s.key) :
    slotOf s.key (pre ++ s :: post) = some s := by
  have hnone : pre.find? (fun t => decide (t.key = s.key)) = none := slotOf_of_ne hpre
  unfold slotOf
  rw [List.find?_append, hnone, Option.none_or, List.find?_cons_of_pos (by simp)]

/-- With keys listed once, the part behind an entry does not have its key. -/
theorem key_ne_of_mem_post {pre post : List Slot} {s : Slot}
    (h : ((pre ++ s :: post).map Slot.key).Nodup) : ∀ t ∈ post, t.key ≠ s.key := by
  rw [List.map_append, List.map_cons, List.nodup_append] at h
  intro t ht heq
  have hcons := List.nodup_cons.mp h.2.1
  exact hcons.1 (heq ▸ List.mem_map_of_mem ht)

/-! ## One bucket at a time -/

theorem viewOf_eq (chains : Chains) (key : Bytes) :
    viewOf hashkey chains key
      = (slotOf key (chains (hashkey key))).map fun s => (s.addr, s.entry) := rfl

/-- Replacing one chain by one that differs only in the entry of `key`. -/
theorem viewOf_update {chains : Chains} {key : Bytes} {l : List Slot}
    (hl : ∀ k, k ≠ key → slotOf k l = slotOf k (chains (hashkey key))) :
    viewOf hashkey (Function.update chains (hashkey key) l)
      = Function.update (viewOf hashkey chains) key
          ((slotOf key l).map fun s => (s.addr, s.entry)) := by
  funext k
  by_cases hk : k = key
  · subst hk
    rw [Function.update_self, viewOf_eq, Function.update_self]
  · rw [Function.update_of_ne hk, viewOf_eq, viewOf_eq]
    by_cases hi : hashkey k = hashkey key
    · rw [hi, Function.update_self, hl k hk]
    · rw [Function.update_of_ne hi]

namespace Wf

variable {db : Memdb} {chains : Chains}

/-- The cell of a linked entry. -/
theorem cell (h : Wf hashkey db chains) {i : Fin HASHSIZE} {s : Slot} (hs : s ∈ chains i) :
    ∃ n, db.heap.cell s.addr = some ⟨s.entry.toMement s.key, n⟩ :=
  (h.chain i).cell (List.mem_map_of_mem (f := Slot.node) hs)

/-- Two linked entries at one address are in the same bucket. -/
theorem same_bucket (h : Wf hashkey db chains) {i j : Fin HASHSIZE} {s t : Slot}
    (hs : s ∈ chains i) (ht : t ∈ chains j) (ha : s.addr = t.addr) : i = j := by
  obtain ⟨n, hn⟩ := h.cell hs
  obtain ⟨m, hm⟩ := h.cell ht
  rw [ha, hm] at hn
  have hent := congrArg (fun c => c.ent.key) (Option.some.inj hn)
  simp only [Entry.toMement_key] at hent
  rw [← h.placed i s hs, ← h.placed j t ht, hent]

/-- Rebuilding one bucket keeps the table well formed when no cell of another
bucket's entries is touched. -/
theorem update (h : Wf hashkey db chains) (key : Bytes) {heap : Heap Mement} {b : Option Nat}
    {l : List Slot} {size : Int}
    (hl : Seg heap b (l.map Slot.node) none) (hplaced : ∀ s ∈ l, hashkey s.key = hashkey key)
    (huniq : (l.map Slot.key).Nodup)
    (hframe : ∀ j, j ≠ hashkey key → ∀ s ∈ chains j, heap.cell s.addr = db.heap.cell s.addr) :
    Wf hashkey ⟨heap, Function.update db.bucket (hashkey key) b, size⟩
      (Function.update chains (hashkey key) l) := by
  constructor
  · intro i
    by_cases hi : i = hashkey key
    · subst hi
      show Seg heap (Function.update db.bucket _ b _) _ _
      rw [Function.update_self, Function.update_self]
      exact hl
    · show Seg heap (Function.update db.bucket _ b _) _ _
      rw [Function.update_of_ne hi, Function.update_of_ne hi]
      refine (h.chain i).frame fun x hx => ?_
      obtain ⟨s, hs, rfl⟩ := List.mem_map.mp hx
      exact hframe i hi s hs
  · intro i s hs
    by_cases hi : i = hashkey key
    · subst hi
      rw [Function.update_self] at hs
      exact hplaced s hs
    · rw [Function.update_of_ne hi] at hs
      exact h.placed i s hs
  · intro i
    by_cases hi : i = hashkey key
    · subst hi
      rw [Function.update_self]
      exact huniq
    · rw [Function.update_of_ne hi]
      exact h.uniq i

end Wf

/-! ## The chain walk -/

/-- What `memdbFind` returns when the key has an entry. -/
theorem memdbFind_some {db : Memdb} {chains : Chains} {key : Bytes} {pre post : List Slot}
    {s : Slot} (h : Wf hashkey db chains) (hl : chains (hashkey key) = pre ++ s :: post)
    (hs : s.key = key) (hpre : ∀ t ∈ pre, t.key ≠ key) :
    memdbFind hashkey key db = some (trail none (pre.map Slot.node), some s.addr) := by
  have hseg := h.chain (hashkey key)
  have hlen := hseg.length_le
  rw [hl, List.map_append, List.map_cons] at hseg
  obtain ⟨m, hsegpre, hsegs⟩ := seg_append.mp hseg
  obtain ⟨rfl, n, hn, _⟩ := hsegs
  refine walk_seg hsegpre ?_ ?_ ?_
  · rw [hl] at hlen
    simp only [List.length_map, List.length_append] at hlen ⊢
    omega
  · intro x hx n' hn'
    obtain ⟨t, ht, rfl⟩ := List.mem_map.mp hx
    obtain ⟨m', hm'⟩ := hsegpre.cell (a := t.addr) (List.mem_map_of_mem (f := Slot.node) ht)
    have hcell : n' = ⟨t.entry.toMement t.key, m'⟩ := Option.some.inj (hn'.symm.trans hm')
    rw [sameKey, hcell]
    simpa using hpre t ht
  · intro a ha
    obtain rfl := Option.some.inj ha
    exact ⟨_, hn, by simp [sameKey, hs]⟩

/-- What `memdbFind` returns when the key has none. -/
theorem memdbFind_none {db : Memdb} {chains : Chains} {key : Bytes}
    (h : Wf hashkey db chains) (hl : ∀ t ∈ chains (hashkey key), t.key ≠ key) :
    memdbFind hashkey key db
      = some (trail none ((chains (hashkey key)).map Slot.node), none) := by
  have hseg := h.chain (hashkey key)
  refine walk_seg hseg (hseg.length_le) ?_ (fun a ha => absurd ha (by simp))
  intro x hx n' hn'
  obtain ⟨t, ht, rfl⟩ := List.mem_map.mp hx
  obtain ⟨m', hm'⟩ := hseg.cell (a := t.addr) (List.mem_map_of_mem (f := Slot.node) ht)
  have hcell : n' = ⟨t.entry.toMement t.key, m'⟩ := Option.some.inj (hn'.symm.trans hm')
  rw [sameKey, hcell]
  simpa using hl t ht

/-! ## The splices -/

namespace Wf

variable {db : Memdb} {chains : Chains} {key : Bytes} {pre post : List Slot} {s : Slot}

/-- A key along `pre ++ post` is still listed once, and in its bucket. -/
theorem drop_entry (h : Wf hashkey db chains) (hl : chains (hashkey key) = pre ++ s :: post) :
    (∀ t ∈ pre ++ post, hashkey t.key = hashkey key) ∧ ((pre ++ post).map Slot.key).Nodup := by
  constructor
  · intro t ht
    refine h.placed _ t ?_
    rw [hl]
    rcases List.mem_append.mp ht with ht | ht
    · exact List.mem_append_left _ ht
    · exact List.mem_append_right _ (List.mem_cons_of_mem _ ht)
  · have hnd := h.uniq (hashkey key)
    rw [hl] at hnd
    refine hnd.sublist (List.Sublist.map _ ?_)
    exact List.Sublist.append (List.Sublist.refl _) (List.sublist_cons_self ..)

/-- An edit inside one bucket leaves the cells of the others alone. -/
theorem frame (h : Wf hashkey db chains) {b : Nat} {j : Fin HASHSIZE} {t u : Slot}
    (hj : j ≠ hashkey key) (ht : t ∈ chains j) (hu : u ∈ chains (hashkey key))
    (hb : u.addr = b) : t.addr ≠ b :=
  fun heq => hj (h.same_bucket ht hu (heq.trans hb.symm))

/-- The addresses of another bucket's entries are not on this bucket's chain. -/
theorem addr_not_mem (h : Wf hashkey db chains) {j : Fin HASHSIZE} {t : Slot} {l : List Slot}
    (hj : j ≠ hashkey key) (ht : t ∈ chains j) (hl : ∀ u ∈ l, u ∈ chains (hashkey key)) :
    t.addr ∉ (l.map Slot.node).map Prod.fst := by
  intro hm
  rw [List.map_map] at hm
  obtain ⟨u, hu, hua⟩ := List.mem_map.mp hm
  exact h.frame hj ht (hl u hu) hua rfl

/-- Unlinking an entry leaves the other entries of its chain. -/
theorem unlink (h : Wf hashkey db chains) (hl : chains (hashkey key) = pre ++ s :: post)
    {nx : Option Nat} (hn : db.heap.cell s.addr = some ⟨s.entry.toMement s.key, nx⟩) :
    Wf hashkey (memdbUnlink hashkey key (trail none (pre.map Slot.node)) s.addr nx db)
      (Function.update chains (hashkey key) (pre ++ post)) := by
  have hseg := h.chain (hashkey key)
  rw [hl, List.map_append, List.map_cons] at hseg
  obtain ⟨hplaced, huniq⟩ := h.drop_entry hl
  refine h.update key ?_ hplaced huniq ?_
  · rw [List.map_append]
    exact unlink_chain hseg hn
  · intro j hj t ht
    rw [Heap.free_cell_ne (h.frame hj ht (u := s) (by rw [hl]; simp) rfl)]
    exact relink_trail_cell (h.addr_not_mem hj ht fun u hu => by rw [hl]; simp [hu])

/-- Putting an entry of the same key in an entry's place keeps keys and buckets. -/
theorem swap_entry (h : Wf hashkey db chains) (hl : chains (hashkey key) = pre ++ s :: post)
    {t : Slot} (ht : t.key = s.key) :
    (∀ u ∈ pre ++ t :: post, hashkey u.key = hashkey key) ∧
      ((pre ++ t :: post).map Slot.key).Nodup := by
  have hkeys : (pre ++ t :: post).map Slot.key = (chains (hashkey key)).map Slot.key := by
    simp [hl, ht]
  refine ⟨fun u hu => ?_, hkeys ▸ h.uniq (hashkey key)⟩
  have hmem : u.key ∈ (chains (hashkey key)).map Slot.key := hkeys ▸ List.mem_map_of_mem hu
  obtain ⟨v, hv, hvk⟩ := List.mem_map.mp hmem
  rw [← hvk]
  exact h.placed _ v hv

/-- Rewriting an entry where it stands. -/
theorem rewrite (h : Wf hashkey db chains) (hl : chains (hashkey key) = pre ++ s :: post)
    {e : Entry} {f : Cachent → Cachent} {size : Int}
    (hf : ∀ nx, f ⟨s.entry.toMement s.key, nx⟩ = ⟨e.toMement s.key, nx⟩) :
    Wf hashkey ⟨db.heap.modify s.addr f, db.bucket, size⟩
      (Function.update chains (hashkey key) (pre ++ { s with entry := e } :: post)) := by
  have hmem : s ∈ chains (hashkey key) := by rw [hl]; simp
  obtain ⟨nx, hn⟩ := h.cell hmem
  have hseg := h.chain (hashkey key)
  rw [hl, List.map_append, List.map_cons] at hseg
  obtain ⟨hplaced, huniq⟩ := h.swap_entry hl (t := { s with entry := e }) rfl
  have hbucket : Function.update db.bucket (hashkey key) (db.bucket (hashkey key)) = db.bucket :=
    Function.update_eq_self ..
  rw [← hbucket]
  refine h.update key ?_ hplaced huniq ?_
  · rw [List.map_append, List.map_cons]
    exact rewrite_chain hseg hn (hf nx)
  · intro j hj t ht
    exact Heap.modify_cell_ne (h.frame hj ht hmem rfl) _

/-- A node allocated now is at none of the linked addresses. -/
theorem addr_ne_brk (h : Wf hashkey db chains) {i : Fin HASHSIZE} (hs : s ∈ chains i) :
    s.addr ≠ db.heap.brk := by
  obtain ⟨n, hn⟩ := h.cell hs
  exact Nat.ne_of_lt (Heap.lt_brk hn)

/-- Allocating a node changes no chain. -/
theorem alloc (h : Wf hashkey db chains) (n : Cachent) :
    Wf hashkey { db with heap := db.heap.alloc n } chains := by
  refine ⟨fun i => (h.chain i).frame fun x hx => ?_, h.placed, h.uniq⟩
  obtain ⟨t, ht, rfl⟩ := List.mem_map.mp hx
  exact Heap.alloc_cell_ne (h.addr_ne_brk ht) n

end Wf

/-! ## `memdb_get` -/

section Specs

variable {db : Memdb} {view : Bytes → Option (Nat × Entry)} {key : Bytes}

/-- The slot behind an entry of the view. -/
theorem Rep.slot (hr : Rep hashkey db view) {a : Nat} {e : Entry} (hv : view key = some (a, e)) :
    ∃ chains pre post, Wf hashkey db chains ∧ viewOf hashkey chains = view ∧
      chains (hashkey key) = pre ++ ⟨a, key, e⟩ :: post ∧ ∀ t ∈ pre, t.key ≠ key := by
  obtain ⟨chains, h, rfl⟩ := hr
  rw [viewOf_eq, Option.map_eq_some_iff] at hv
  obtain ⟨s, hs, heq⟩ := hv
  obtain ⟨rfl, rfl⟩ := Prod.mk.inj heq
  obtain ⟨rfl, pre, post, hl, hpre⟩ := slotOf_eq_some hs
  exact ⟨chains, pre, post, h, rfl, hl, hpre⟩

/-- No slot behind a key the view does not have. -/
theorem Rep.no_slot (hr : Rep hashkey db view) (hv : view key = none) :
    ∃ chains, Wf hashkey db chains ∧ viewOf hashkey chains = view ∧
      ∀ t ∈ chains (hashkey key), t.key ≠ key := by
  obtain ⟨chains, h, rfl⟩ := hr
  rw [viewOf_eq, Option.map_eq_none_iff] at hv
  exact ⟨chains, h, rfl, slotOf_eq_none hv⟩

/-- The cell of an entry of the view. -/
theorem Rep.cell (hr : Rep hashkey db view) {a : Nat} {e : Entry} (hv : view key = some (a, e)) :
    ∃ nx, db.heap.cell a = some ⟨e.toMement key, nx⟩ := by
  obtain ⟨chains, pre, post, h, -, hl, -⟩ := hr.slot hv
  exact h.cell (i := hashkey key) (s := ⟨a, key, e⟩) (by rw [hl]; simp)

/-- An empty cache. -/
theorem memdbNew_rep : Rep hashkey memdbNew fun _ => none := by
  refine ⟨fun _ => [], ⟨fun i => rfl, ?_, fun i => List.nodup_nil⟩, rfl⟩
  intro i s hs
  exact absurd hs (by simp)

theorem memdbGet_absent (hr : Rep hashkey db view) (hv : view key = none) (now cdbMtime : Int)
    (vals : List Bytes) : memdbGet hashkey now cdbMtime key vals db = some (-1, vals, db) := by
  obtain ⟨chains, h, -, hl⟩ := hr.no_slot hv
  unfold memdbGet
  rw [memdbFind_none h hl]

theorem memdbGet_live (hr : Rep hashkey db view) {a : Nat} {e : Entry}
    (hv : view key = some (a, e)) {now cdbMtime : Int} (he : e.gone now cdbMtime = false)
    (vals : List Bytes) :
    memdbGet hashkey now cdbMtime key vals db = some (0, e.vals, db) := by
  obtain ⟨chains, pre, post, h, -, hl, hpre⟩ := hr.slot hv
  obtain ⟨nx, hn⟩ := hr.cell hv
  unfold memdbGet
  rw [memdbFind_some h hl rfl hpre]
  simp only [hn]
  cases e with
  | value v stamp =>
    have hle : ¬ cdbMtime > stamp := by simpa [Entry.gone] using he
    simp only [Entry.toMement, if_neg hle, Entry.vals]
  | null expire stamp =>
    have hlt : ¬ now ≥ expire := by simpa [Entry.gone] using he
    simp only [Entry.toMement, if_neg hlt, Entry.vals]

/-- An expired or outdated entry is unlinked and freed. -/
theorem memdbGet_gone (hr : Rep hashkey db view) {a : Nat} {e : Entry}
    (hv : view key = some (a, e)) {now cdbMtime : Int} (he : e.gone now cdbMtime = true)
    (vals : List Bytes) :
    ∃ db', memdbGet hashkey now cdbMtime key vals db = some (-1, vals, db') ∧
      Rep hashkey db' (Function.update view key none) ∧ db'.heap.Dead a ∧
      (∀ b, db.heap.Dead b → db'.heap.Dead b) ∧ db'.memdbsize = db.memdbsize := by
  obtain ⟨chains, pre, post, h, rfl, hl, hpre⟩ := hr.slot hv
  obtain ⟨nx, hn⟩ := hr.cell hv
  refine ⟨memdbUnlink hashkey key (trail none (pre.map Slot.node)) a nx db, ?_, ?_, ?_, ?_, rfl⟩
  · unfold memdbGet
    rw [memdbFind_some h hl rfl hpre]
    simp only [hn]
    cases e with
    | value v stamp =>
      have hgt : cdbMtime > stamp := by simpa [Entry.gone] using he
      simp only [Entry.toMement, if_pos hgt]
    | null expire stamp =>
      have hge : now ≥ expire := by simpa [Entry.gone] using he
      simp only [Entry.toMement, if_pos hge]
  · have huniq := h.uniq (hashkey key)
    rw [hl] at huniq
    have hpost := key_ne_of_mem_post huniq
    refine ⟨_, h.unlink (s := ⟨a, key, e⟩) hl hn, ?_⟩
    rw [viewOf_update]
    · -- the key stood on the chain once, so it is gone from it
      rw [slotOf_of_ne]
      · rfl
      · intro t ht
        rcases List.mem_append.mp ht with ht | ht
        · exact hpre t ht
        · exact hpost t ht
    · intro k hk
      rw [hl, slotOf_skip (fun heq => hk heq.symm)]
  · apply Heap.dead_free
    rw [relink_brk]
    exact Heap.lt_brk hn
  · intro b hb
    exact (relink_dead hb).free

/-! ## `memdb_upd` -/

/-- The first section of `memdb_upd` finds the entry of the view. -/
theorem memdbUpdFind_eq (hr : Rep hashkey db view) (key : Bytes) :
    memdbUpdFind hashkey key db = some ((view key).map Prod.fst) := by
  unfold memdbUpdFind
  cases hv : view key with
  | none =>
    obtain ⟨chains, h, -, hl⟩ := hr.no_slot hv
    rw [memdbFind_none h hl]
    rfl
  | some ae =>
    obtain ⟨a, e⟩ := ae
    obtain ⟨chains, pre, post, h, -, hl, hpre⟩ := hr.slot hv
    rw [memdbFind_some h hl rfl hpre]
    rfl

/-- The second section stores the record, if its pointer still names the entry. -/
theorem memdbUpdWrite_rep (hr : Rep hashkey db view) {a : Nat} {e : Entry}
    (hv : view key = some (a, e)) (now : Int) (vals : List Bytes) :
    Rep hashkey (memdbUpdWrite a now vals db)
      (Function.update view key (some (a, .value vals now))) := by
  obtain ⟨chains, pre, post, h, rfl, hl, hpre⟩ := hr.slot hv
  refine ⟨_, h.rewrite (s := ⟨a, key, e⟩) (e := .value vals now) hl (fun nx => ?_), ?_⟩
  · cases e <;> rfl
  · rw [viewOf_update]
    · rw [slotOf_append_self (s := ⟨a, key, .value vals now⟩) hpre]
      rfl
    · intro k hk
      rw [hl, slotOf_skip (fun heq => hk heq.symm), slotOf_skip (fun heq => hk heq.symm)]

/-- A write through a pointer whose node is gone changes nothing. -/
theorem memdbUpdWrite_dangling {a : Nat} (ha : db.heap.cell a = none) (now : Int)
    (vals : List Bytes) (hr : Rep hashkey db view) :
    Rep hashkey (memdbUpdWrite a now vals db) view := by
  obtain ⟨chains, h, hv⟩ := hr
  refine ⟨chains, ⟨fun i => (h.chain i).frame fun x hx => ?_, h.placed, h.uniq⟩, hv⟩
  obtain ⟨t, ht, rfl⟩ := List.mem_map.mp hx
  obtain ⟨n, hn⟩ := h.cell ht
  refine Heap.modify_cell_ne (fun heq => ?_) _
  have heq' : t.addr = a := heq
  rw [heq', ha] at hn
  exact absurd hn (by simp)

/-! ## `memdb_add` -/

/-- What an add makes of the view: an absent key gets the new entry, a non-result
is replaced by it, a record stays. -/
def addView (view : Bytes → Option (Nat × Entry)) (key : Bytes) (a : Nat) (e : Entry) :
    Bytes → Option (Nat × Entry) :=
  match view key with
  | some (_, .value _ _) => view
  | _ => Function.update view key (some (a, e))

theorem addView_of_value {a p : Nat} {v : List Bytes} {stamp : Int} {e : Entry}
    (hv : view key = some (p, .value v stamp)) : addView view key a e = view := by
  unfold addView
  rw [hv]

theorem addView_of_not_value {a : Nat} {e : Entry}
    (hno : ∀ p v stamp, view key ≠ some (p, .value v stamp)) :
    addView view key a e = Function.update view key (some (a, e)) := by
  unfold addView
  cases hv : view key with
  | none => rfl
  | some pe =>
    obtain ⟨p, old⟩ := pe
    cases old with
    | value v stamp => exact absurd hv (hno p v stamp)
    | null expire stamp => rfl

/-- The walk of `memdb_add` stops at the entry of the key, or else at the last
node: nothing before it is either. -/
theorem addWalk {chains : Chains} {pre post : List Slot} {s : Slot} {head : Nat}
    (h : Wf hashkey db chains) (hl : chains (hashkey key) = pre ++ s :: post)
    (hs : s.key = key ∨ post = []) (hpre : ∀ t ∈ pre, t.key ≠ key)
    (hhead : db.bucket (hashkey key) = some head) :
    walk (fun n => n.next.isNone || sameKey key n) db.heap db.heap.brk none (some head)
      = some (trail none (pre.map Slot.node), some s.addr) := by
  have hseg := h.chain (hashkey key)
  have hlen := hseg.length_le
  rw [hl, hhead, List.map_append, List.map_cons] at hseg
  obtain ⟨m, hsegpre, hsegs⟩ := seg_append.mp hseg
  obtain ⟨rfl, n, hn, hrest⟩ := hsegs
  refine walk_seg hsegpre ?_ ?_ ?_
  · rw [hl] at hlen
    simp only [List.length_map, List.length_append] at hlen ⊢
    omega
  · -- a node in front has a successor and another key, so the walk passes it
    intro x hx n' hn'
    obtain ⟨t, ht, rfl⟩ := List.mem_map.mp hx
    obtain ⟨m', hm'⟩ := hsegpre.cell (a := t.addr) (List.mem_map_of_mem (f := Slot.node) ht)
    have hnext := hsegpre.next_ne_none (by simp) _ hx n' hn'
    have hcell : n' = ⟨t.entry.toMement t.key, m'⟩ := Option.some.inj (hn'.symm.trans hm')
    have hkey : sameKey key n' = false := by
      rw [sameKey, hcell]
      simpa using hpre t ht
    rw [hkey, Bool.or_false]
    exact Option.isNone_eq_false_iff.mpr (Option.isSome_iff_ne_none.mpr hnext)
  · intro a ha
    obtain rfl := Option.some.inj ha
    refine ⟨_, hn, ?_⟩
    rcases hs with hs | hs
    · simp [sameKey, hs]
    · have hnone : n = none := by
        rw [hs] at hrest
        exact hrest
      simp [hnone]

/-- A new slot behind the chain of its bucket. -/
theorem viewOf_append {chains : Chains} {s : Slot}
    (hno : ∀ t ∈ chains (hashkey s.key), t.key ≠ s.key) :
    viewOf hashkey (Function.update chains (hashkey s.key) (chains (hashkey s.key) ++ [s]))
      = Function.update (viewOf hashkey chains) s.key (some (s.addr, s.entry)) := by
  rw [viewOf_update]
  · rw [slotOf_append_self hno]
    rfl
  · intro k hk
    rw [slotOf_skip (fun heq => hk heq.symm), List.append_nil]

/-- The keys of a chain with a new slot behind it. -/
theorem Wf.append_entry {chains : Chains} {s : Slot} (h : Wf hashkey db chains)
    (hno : ∀ t ∈ chains (hashkey s.key), t.key ≠ s.key) :
    (∀ t ∈ chains (hashkey s.key) ++ [s], hashkey t.key = hashkey s.key) ∧
      ((chains (hashkey s.key) ++ [s]).map Slot.key).Nodup := by
  constructor
  · intro t ht
    rcases List.mem_append.mp ht with ht | ht
    · exact h.placed _ t ht
    · obtain rfl : t = s := by simpa using ht
      rfl
  · rw [List.map_append, List.nodup_append]
    refine ⟨h.uniq _, by simp, fun k hk k' hk' heq => ?_⟩
    obtain ⟨t, ht, rfl⟩ := List.mem_map.mp hk
    obtain rfl : k' = s.key := by simpa using hk'
    exact hno t ht heq

/-- The address of a node allocated now is not on a chain. -/
theorem Wf.brk_not_mem {chains : Chains} (h : Wf hashkey db chains) (i : Fin HASHSIZE) :
    db.heap.brk ∉ ((chains i).map Slot.node).map Prod.fst := by
  intro hm
  rw [List.map_map] at hm
  obtain ⟨t, ht, heq⟩ := List.mem_map.mp hm
  exact h.addr_ne_brk ht heq

/-- A chain that lists something has a head. -/
theorem Wf.head {chains : Chains} {s : Slot} (h : Wf hashkey db chains) {i : Fin HASHSIZE}
    (hs : s ∈ chains i) : ∃ head, db.bucket i = some head := by
  have hseg := h.chain i
  cases hl : chains i with
  | nil => rw [hl] at hs; exact absurd hs (by simp)
  | cons t l => rw [hl] at hseg; exact ⟨_, hseg.1⟩

/-- What the locked section of `memdb_add` achieves: it returns 0, the view is the
new one, nothing freed comes back to life, and `memdbsize` counts a new key. -/
structure Added (hashkey : Bytes → Fin HASHSIZE) (view : Bytes → Option (Nat × Entry))
    (key : Bytes) (e : Entry) (db db' : Memdb) : Prop where
  run : memdbAddLocked hashkey (e.toMement key) db = some (0, db')
  rep : Rep hashkey db' (addView view key db.heap.brk e)
  freed : ∀ a expire stamp, view key = some (a, .null expire stamp) → db'.heap.Dead a
  dead : ∀ b, db.heap.Dead b → db'.heap.Dead b
  size : db'.memdbsize = db.memdbsize + (if (view key).isNone then 1 else 0)

/-- An absent key in an empty bucket: the new node becomes the head. -/
theorem added_first {chains : Chains} (h : Wf hashkey db chains)
    (hl : chains (hashkey key) = []) (e : Entry) :
    ∃ db', Added hashkey (viewOf hashkey chains) key e db db' := by
  have hno : ∀ t ∈ chains (hashkey key), t.key ≠ key := by simp [hl]
  have hv : viewOf hashkey chains key = none := by rw [viewOf_eq, hl]; rfl
  have hbucket : db.bucket (hashkey key) = none := by
    have hseg := h.chain (hashkey key)
    rw [hl] at hseg
    exact hseg
  have hcell := db.heap.alloc_cell_self ⟨e.toMement key, none⟩
  obtain ⟨hplaced, huniq⟩ := h.append_entry (s := ⟨db.heap.brk, key, e⟩) hno
  refine ⟨⟨db.heap.alloc ⟨e.toMement key, none⟩,
    Function.update db.bucket (hashkey key) (some db.heap.brk), db.memdbsize + 1⟩,
    ?_, ?_, ?_, fun b hb => hb.alloc _, ?_⟩
  · unfold memdbAddLocked
    simp only [Entry.toMement_key]
    rw [hbucket]
  · unfold addView
    rw [hv]
    refine ⟨_, (h.alloc ⟨e.toMement key, none⟩).update key ?_ hplaced huniq
      fun _ _ _ _ => rfl, viewOf_append (s := ⟨db.heap.brk, key, e⟩) hno⟩
    rw [hl]
    exact ⟨rfl, none, hcell, rfl⟩
  · intro a m s ha
    rw [hv] at ha
    exact absurd ha (by simp)
  · rw [hv]
    rfl

/-- An absent key in a bucket in use: the new node goes behind the last one. -/
theorem added_last {chains : Chains} {pre : List Slot} {s : Slot} (h : Wf hashkey db chains)
    (hl : chains (hashkey key) = pre ++ [s]) (hno : ∀ t ∈ chains (hashkey key), t.key ≠ key)
    (e : Entry) : ∃ db', Added hashkey (viewOf hashkey chains) key e db db' := by
  have hmem : s ∈ chains (hashkey key) := by rw [hl]; simp
  have hv : viewOf hashkey chains key = none := by rw [viewOf_eq, slotOf_of_ne hno]; rfl
  have halloc := h.alloc ⟨e.toMement key, none⟩
  obtain ⟨head, hhead⟩ := h.head hmem
  obtain ⟨nx, hs⟩ := halloc.cell hmem
  have hs' : (db.heap.alloc ⟨e.toMement key, none⟩).cell s.addr
      = some ⟨s.entry.toMement s.key, nx⟩ := hs
  have hwalk := addWalk halloc hl (Or.inr rfl)
    (fun t ht => hno t (by rw [hl]; exact List.mem_append_left _ ht)) hhead
  have hkey : sameKey key ⟨s.entry.toMement s.key, nx⟩ = false := by
    simpa [sameKey] using hno s hmem
  obtain ⟨hplaced, huniq⟩ := h.append_entry (s := ⟨db.heap.brk, key, e⟩) hno
  refine ⟨⟨(db.heap.alloc ⟨e.toMement key, none⟩).modify s.addr fun m =>
      { m with next := some db.heap.brk }, db.bucket, db.memdbsize + 1⟩,
    ?_, ?_, ?_, fun b hb => (hb.alloc _).modify _, ?_⟩
  · unfold memdbAddLocked
    simp only [Entry.toMement_key]
    rw [hhead]
    simp only [hwalk, hs', hkey, Bool.false_eq_true, if_false]
  · unfold addView
    rw [hv]
    -- the head stays, so the bucket is updated with what it holds
    have hbucket : Function.update db.bucket (hashkey key) (db.bucket (hashkey key))
        = db.bucket := Function.update_eq_self ..
    rw [← hbucket]
    refine ⟨_, halloc.update key ?_ hplaced huniq ?_,
      viewOf_append (s := ⟨db.heap.brk, key, e⟩) hno⟩
    · have hseg := halloc.chain (hashkey key)
      have hnew := h.brk_not_mem (hashkey key)
      rw [hl, List.map_append] at hseg hnew
      rw [hl, List.map_append, List.map_append]
      exact append_chain hseg (db.heap.alloc_cell_self _) hnew
    · intro j hj t ht
      exact Heap.modify_cell_ne (h.frame hj ht hmem rfl) _
  · intro a m t ha
    rw [hv] at ha
    exact absurd ha (by simp)
  · rw [hv]
    rfl

/-- A record under the key stays; the prepared node leaks. -/
theorem added_value {a : Nat} {vals : List Bytes} {stamp : Int} (hr : Rep hashkey db view)
    (hv : view key = some (a, .value vals stamp)) (e : Entry) :
    ∃ db', Added hashkey view key e db db' := by
  obtain ⟨chains, pre, post, h, hview, hl, hpre⟩ := hr.slot hv
  have hmem : (⟨a, key, .value vals stamp⟩ : Slot) ∈ chains (hashkey key) := by rw [hl]; simp
  have halloc := h.alloc ⟨e.toMement key, none⟩
  obtain ⟨head, hhead⟩ := h.head hmem
  obtain ⟨nx, hs⟩ := halloc.cell hmem
  have hs' : (db.heap.alloc ⟨e.toMement key, none⟩).cell a
      = some ⟨Entry.toMement key (.value vals stamp), nx⟩ := hs
  have hwalk := addWalk halloc hl (Or.inl rfl) hpre hhead
  have hkey : sameKey key ⟨Entry.toMement key (.value vals stamp), nx⟩ = true := by
    simp [sameKey]
  refine ⟨{ db with heap := db.heap.alloc ⟨e.toMement key, none⟩ }, ?_, ?_, ?_,
    fun b hb => hb.alloc _, ?_⟩
  · unfold memdbAddLocked
    simp only [Entry.toMement_key]
    rw [hhead]
    simp only [hwalk, hs', hkey, if_true]
    rfl
  · unfold addView
    rw [hv]
    exact ⟨chains, halloc, hview⟩
  · intro b m t hb
    rw [hv] at hb
    exact absurd hb (by simp)
  · rw [hv]
    simp

/-- A non-result under the key is replaced by the new node and freed. -/
theorem added_null {a : Nat} {expire stamp : Int} (hr : Rep hashkey db view)
    (hv : view key = some (a, .null expire stamp)) (e : Entry) :
    ∃ db', Added hashkey view key e db db' := by
  obtain ⟨chains, pre, post, h, hview, hl, hpre⟩ := hr.slot hv
  have hmem : (⟨a, key, .null expire stamp⟩ : Slot) ∈ chains (hashkey key) := by rw [hl]; simp
  have halloc := h.alloc ⟨e.toMement key, none⟩
  obtain ⟨head, hhead⟩ := h.head hmem
  obtain ⟨nx, hs⟩ := halloc.cell hmem
  have hs' : (db.heap.alloc ⟨e.toMement key, none⟩).cell a
      = some ⟨Entry.toMement key (.null expire stamp), nx⟩ := hs
  have hlt : a < (db.heap.alloc ⟨e.toMement key, none⟩).brk := Heap.lt_brk hs'
  have hwalk := addWalk halloc hl (Or.inl rfl) hpre hhead
  have hkey : sameKey key ⟨Entry.toMement key (.null expire stamp), nx⟩ = true := by
    simp [sameKey]
  obtain ⟨hplaced, huniq⟩ := h.swap_entry hl (t := ⟨db.heap.brk, key, e⟩) rfl
  let r := relink (db.heap.alloc ⟨e.toMement key, none⟩) (some head)
    (trail none (pre.map Slot.node)) (some db.heap.brk)
  refine ⟨⟨(r.1.modify db.heap.brk fun m => { m with next := nx }).free a,
    Function.update db.bucket (hashkey key) r.2, db.memdbsize⟩, ?_, ?_, ?_, ?_, ?_⟩
  · unfold memdbAddLocked
    simp only [Entry.toMement_key]
    rw [hhead]
    simp only [hwalk, hs', hkey, if_true]
    rfl
  · unfold addView
    rw [hv]
    refine ⟨_, halloc.update key ?_ hplaced huniq ?_, ?_⟩
    · have hseg := halloc.chain (hashkey key)
      have hnew := h.brk_not_mem (hashkey key)
      rw [show ({ db with heap := db.heap.alloc ⟨e.toMement key, none⟩ } : Memdb).bucket
        (hashkey key) = some head from hhead, hl, List.map_append, List.map_cons] at hseg
      rw [hl, List.map_append, List.map_cons] at hnew
      rw [List.map_append, List.map_cons]
      exact replace_chain hseg hs' (db.heap.alloc_cell_self _) hnew
    · -- other buckets: neither the old node, nor the new one, nor the one in front is theirs
      intro j hj t ht
      rw [Heap.free_cell_ne (h.frame hj ht hmem rfl), Heap.modify_cell_ne (h.addr_ne_brk ht)]
      exact relink_trail_cell (h.addr_not_mem hj ht fun u hu => by rw [hl]; simp [hu])
    · rw [viewOf_update, slotOf_append_self (s := ⟨db.heap.brk, key, e⟩) hpre, hview]
      · rfl
      · intro k hk
        rw [hl, slotOf_skip (fun heq => hk heq.symm), slotOf_skip (fun heq => hk heq.symm)]
  · intro b m t hb
    obtain rfl : a = b := congrArg Prod.fst (Option.some.inj (hv.symm.trans hb))
    apply Heap.dead_free
    rw [Heap.modify_brk, relink_brk]
    exact hlt
  · intro b hb
    exact ((relink_dead (hb.alloc _)).modify _).free
  · rw [hv]
    simp

/-- The locked section of `memdb_add`, whatever the cache holds under the key. -/
theorem memdbAddLocked_rep (hr : Rep hashkey db view) (key : Bytes) (e : Entry) :
    ∃ db', Added hashkey view key e db db' := by
  cases hv : view key with
  | none =>
    obtain ⟨chains, h, rfl, hno⟩ := hr.no_slot hv
    rcases List.eq_nil_or_concat' (chains (hashkey key)) with hl | ⟨pre, s, hl⟩
    · exact added_first h hl e
    · exact added_last h hl hno e
  | some ae =>
    obtain ⟨a, old⟩ := ae
    cases old with
    | value vals stamp => exact added_value hr hv e
    | null expire stamp => exact added_null hr hv e

end Specs

end Nastd.Server
