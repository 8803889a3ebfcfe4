import Nastd.Server.CacheMap

/-!
# The cache under many threads

Connection threads run `memdb_get` and `memdb_upd`, fallthrough workers `memdb_add`,
a periodic thread swaps the CDB. Every stretch under `memdb_lk` is one step here.
`memdb_get` and `memdb_add` have one such stretch; `memdb_upd` has two: it looks the
key up, gives the lock back, and then either writes through the pointer it found or,
having found nothing, goes through `memdb_add`.

What can happen in between decides whether an acknowledged update survives:

* the entry found is unlinked (it was a non-result that expired, or a fallthrough
  result replaced it): the write goes to a node that is gone;
* no entry was found, and a fallthrough result is added first: `memdb_add` finds a
  record and keeps it.

`Intact` says that neither happened. `noLostUpdate_intact` shows it is all an update
needs: from then on every get returns its list, through any interleaving. The
invariant behind it is `CacheInv`: a pointer kept by `memdb_upd` names the entry of
its key or a freed node, never somebody else's.
-/

namespace Nastd.Server

open Nastd.Lib

/-- Where a thread stands in the cache's code. -/
inductive CacheThread where
  /-- In no operation. -/
  | idle
  /-- In `memdb_add` for a fallthrough result: the entry is built, the lock not taken. -/
  | adding (ent : Mement)
  /-- In `memdb_upd`, past the length check. -/
  | updFinding (key : Bytes) (vals : List Bytes)
  /-- In `memdb_upd`, key not found: in the `memdb_add` it calls. -/
  | updAdding (ent : Mement)
  /-- In `memdb_upd`, key found at `p`, lock given back. -/
  | updWriting (key : Bytes) (vals : List Bytes) (p : Nat)

/-- The cache, the CDB globals it reads, and the threads. -/
structure CacheSys where
  db : Memdb
  cdbMtime : Int
  dbFieldcount : Nat
  thread : Nat → CacheThread

/-- One step of one thread. Clock readings come with the step. -/
inductive CacheAct where
  /-- All of `memdb_get`. -/
  | get (t : Nat) (key : Bytes) (now : Int)
  /-- `memdb_add` up to its lock. -/
  | addStart (t : Nat) (key : Bytes) (vals : List Bytes) (now : Int)
  /-- The locked section of `memdb_add`. -/
  | addLocked (t : Nat)
  /-- The length check of `memdb_upd`. -/
  | updStart (t : Nat) (key : Bytes) (vals : List Bytes)
  /-- The first locked section of `memdb_upd`. -/
  | updFind (t : Nat) (now : Int)
  /-- The second locked section of `memdb_upd`. -/
  | updWrite (t : Nat) (now : Int)
  /-- A CDB is loaded; `cdb_new` always counts at least one column. -/
  | reload (mtime : Int) (fieldcount : Nat)

/-- What a step returns to its caller. -/
inductive CacheOut where
  | silent
  | got (key : Bytes) (rc : Int) (vals : List Bytes)
  /-- `memdb_upd(key, vals)` returned `rc`, having stamped the entry with `stamp`. -/
  | updated (key : Bytes) (vals : List Bytes) (rc : Int) (stamp : Int)
  deriving DecidableEq

/-- Thread `t` moves on. -/
def CacheSys.goto (s : CacheSys) (t : Nat) (th : CacheThread) : CacheSys :=
  { s with thread := Function.update s.thread t th }

/-- The state before any thread has run. -/
def cacheInit (mtime : Int) (fieldcount : Nat) : CacheSys :=
  ⟨memdbNew, mtime, fieldcount, fun _ => .idle⟩

/-- The step function. -/
def cacheStep (hashkey : Bytes → Fin HASHSIZE) (nullCacheTimeout : Int) (s : CacheSys) :
    CacheAct → Option (CacheOut × CacheSys)
  | .get t key now =>
    match s.thread t with
    | .idle =>
      (memdbGet hashkey now s.cdbMtime key [] s.db).map
        fun r => (.got key r.1 r.2.1, { s with db := r.2.2 })
    | _ => none
  | .addStart t key vals now =>
    match s.thread t with
    | .idle => some (.silent, s.goto t (.adding (memdbAddEnt nullCacheTimeout now key vals)))
    | _ => none
  | .addLocked t =>
    match s.thread t with
    | .adding ent =>
      (memdbAddLocked hashkey ent s.db).map fun r => (.silent, { s.goto t .idle with db := r.2 })
    | .updAdding ent =>
      (memdbAddLocked hashkey ent s.db).map fun r =>
        (.updated ent.key ent.vals r.1 (ent.updTime.getD 0), { s.goto t .idle with db := r.2 })
    | _ => none
  | .updStart t key vals =>
    match s.thread t with
    | .idle =>
      if vals.length ≠ s.dbFieldcount then some (.updated key vals (-1) 0, s)
      else some (.silent, s.goto t (.updFinding key vals))
    | _ => none
  | .updFind t now =>
    match s.thread t with
    | .updFinding key vals =>
      (memdbUpdFind hashkey key s.db).map fun found =>
        match found with
        | none => (.silent, s.goto t (.updAdding (memdbAddEnt nullCacheTimeout now key vals)))
        | some p => (.silent, s.goto t (.updWriting key vals p))
    | _ => none
  | .updWrite t now =>
    match s.thread t with
    | .updWriting key vals p =>
      some (.updated key vals 0 now, { s.goto t .idle with db := memdbUpdWrite p now vals s.db })
    | _ => none
  | .reload mtime fieldcount =>
    if fieldcount = 0 then none
    else some (.silent, { s with cdbMtime := mtime, dbFieldcount := fieldcount })

/-- The thread is inside `memdb_upd` for `key`. -/
def CacheThread.Updating (key : Bytes) : CacheThread → Prop
  | .updFinding k _ => k = key
  | .updAdding ent => ent.key = key
  | .updWriting k _ _ => k = key
  | _ => False

/-- The step begins a `memdb_upd` for `key`. -/
def CacheAct.StartsUpd (key : Bytes) : CacheAct → Prop
  | .updStart _ k _ => k = key
  | _ => False

/-- The step loads no CDB with an mtime later than `stamp`. -/
def CacheAct.MtimeLe (stamp : Int) : CacheAct → Prop
  | .reload mtime _ => mtime ≤ stamp
  | _ => True

/-- The thread that takes the step. -/
def CacheAct.actor : CacheAct → Option Nat
  | .get t _ _ => some t
  | .addStart t _ _ _ => some t
  | .addLocked t => some t
  | .updStart t _ _ => some t
  | .updFind t _ => some t
  | .updWrite t _ => some t
  | .reload _ _ => none

/-- Between the two sections of an update nothing relevant has changed: the entry it
found is still the one linked under the key, or, when it found none, no record has
been linked under the key since. -/
def Intact (hashkey : Bytes → Fin HASHSIZE) (s : CacheSys) : CacheAct → Prop
  | .updWrite t _ =>
    ∀ key vals p, s.thread t = .updWriting key vals p →
      memdbUpdFind hashkey key s.db = some (some p)
  | .addLocked t =>
    ∀ ent, s.thread t = .updAdding ent → ∀ p n, memdbUpdFind hashkey ent.key s.db = some (some p) →
      s.db.heap.cell p = some n → n.ent.type = .expire
  | _ => True

/-- **No acknowledged update is lost**, for the updates whose last step meets `cond`.
After any history, thread steps `fin` completes `memdb_upd(k, v)` with 0. No other
thread is then inside an update of `k`, none starts one later, and no CDB newer than
the update's stamp is or gets loaded. Then every later `memdb_get(k)` returns 0 and
exactly `v`. -/
def NoLostUpdate (hashkey : Bytes → Fin HASHSIZE) (nullCacheTimeout : Int)
    (cond : CacheSys → CacheAct → Prop) : Prop :=
  ∀ (mtime : Int) (fieldcount : Nat), 1 ≤ fieldcount →
  ∀ (before after : List CacheAct) (fin : CacheAct) (os₁ os₂ : List CacheOut)
    (s₁ s₂ s₃ : CacheSys) (k : Bytes) (v : List Bytes) (stamp : Int),
    runs (cacheStep hashkey nullCacheTimeout) (cacheInit mtime fieldcount) before
      = some (os₁, s₁) →
    cacheStep hashkey nullCacheTimeout s₁ fin = some (.updated k v 0 stamp, s₂) →
    cond s₁ fin →
    (∀ t, fin.actor ≠ some t → ¬ (s₁.thread t).Updating k) →
    s₁.cdbMtime ≤ stamp →
    runs (cacheStep hashkey nullCacheTimeout) s₂ after = some (os₂, s₃) →
    (∀ a ∈ after, ¬ a.StartsUpd k) → (∀ a ∈ after, a.MtimeLe stamp) →
    ∀ t now, s₃.thread t = .idle →
      ∃ s₄, cacheStep hashkey nullCacheTimeout s₃ (.get t k now) = some (.got k 0 v, s₄)

/-- The run that loses an update. A non-result for the key expires between the two
sections: thread 0 has found it, thread 1's get unlinks it, thread 0 writes to the
freed node and returns 0. -/
theorem noLostUpdate_false : ¬ NoLostUpdate (fun _ => 0) 60 (fun _ _ => True) := by
  intro h
  obtain ⟨s₄, hs⟩ := h 0 1 (by decide)
    [.addStart 2 [1] [] 0, .addLocked 2, .updStart 0 [1] [[7]], .updFind 0 100, .get 1 [1] 100] []
    (.updWrite 0 100) _ _ _ _ _ [1] [[7]] 100 rfl rfl trivial
    (by
      intro t ht
      have hne : t ≠ 0 := fun he => ht (he ▸ rfl)
      simp [CacheSys.goto, cacheInit, Function.update_of_ne hne,
        CacheThread.Updating])
    (by decide) rfl (by simp) (by simp) 1 100 rfl
  have hmiss : some (CacheOut.got [1] (-1) []) = some (.got [1] 0 [[7]]) :=
    (congrArg (Option.map Prod.fst) hs : _)
  exact absurd hmiss (by decide)

/-! ## The invariant -/

/-- What a thread holds is sound: an entry it built is an entry, a list it will store
is not empty, and a pointer it keeps names the entry of its key or a freed node. -/
def ThreadOk (db : Memdb) (view : Bytes → Option (Nat × Entry)) : CacheThread → Prop
  | .idle => True
  | .adding ent => ∃ key e, ent = Entry.toMement key e
  | .updFinding _ vals => vals ≠ []
  | .updAdding ent => ∃ key vals stamp, ent = Entry.toMement key (.value vals stamp)
  | .updWriting key _ p => db.heap.Dead p ∨ ∃ e, view key = some (p, e)

/-- The heap represents the view, there is a column, and every thread is sound. -/
structure CacheInv (hashkey : Bytes → Fin HASHSIZE) (s : CacheSys)
    (view : Bytes → Option (Nat × Entry)) : Prop where
  rep : Rep hashkey s.db view
  columns : 1 ≤ s.dbFieldcount
  threads : ∀ t, ThreadOk s.db view (s.thread t)

/-- How an operation may change the cache: freed nodes stay freed, and an entry is
kept at its address or freed. -/
structure Evolves (hashkey : Bytes → Fin HASHSIZE) (db : Memdb)
    (view : Bytes → Option (Nat × Entry)) (db' : Memdb)
    (view' : Bytes → Option (Nat × Entry)) : Prop where
  rep : Rep hashkey db' view'
  dead : ∀ b, db.heap.Dead b → db'.heap.Dead b
  moved : ∀ k p e, view k = some (p, e) → db'.heap.Dead p ∨ ∃ e', view' k = some (p, e')

variable {hashkey : Bytes → Fin HASHSIZE} {nullCacheTimeout : Int}

/-- A thread stays sound while others change the cache. -/
theorem ThreadOk.evolves {db db' : Memdb} {view view' : Bytes → Option (Nat × Entry)}
    (h : Evolves hashkey db view db' view') {th : CacheThread} (hth : ThreadOk db view th) :
    ThreadOk db' view' th := by
  cases th with
  | idle => trivial
  | adding ent => exact hth
  | updFinding key vals => exact hth
  | updAdding ent => exact hth
  | updWriting key vals p =>
    rcases hth with hdead | ⟨e, he⟩
    · exact Or.inl (h.dead p hdead)
    · exact h.moved key p e he

/-- Changing the entry of one key, at its address or by freeing it. -/
theorem evolves_update {db db' : Memdb} {view : Bytes → Option (Nat × Entry)} {key : Bytes}
    {x : Option (Nat × Entry)} (hrep : Rep hashkey db' (Function.update view key x))
    (hdead : ∀ b, db.heap.Dead b → db'.heap.Dead b)
    (hkey : ∀ p e, view key = some (p, e) → db'.heap.Dead p ∨ ∃ e', x = some (p, e')) :
    Evolves hashkey db view db' (Function.update view key x) := by
  refine ⟨hrep, hdead, fun k p e he => ?_⟩
  by_cases hk : k = key
  · subst hk
    rw [Function.update_self]
    exact hkey p e he
  · rw [Function.update_of_ne hk]
    exact Or.inr ⟨e, he⟩

/-- `memdb_get` adds nothing, and leaves a record that is not outdated, whosever it
is. -/
theorem get_evolves {db : Memdb} {view : Bytes → Option (Nat × Entry)}
    (hr : Rep hashkey db view) (now cdbMtime : Int) (key : Bytes) :
    ∃ rc vals db' view', memdbGet hashkey now cdbMtime key [] db = some (rc, vals, db') ∧
      Evolves hashkey db view db' view' ∧ (∀ k x, view' k = some x → view k = some x) ∧
      ∀ k a v stamp, view k = some (a, .value v stamp) → cdbMtime ≤ stamp →
        view' k = some (a, .value v stamp) := by
  have hsame : Evolves hashkey db view db view :=
    ⟨hr, fun _ hb => hb, fun k p e he => Or.inr ⟨e, he⟩⟩
  cases hv : view key with
  | none =>
    exact ⟨_, _, db, view, memdbGet_absent hr hv now cdbMtime [], hsame, fun _ _ h => h,
      fun _ _ _ _ h _ => h⟩
  | some ae =>
    obtain ⟨a, e⟩ := ae
    cases hg : e.gone now cdbMtime with
    | false =>
      exact ⟨_, _, db, view, memdbGet_live hr hv hg [], hsame, fun _ _ h => h,
        fun _ _ _ _ h _ => h⟩
    | true =>
      obtain ⟨db', hrun, hr', hfreed, hdead, -⟩ := memdbGet_gone hr hv hg []
      refine ⟨_, _, db', _, hrun, evolves_update hr' hdead ?_, ?_, ?_⟩
      · intro p e' he'
        obtain rfl : a = p := congrArg Prod.fst (Option.some.inj (hv.symm.trans he'))
        exact Or.inl hfreed
      · intro k x hk
        by_cases hkk : k = key
        · rw [hkk, Function.update_self] at hk
          exact absurd hk (by simp)
        · rw [Function.update_of_ne hkk] at hk
          exact hk
      · intro k b v stamp hk hle
        by_cases hkk : k = key
        · -- the entry removed was outdated, so it is not the record in question
          subst hkk
          have he : e = .value v stamp := congrArg Prod.snd (Option.some.inj (hv.symm.trans hk))
          rw [he] at hg
          have hgt : cdbMtime > stamp := by simpa [Entry.gone] using hg
          omega
        · rw [Function.update_of_ne hkk]
          exact hk

/-- `memdb_add` leaves every record, and adds at most its own entry. -/
theorem add_evolves {db : Memdb} {view : Bytes → Option (Nat × Entry)}
    (hr : Rep hashkey db view) (key : Bytes) (e : Entry) :
    ∃ db', memdbAddLocked hashkey (e.toMement key) db = some (0, db') ∧
      Evolves hashkey db view db' (addView view key db.heap.brk e) ∧
      (∀ k x, addView view key db.heap.brk e k = some x →
        view k = some x ∨ (k = key ∧ x = (db.heap.brk, e))) ∧
      ∀ k a v stamp, view k = some (a, .value v stamp) →
        addView view key db.heap.brk e k = some (a, .value v stamp) := by
  obtain ⟨db', hadd⟩ := memdbAddLocked_rep hr key e
  have hrep := hadd.rep
  by_cases hv : ∃ p v stamp, view key = some (p, .value v stamp)
  · -- a record is there already, and the view stays as it is
    obtain ⟨p, v, stamp, hv⟩ := hv
    rw [addView_of_value hv] at hrep ⊢
    exact ⟨db', hadd.run, ⟨hrep, hadd.dead, fun k p e' he' => Or.inr ⟨e', he'⟩⟩,
      fun k x hk => Or.inl hk, fun k a v stamp hk => hk⟩
  · have hno : ∀ p v stamp, view key ≠ some (p, .value v stamp) :=
      fun p v stamp he => hv ⟨p, v, stamp, he⟩
    rw [addView_of_not_value hno] at hrep ⊢
    refine ⟨db', hadd.run, evolves_update hrep hadd.dead fun p e' he' => Or.inl ?_, ?_, ?_⟩
    · -- what the new entry replaces is a non-result, which is freed
      cases e' with
      | value v stamp => exact absurd he' (hno p v stamp)
      | null expire stamp => exact hadd.freed p expire stamp he'
    · intro k x hk
      by_cases hkk : k = key
      · rw [hkk, Function.update_self] at hk
        exact Or.inr ⟨hkk, (Option.some.inj hk).symm⟩
      · rw [Function.update_of_ne hkk] at hk
        exact Or.inl hk
    · intro k a v stamp hk
      have hkk : k ≠ key := fun he => hno a v stamp (he ▸ hk)
      rw [Function.update_of_ne hkk]
      exact hk

/-- The write of `memdb_upd` changes the entry of its own key, or nothing. -/
theorem write_evolves {db : Memdb} {view : Bytes → Option (Nat × Entry)}
    (hr : Rep hashkey db view) {key : Bytes} {p : Nat} (now : Int) (vals : List Bytes)
    (hp : db.heap.Dead p ∨ ∃ e, view key = some (p, e)) :
    ∃ view', Evolves hashkey db view (memdbUpdWrite p now vals db) view' ∧
      (∀ k, k ≠ key → view' k = view k) ∧
      (∀ x, view' key = some x → view key = some x ∨ x = (p, .value vals now)) ∧
      ∀ e, view key = some (p, e) → view' key = some (p, .value vals now) := by
  have hdead : ∀ b, db.heap.Dead b → (memdbUpdWrite p now vals db).heap.Dead b :=
    fun b hb => hb.modify _
  rcases hp with hdp | ⟨e, he⟩
  · refine ⟨view, ⟨memdbUpdWrite_dangling hdp.2 now vals hr, hdead,
      fun k q e he => Or.inr ⟨e, he⟩⟩, fun k _ => rfl, fun x hx => Or.inl hx, fun e he => ?_⟩
    obtain ⟨nx, hn⟩ := hr.cell he
    rw [hdp.2] at hn
    exact absurd hn (by simp)
  · refine ⟨_, evolves_update (memdbUpdWrite_rep hr he now vals) hdead ?_,
      fun k hk => Function.update_of_ne hk .., ?_, fun e' _ => Function.update_self ..⟩
    · intro q e' he'
      obtain rfl : p = q := congrArg Prod.fst (Option.some.inj (he.symm.trans he'))
      exact Or.inr ⟨_, rfl⟩
    · intro x hx
      rw [Function.update_self] at hx
      exact Or.inr (Option.some.inj hx).symm

/-- A thread that moves on, over a cache that may have changed. -/
theorem CacheInv.goto {s : CacheSys} {view view' : Bytes → Option (Nat × Entry)} {db' : Memdb}
    (h : CacheInv hashkey s view) (hev : Evolves hashkey s.db view db' view') {t : Nat}
    {th : CacheThread} (hth : ThreadOk db' view' th) :
    CacheInv hashkey { s.goto t th with db := db' } view' := by
  refine ⟨hev.rep, h.columns, fun t' => ?_⟩
  show ThreadOk db' view' (Function.update s.thread t th t')
  by_cases ht : t' = t
  · subst ht
    rw [Function.update_self]
    exact hth
  · rw [Function.update_of_ne ht]
    exact (h.threads t').evolves hev

/-- Nothing in the cache changes. -/
theorem CacheInv.stay {s : CacheSys} {view : Bytes → Option (Nat × Entry)}
    (h : CacheInv hashkey s view) : Evolves hashkey s.db view s.db view :=
  ⟨h.rep, fun _ hb => hb, fun _ _ e he => Or.inr ⟨e, he⟩⟩

/-- What a step can do: every way for `cacheStep` to succeed. -/
inductive CacheMove (hashkey : Bytes → Fin HASHSIZE) (nullCacheTimeout : Int) (s : CacheSys) :
    CacheAct → CacheOut → CacheSys → Prop where
  | get {t : Nat} {key : Bytes} {now rc : Int} {vals : List Bytes} {db' : Memdb} :
      s.thread t = .idle →
      memdbGet hashkey now s.cdbMtime key [] s.db = some (rc, vals, db') →
      CacheMove hashkey nullCacheTimeout s (.get t key now) (.got key rc vals)
        { s with db := db' }
  | addStart {t : Nat} {key : Bytes} {vals : List Bytes} {now : Int} :
      s.thread t = .idle →
      CacheMove hashkey nullCacheTimeout s (.addStart t key vals now) .silent
        (s.goto t (.adding (memdbAddEnt nullCacheTimeout now key vals)))
  | addLocked {t : Nat} {ent : Mement} {rc : Int} {db' : Memdb} :
      s.thread t = .adding ent → memdbAddLocked hashkey ent s.db = some (rc, db') →
      CacheMove hashkey nullCacheTimeout s (.addLocked t) .silent
        { s.goto t .idle with db := db' }
  | updAddLocked {t : Nat} {ent : Mement} {rc : Int} {db' : Memdb} :
      s.thread t = .updAdding ent → memdbAddLocked hashkey ent s.db = some (rc, db') →
      CacheMove hashkey nullCacheTimeout s (.addLocked t)
        (.updated ent.key ent.vals rc (ent.updTime.getD 0)) { s.goto t .idle with db := db' }
  | updRefused {t : Nat} {key : Bytes} {vals : List Bytes} :
      s.thread t = .idle → vals.length ≠ s.dbFieldcount →
      CacheMove hashkey nullCacheTimeout s (.updStart t key vals) (.updated key vals (-1) 0) s
  | updStart {t : Nat} {key : Bytes} {vals : List Bytes} :
      s.thread t = .idle → vals.length = s.dbFieldcount →
      CacheMove hashkey nullCacheTimeout s (.updStart t key vals) .silent
        (s.goto t (.updFinding key vals))
  | updMissing {t : Nat} {key : Bytes} {vals : List Bytes} {now : Int} :
      s.thread t = .updFinding key vals → memdbUpdFind hashkey key s.db = some none →
      CacheMove hashkey nullCacheTimeout s (.updFind t now) .silent
        (s.goto t (.updAdding (memdbAddEnt nullCacheTimeout now key vals)))
  | updFound {t : Nat} {key : Bytes} {vals : List Bytes} {now : Int} {p : Nat} :
      s.thread t = .updFinding key vals → memdbUpdFind hashkey key s.db = some (some p) →
      CacheMove hashkey nullCacheTimeout s (.updFind t now) .silent
        (s.goto t (.updWriting key vals p))
  | updWrite {t : Nat} {key : Bytes} {vals : List Bytes} {p : Nat} {now : Int} :
      s.thread t = .updWriting key vals p →
      CacheMove hashkey nullCacheTimeout s (.updWrite t now) (.updated key vals 0 now)
        { s.goto t .idle with db := memdbUpdWrite p now vals s.db }
  | reload {mtime : Int} {fieldcount : Nat} :
      1 ≤ fieldcount →
      CacheMove hashkey nullCacheTimeout s (.reload mtime fieldcount) .silent
        { s with cdbMtime := mtime, dbFieldcount := fieldcount }

theorem cacheStep_move {s s' : CacheSys} {act : CacheAct} {o : CacheOut}
    (hstep : cacheStep hashkey nullCacheTimeout s act = some (o, s')) :
    CacheMove hashkey nullCacheTimeout s act o s' := by
  cases act with
  | get t key now =>
    simp only [cacheStep] at hstep
    cases hth : s.thread t with
    | idle =>
      simp only [hth, Option.map_eq_some_iff] at hstep
      obtain ⟨r, hr, heq⟩ := hstep
      obtain ⟨rfl, rfl⟩ := Prod.mk.inj heq
      exact .get hth hr
    | _ => simp [hth] at hstep
  | addStart t key vals now =>
    simp only [cacheStep] at hstep
    cases hth : s.thread t with
    | idle =>
      simp only [hth] at hstep
      obtain ⟨rfl, rfl⟩ := Prod.mk.inj (Option.some.inj hstep)
      exact .addStart hth
    | _ => simp [hth] at hstep
  | addLocked t =>
    simp only [cacheStep] at hstep
    cases hth : s.thread t with
    | adding ent =>
      simp only [hth, Option.map_eq_some_iff] at hstep
      obtain ⟨r, hr, heq⟩ := hstep
      obtain ⟨rfl, rfl⟩ := Prod.mk.inj heq
      exact .addLocked hth hr
    | updAdding ent =>
      simp only [hth, Option.map_eq_some_iff] at hstep
      obtain ⟨r, hr, heq⟩ := hstep
      obtain ⟨rfl, rfl⟩ := Prod.mk.inj heq
      exact .updAddLocked hth hr
    | _ => simp [hth] at hstep
  | updStart t key vals =>
    simp only [cacheStep] at hstep
    cases hth : s.thread t with
    | idle =>
      simp only [hth] at hstep
      by_cases hlen : vals.length = s.dbFieldcount
      · rw [if_neg (not_not_intro hlen)] at hstep
        obtain ⟨rfl, rfl⟩ := Prod.mk.inj (Option.some.inj hstep)
        exact .updStart hth hlen
      · rw [if_pos hlen] at hstep
        obtain ⟨rfl, rfl⟩ := Prod.mk.inj (Option.some.inj hstep)
        exact .updRefused hth hlen
    | _ => simp [hth] at hstep
  | updFind t now =>
    simp only [cacheStep] at hstep
    cases hth : s.thread t with
    | updFinding key vals =>
      simp only [hth, Option.map_eq_some_iff] at hstep
      obtain ⟨found, hfind, heq⟩ := hstep
      cases found with
      | none =>
        obtain ⟨rfl, rfl⟩ := Prod.mk.inj heq
        exact .updMissing hth hfind
      | some p =>
        obtain ⟨rfl, rfl⟩ := Prod.mk.inj heq
        exact .updFound hth hfind
    | _ => simp [hth] at hstep
  | updWrite t now =>
    simp only [cacheStep] at hstep
    cases hth : s.thread t with
    | updWriting key vals p =>
      simp only [hth] at hstep
      obtain ⟨rfl, rfl⟩ := Prod.mk.inj (Option.some.inj hstep)
      exact .updWrite hth
    | _ => simp [hth] at hstep
  | reload mtime fieldcount =>
    simp only [cacheStep] at hstep
    by_cases hfc : fieldcount = 0
    · rw [if_pos hfc] at hstep
      exact absurd hstep (by simp)
    · rw [if_neg hfc] at hstep
      obtain ⟨rfl, rfl⟩ := Prod.mk.inj (Option.some.inj hstep)
      exact .reload (Nat.one_le_iff_ne_zero.mpr hfc)

/-- The record a step may store. -/
def Stores (s : CacheSys) (k : Bytes) (v : List Bytes) (stamp : Int) : CacheAct → Prop
  | .addLocked t => s.thread t = .adding (Entry.toMement k (.value v stamp)) ∨
    s.thread t = .updAdding (Entry.toMement k (.value v stamp))
  | .updWrite t now => (∃ p, s.thread t = .updWriting k v p) ∧ stamp = now
  | _ => False

/-- What a step may do to the records: those it does not store were there before, and one
that is not outdated survives it unless the step writes an update of its key. -/
structure RecordStep (s : CacheSys) (act : CacheAct) (view view' : Bytes → Option (Nat × Entry)) :
    Prop where
  old : ∀ k a v stamp, view' k = some (a, .value v stamp) →
    view k = some (a, .value v stamp) ∨ Stores s k v stamp act
  kept : ∀ k a v stamp, view k = some (a, .value v stamp) → s.cdbMtime ≤ stamp →
    (∀ t, ¬ (s.thread t).Updating k) → view' k = some (a, .value v stamp)

theorem RecordStep.refl (s : CacheSys) (act : CacheAct) (view : Bytes → Option (Nat × Entry)) :
    RecordStep s act view view :=
  ⟨fun _ _ _ _ hk => Or.inl hk, fun _ _ _ _ hk _ _ => hk⟩

/-- The locked section of `memdb_add`, whoever runs it. -/
theorem locked_add_step {s : CacheSys} {act : CacheAct} {view : Bytes → Option (Nat × Entry)}
    (h : CacheInv hashkey s view) (t : Nat) {key : Bytes} {e : Entry} {rc : Int} {db' : Memdb}
    (hrun : memdbAddLocked hashkey (e.toMement key) s.db = some (rc, db'))
    (hstores : ∀ v stamp, e = .value v stamp → Stores s key v stamp act) :
    ∃ view', CacheInv hashkey { s.goto t .idle with db := db' } view' ∧
      RecordStep s act view view' := by
  obtain ⟨_, hrun', hev, hold, hkeep⟩ := add_evolves h.rep key e
  rw [hrun] at hrun'
  obtain ⟨-, rfl⟩ := Prod.mk.inj (Option.some.inj hrun')
  refine ⟨_, h.goto hev trivial, fun k a v stamp hk => ?_,
    fun k a v stamp hk _ _ => hkeep k a v stamp hk⟩
  rcases hold k _ hk with hk | ⟨rfl, hx⟩
  · exact Or.inl hk
  · exact Or.inr (hstores v stamp (congrArg Prod.snd hx).symm)

/-- Every step keeps the invariant. -/
theorem cacheStep_inv {s s' : CacheSys} {act : CacheAct} {o : CacheOut}
    {view : Bytes → Option (Nat × Entry)} (h : CacheInv hashkey s view)
    (hstep : cacheStep hashkey nullCacheTimeout s act = some (o, s')) :
    ∃ view', CacheInv hashkey s' view' ∧ RecordStep s act view view' := by
  cases cacheStep_move hstep with
  | @get t key now rc vals db' hth hrun =>
    obtain ⟨_, _, _, view', hrun', hev, hold, hkeep⟩ := get_evolves h.rep now s.cdbMtime key
    rw [hrun] at hrun'
    obtain ⟨-, rfl⟩ := Prod.mk.inj (congrArg Prod.snd (Option.some.inj hrun'))
    exact ⟨view', ⟨hev.rep, h.columns, fun t' => (h.threads t').evolves hev⟩,
      fun k a v stamp hk => Or.inl (hold k _ hk),
      fun k a v stamp hk hle _ => hkeep k a v stamp hk hle⟩
  | @addStart t key vals now hth =>
    exact ⟨view, h.goto h.stay ⟨key, _, memdbAddEnt_eq nullCacheTimeout now key vals⟩, .refl _ _ _⟩
  | @addLocked t ent rc db' hth hrun =>
    -- a prepared entry carries its key and content, which is what `ThreadOk` recorded
    have hok := h.threads t
    rw [hth] at hok
    obtain ⟨key, e, rfl⟩ := hok
    exact locked_add_step h t hrun fun v stamp he => Or.inl (by rw [hth, he])
  | @updAddLocked t ent rc db' hth hrun =>
    have hok := h.threads t
    rw [hth] at hok
    obtain ⟨key, vals, stamp', rfl⟩ := hok
    exact locked_add_step h t hrun fun v stamp he => Or.inr (by rw [hth, he])
  | updRefused hth hlen => exact ⟨view, h, .refl _ _ _⟩
  | @updStart t key vals hth hlen =>
    have hcols := h.columns
    have hne : vals ≠ [] := by
      intro he
      rw [he, List.length_nil] at hlen
      omega
    exact ⟨view, h.goto h.stay hne, .refl _ _ _⟩
  | @updMissing t key vals now hth hfind =>
    have hok := h.threads t
    rw [hth] at hok
    refine ⟨view, h.goto h.stay ⟨key, vals, now, ?_⟩, .refl _ _ _⟩
    rw [memdbAddEnt_eq, CacheMap.newEntry, if_neg hok]
  | @updFound t key vals now p hth hfind =>
    rw [memdbUpdFind_eq h.rep key] at hfind
    obtain ⟨ae, hv, hae⟩ := Option.map_eq_some_iff.mp (Option.some.inj hfind)
    subst hae
    exact ⟨view, h.goto h.stay (Or.inr ⟨ae.2, hv⟩), .refl _ _ _⟩
  | @updWrite t key vals p now hth =>
    have hok := h.threads t
    rw [hth] at hok
    obtain ⟨view', hev, hother, hold, -⟩ := write_evolves h.rep now vals hok
    refine ⟨view', h.goto hev trivial, fun k a v stamp hk => ?_, fun k a v stamp hk _ hno => ?_⟩
    · by_cases hkk : k = key
      · -- under its own key: the old entry if the pointer dangled, else the new values
        subst hkk
        rcases hold _ hk with hk | hx
        · exact Or.inl hk
        · have he : Entry.value v stamp = .value vals now := congrArg Prod.snd hx
          obtain ⟨rfl, rfl⟩ := Entry.value.inj he
          exact Or.inr ⟨⟨p, hth⟩, rfl⟩
      · rw [hother k hkk] at hk
        exact Or.inl hk
    · have hkk : k ≠ key := by
        intro he
        refine hno t ?_
        rw [hth]
        exact he.symm
      rw [hother k hkk]
      exact hk
  | reload hfc => exact ⟨view, ⟨h.rep, hfc, h.threads⟩, .refl _ _ _⟩

/-! ## The theorem -/

/-- In every reachable state the heap represents some view. -/
theorem cacheRuns_inv {mtime : Int} {fieldcount : Nat} (hfc : 1 ≤ fieldcount)
    {acts : List CacheAct} {os : List CacheOut} {s : CacheSys}
    (hrun : runs (cacheStep hashkey nullCacheTimeout) (cacheInit mtime fieldcount) acts
      = some (os, s)) : ∃ view, CacheInv hashkey s view := by
  have hinit : CacheInv hashkey (cacheInit mtime fieldcount) fun _ => none :=
    ⟨memdbNew_rep, hfc, fun _ => trivial⟩
  refine runs_invariant (g := fun _ _ => True) (I := fun s => ∃ view, CacheInv hashkey s view)
    (fun s act o s' hI _ hstep => ?_) ⟨_, hinit⟩ guarded_true hrun
  obtain ⟨view, h⟩ := hI
  obtain ⟨view', h', -⟩ := cacheStep_inv h hstep
  exact ⟨view', h'⟩

/-- Moving one thread to a place outside the updates of `k`. -/
theorem not_updating_goto {s : CacheSys} {t : Nat} {th : CacheThread} {k : Bytes}
    (hno : ∀ t', t' ≠ t → ¬ (s.thread t').Updating k) (hth : ¬ th.Updating k) :
    ∀ t', ¬ ((s.goto t th).thread t').Updating k := by
  intro t'
  show ¬ (Function.update s.thread t th t').Updating k
  by_cases ht : t' = t
  · subst ht
    rw [Function.update_self]
    exact hth
  · rw [Function.update_of_ne ht]
    exact hno t' ht

/-- What holds from an update's return on: its record is cached, nobody is about to
overwrite it, and the CDB is not newer. -/
structure Held (hashkey : Bytes → Fin HASHSIZE) (k : Bytes) (v : List Bytes) (stamp : Int)
    (s : CacheSys) : Prop where
  inv : ∃ view a, CacheInv hashkey s view ∧ view k = some (a, .value v stamp)
  quiet : ∀ t, ¬ (s.thread t).Updating k
  mtime : s.cdbMtime ≤ stamp

/-- Later steps keep the record. -/
theorem cacheStep_held {s s' : CacheSys} {act : CacheAct} {o : CacheOut} {k : Bytes}
    {v : List Bytes} {stamp : Int} (h : Held hashkey k v stamp s)
    (hact : ¬ act.StartsUpd k ∧ act.MtimeLe stamp)
    (hstep : cacheStep hashkey nullCacheTimeout s act = some (o, s')) :
    Held hashkey k v stamp s' := by
  obtain ⟨⟨view, a, hinv, hk⟩, hquiet, hmtime⟩ := h
  obtain ⟨view', hinv', -, hkeep⟩ := cacheStep_inv hinv hstep
  have hinv'' : ∃ view a, CacheInv hashkey s' view ∧ view k = some (a, .value v stamp) :=
    ⟨view', a, hinv', hkeep k a v stamp hk hmtime hquiet⟩
  have hmoves : ∀ {t : Nat} {th : CacheThread}, ¬ th.Updating k →
      ∀ t', ¬ ((s.goto t th).thread t').Updating k :=
    fun hth => not_updating_goto (fun t' _ => hquiet t') hth
  cases cacheStep_move hstep with
  | get hth hrun => exact ⟨hinv'', hquiet, hmtime⟩
  | addStart hth => exact ⟨hinv'', hmoves fun hf => hf, hmtime⟩
  | addLocked hth hrun => exact ⟨hinv'', hmoves fun hf => hf, hmtime⟩
  | updAddLocked hth hrun => exact ⟨hinv'', hmoves fun hf => hf, hmtime⟩
  | updRefused hth hlen => exact ⟨hinv'', hquiet, hmtime⟩
  | updStart hth hlen => exact ⟨hinv'', hmoves hact.1, hmtime⟩
  | @updMissing t key vals now hth hfind =>
    have hnt := hquiet t
    rw [hth] at hnt
    exact ⟨hinv'', hmoves hnt, hmtime⟩
  | @updFound t key vals now p hth hfind =>
    have hnt := hquiet t
    rw [hth] at hnt
    exact ⟨hinv'', hmoves hnt, hmtime⟩
  | updWrite hth => exact ⟨hinv'', hmoves fun hf => hf, hmtime⟩
  | reload hfc => exact ⟨hinv'', hquiet, hact.2⟩

/-- The last step of an update that nothing came between stores its record. -/
theorem fin_held {s s' : CacheSys} {fin : CacheAct} {k : Bytes} {v : List Bytes} {stamp : Int}
    {view : Bytes → Option (Nat × Entry)} (h : CacheInv hashkey s view)
    (hstep : cacheStep hashkey nullCacheTimeout s fin = some (.updated k v 0 stamp, s'))
    (hintact : Intact hashkey s fin)
    (hquiet : ∀ t, fin.actor ≠ some t → ¬ (s.thread t).Updating k)
    (hmtime : s.cdbMtime ≤ stamp) : Held hashkey k v stamp s' := by
  have hmove := cacheStep_move hstep
  generalize ho : CacheOut.updated k v 0 stamp = o at hmove
  cases hmove with
  | @updAddLocked t ent rc db' hth hrun =>
    have hok := h.threads t
    rw [hth] at hok
    obtain ⟨key, vals, stamp', hent⟩ := hok
    subst hent
    obtain ⟨hkey, hvals, -, hstamp⟩ := CacheOut.updated.inj ho
    have hkey' : k = key := hkey
    have hvals' : v = vals := hvals
    have hstamp' : stamp = stamp' := hstamp
    subst hkey' hvals' hstamp'
    -- no record was linked meanwhile, so the add does not give way to one
    have hno : ∀ p w st, view k ≠ some (p, .value w st) := by
      intro p w st hv
      obtain ⟨nx, hn⟩ := h.rep.cell hv
      have hfind := memdbUpdFind_eq h.rep k
      rw [hv] at hfind
      have htype := hintact _ hth p _ hfind hn
      exact absurd htype (by simp [Entry.toMement])
    obtain ⟨_, hrun'', hev, -, -⟩ := add_evolves h.rep k (.value v stamp)
    rw [hrun] at hrun''
    obtain ⟨-, rfl⟩ := Prod.mk.inj (Option.some.inj hrun'')
    have hview : addView view k s.db.heap.brk (.value v stamp) k
        = some (s.db.heap.brk, .value v stamp) := by
      rw [addView_of_not_value hno, Function.update_self]
    refine ⟨⟨_, s.db.heap.brk, h.goto hev trivial, hview⟩, ?_, hmtime⟩
    exact not_updating_goto (fun t' ht' => hquiet t' fun he => ht' (Option.some.inj he).symm)
      fun hf => hf
  | @updWrite t key vals p now hth =>
    have hok := h.threads t
    rw [hth] at hok
    obtain ⟨hkey, hvals, -, hstamp⟩ := CacheOut.updated.inj ho
    subst hkey hvals hstamp
    obtain ⟨view', hev, -, -, hwritten⟩ := write_evolves h.rep stamp v hok
    -- the entry found is still the one linked under the key
    have hfind := hintact k v p hth
    rw [memdbUpdFind_eq h.rep k] at hfind
    obtain ⟨pe, hv, hpe⟩ := Option.map_eq_some_iff.mp (Option.some.inj hfind)
    subst hpe
    refine ⟨⟨view', pe.1, h.goto hev trivial, hwritten pe.2 hv⟩, ?_, hmtime⟩
    exact not_updating_goto (fun t' ht' => hquiet t' fun he => ht' (Option.some.inj he).symm)
      fun hf => hf
  | updRefused hth hlen =>
    obtain ⟨-, -, hrc, -⟩ := CacheOut.updated.inj ho
    exact absurd hrc (by decide)
  | _ => exact absurd ho (by simp)

/-- A record that is held is what a get returns. -/
theorem held_get {s : CacheSys} {k : Bytes} {v : List Bytes} {stamp : Int}
    (h : Held hashkey k v stamp s) {t : Nat} (ht : s.thread t = .idle) (now : Int) :
    ∃ s', cacheStep hashkey nullCacheTimeout s (.get t k now) = some (.got k 0 v, s') := by
  obtain ⟨⟨view, a, hinv, hk⟩, -, hmtime⟩ := h
  have hlive : (Entry.value v stamp).gone now s.cdbMtime = false := by
    simpa [Entry.gone] using hmtime
  have hget := memdbGet_live hinv.rep hk hlive []
  refine ⟨{ s with db := s.db }, ?_⟩
  simp only [cacheStep, ht, hget, Option.map_some]
  rfl

/-- **An update whose last step finds what its first one found is never lost.** -/
theorem noLostUpdate_intact (hashkey : Bytes → Fin HASHSIZE) (nullCacheTimeout : Int) :
    NoLostUpdate hashkey nullCacheTimeout (Intact hashkey) := by
  intro mtime fieldcount hfc before after fin os₁ os₂ s₁ s₂ s₃ k v stamp hbefore hfin hintact
    hquiet hmtime hafter hstarts hloads t now ht
  obtain ⟨view, hinv⟩ := cacheRuns_inv hfc hbefore
  have hheld := fin_held hinv hfin hintact hquiet hmtime
  have hguard : Guarded (cacheStep hashkey nullCacheTimeout)
      (fun _ a => ¬ a.StartsUpd k ∧ a.MtimeLe stamp) s₂ after :=
    guarded_of_forall fun a ha => ⟨hstarts a ha, hloads a ha⟩
  have hheld' : Held hashkey k v stamp s₃ :=
    runs_invariant (fun s act o s' hI hg hstep => cacheStep_held hI hg hstep) hheld hguard hafter
  exact held_get hheld' ht now

/-- A fallthrough result arrives between the sections of an update that found a
non-result: the entry is rewritten where it stands and the result gives way. -/
theorem noLostUpdate_intact_race :
    ∃ s₃ s₄,
      runs (cacheStep (fun _ => 0) 60) (cacheInit 0 1)
          [.addStart 2 [1] [] 0, .addLocked 2, .updStart 0 [1] [[7]], .updFind 0 10,
            .addStart 1 [1] [[9]] 11, .updWrite 0 12, .addLocked 1]
        = some ([.silent, .silent, .silent, .silent, .silent, .updated [1] [[7]] 0 12, .silent],
            s₃) ∧
      cacheStep (fun _ => 0) 60 s₃ (.get 3 [1] 20) = some (.got [1] 0 [[7]], s₄) := by
  obtain ⟨s₄, hget⟩ := noLostUpdate_intact (fun _ => 0) 60 0 1 (by decide)
    [.addStart 2 [1] [] 0, .addLocked 2, .updStart 0 [1] [[7]], .updFind 0 10,
      .addStart 1 [1] [[9]] 11] [.addLocked 1] (.updWrite 0 12) _ _ _ _ _ [1] [[7]] 12 rfl rfl
    (by
      intro key vals p hth
      obtain ⟨rfl, -, rfl⟩ := CacheThread.updWriting.inj hth
      rfl)
    (by
      intro t ht
      have h0 : t ≠ 0 := fun he => ht (he ▸ rfl)
      by_cases h1 : t = 1
      · subst h1
        simp [CacheSys.goto, cacheInit, CacheThread.Updating]
      · simp [CacheSys.goto, cacheInit, Function.update_of_ne h0, Function.update_of_ne h1,
          CacheThread.Updating])
    (by decide) rfl (by simp [CacheAct.StartsUpd]) (by simp [CacheAct.MtimeLe]) 3 20 rfl
  exact ⟨_, s₄, rfl, hget⟩

end Nastd.Server
