import Nastd.Server.LockSystem
import Nastd.Server.Io
import Nastd.Server.Reload

/-!
# The server's locks together

The threads of `nastd` share three kinds of lock: `memdb_lk`, `cdb_lk`, and an `opt_lk` for
every connection. What the functions that take one do with it, each as a trace like those of
`Server.LockTrace`: all are flat but `memdb_del`, which nobody calls.

* `server_never_deadlocks`: without it, whatever the threads are doing can be brought to its
  end.
* `memdb_del_hangs`: a thread that calls it never comes back.
* `waiting_writer_first`: no reader gets past a writer that waits.
-/

namespace Nastd.Server

open Nastd.Lib

/-! ## The functions that take the locks -/

/-- The locks of `nastd`. -/
inductive SharedLock (κ : Type) where
  | memdbLk
  | cdbLk
  | optLk (conn : κ)
  deriving DecidableEq

/-- `memdb_upd`. While it holds nothing the cache may change: it looks at `db`, and adds to
`db'`. -/
def memdbUpdApart (hashkey : Bytes → Fin HASHSIZE) (env : MemdbEnv) (key : Bytes)
    (vals : List Bytes) (db db' : Memdb) : Option (List LockEvent) :=
  if vals.length ≠ env.dbFieldcount then some []
  else
    match memdbUpdFind hashkey key db with
    | none => none
    | some none =>
      (memdbAddTraced hashkey (memdbAddEnt env.nullCacheTimeout env.now key vals) db').map
        fun r => [.readLock, .unlock] ++ r.1
    | some (some _) =>
      some ([.readLock, .unlock, .writeLock] ++ List.replicate 6 .change ++ [.unlock])

/-- `cdb_new`. It takes the lock when nothing can fail any more; a first load has no old image
and no old `db_fields` to free. -/
def cdbNewTraced (fails : Failures) (file : Option CdbFile) (s : CdbState) :
    Option (List LockEvent × Int × CdbState) :=
  (cdbNewSteps fails file s).map fun r =>
    if r.1 = 0 then
      let changes := if s.globals.memcdb.isSome then 11 else 9
      (.writeLock :: List.replicate changes .change ++ [.unlock], r)
    else ([], r)

/-- `cdb_get`, on all its ways out. -/
def cdbGetTraced (g : CdbGlobals) (key : Bytes) (after : Nat → Byte) :
    List LockEvent × Int × List Bytes :=
  ([.readLock, .unlock], g.get key after)

/-- The loop of `do_opt_set`: a change for every option it knows, and none from the first that
it does not know. -/
def setOptsTraced (behind : Byte) : NastOptions → Bytes → List LockEvent × NastOptions × Bool
  | opts, [] => ([], opts, true)
  | opts, [option] =>
    match setOpt opts option behind with
    | none => ([], opts, false)
    | some opts' => ([.change], opts', true)
  | opts, option :: value :: rest =>
    match setOpt opts option value with
    | none => ([], opts, false)
    | some opts' =>
      let r := setOptsTraced behind opts' rest
      (.change :: r.1, r.2)

/-- `do_opt_set`, for a known option or not. -/
def doOptSetTraced (behind : Byte) (opts : NastOptions) (buffer : Bytes) : List LockEvent :=
  .writeLock :: (setOptsTraced behind opts buffer).1 ++ [.unlock]

/-- `do_opt_get`. -/
def doOptGetTraced : List LockEvent := [.readLock, .unlock]

/-- What a thread of the server may do with the locks: all functions that take one, but for
`memdb_del`. -/
inductive ServerCall (hashkey : Bytes → Fin HASHSIZE) {κ : Type} :
    List (SharedLock κ × LockEvent) → Prop where
  | memdbNew {memdb tr r} (h : memdbNewTraced memdb = some (tr, r)) :
    ServerCall hashkey (tr.map (Prod.mk .memdbLk))
  | memdbAdd {ent db tr r} (h : memdbAddTraced hashkey ent db = some (tr, r)) :
    ServerCall hashkey (tr.map (Prod.mk .memdbLk))
  | memdbGet {now cdbMtime key vals db tr r}
    (h : memdbGetTraced hashkey now cdbMtime key vals db = some (tr, r)) :
    ServerCall hashkey (tr.map (Prod.mk .memdbLk))
  | memdbUpd {env key vals db db' tr} (h : memdbUpdApart hashkey env key vals db db' = some tr) :
    ServerCall hashkey (tr.map (Prod.mk .memdbLk))
  | cdbNew {fails file s tr r} (h : cdbNewTraced fails file s = some (tr, r)) :
    ServerCall hashkey (tr.map (Prod.mk .cdbLk))
  | cdbGet (g key after) : ServerCall hashkey ((cdbGetTraced g key after).1.map (Prod.mk .cdbLk))
  | doOptSet (conn : κ) (behind opts buffer) :
    ServerCall hashkey ((doOptSetTraced behind opts buffer).map (Prod.mk (.optLk conn)))
  | doOptGet (conn : κ) : ServerCall hashkey (doOptGetTraced.map (Prod.mk (.optLk conn)))

theorem memdbUpdApart_same (hashkey : Bytes → Fin HASHSIZE) (env : MemdbEnv) (key : Bytes)
    (vals : List Bytes) (db : Memdb) :
    memdbUpdApart hashkey env key vals db db
      = (memdbUpdTraced hashkey env key vals db).map Prod.fst := by
  unfold memdbUpdApart memdbUpdTraced
  split
  · rfl
  · rcases memdbUpdFind hashkey key db with _ | _ | p
    · rfl
    · dsimp only
      cases memdbAddTraced hashkey (memdbAddEnt env.nullCacheTimeout env.now key vals) db with
      | none => rfl
      | some r => rfl
    · rfl

theorem setOptsTraced_run (behind : Byte) (opts : NastOptions) (buffer : Bytes) :
    (setOptsTraced behind opts buffer).2 = setOpts behind opts buffer := by
  induction opts, buffer using setOpts.induct behind with
  | case1 opts => rfl
  | case2 opts option hnone => simp only [setOptsTraced, setOpts, hnone]
  | case3 opts option opts' hsome => simp only [setOptsTraced, setOpts, hsome]
  | case4 opts option value rest hnone => simp only [setOptsTraced, setOpts, hnone]
  | case5 opts option value rest opts' hsome ih => simp only [setOptsTraced, setOpts, hsome, ih]

/-! ## They are flat -/

section FlatCalls

variable {L : Type} {k : L}

theorem flat_append {held : Option L} {a b : List (L × LockEvent)} (ha : Flat held a)
    (hb : Flat none b) : Flat held (a ++ b) := by
  induction held, a using Flat.induct with
  | case1 held =>
    obtain rfl := ha
    exact hb
  | case2 held k tr ih => exact ⟨ha.1, ih ha.2⟩
  | case3 held k tr ih => exact ⟨ha.1, ih ha.2⟩
  | case4 held k tr ih => exact ⟨ha.1, ih ha.2⟩
  | case5 held k tr ih => exact ih ha

theorem flat_changes (held : Option L) (n : Nat) {tr : List (L × LockEvent)} (h : Flat held tr) :
    Flat held ((List.replicate n .change).map (Prod.mk k) ++ tr) := by
  induction n with
  | zero => exact h
  | succ n ih => exact ih

/-- Write lock, changes, unlock. -/
theorem flat_write (n : Nat) :
    Flat none ((LockEvent.writeLock :: (List.replicate n .change ++ [.unlock])).map
      (Prod.mk k)) := by
  refine ⟨rfl, ?_⟩
  rw [List.map_append]
  exact flat_changes _ n ⟨rfl, rfl⟩

theorem flat_read : Flat none ([LockEvent.readLock, .unlock].map (Prod.mk k)) := ⟨rfl, rfl, rfl⟩

variable {hashkey : Bytes → Fin HASHSIZE}

theorem memdbNewTraced_flat {memdb : Option Memdb} {tr : List LockEvent} {r : Int × Memdb}
    (h : memdbNewTraced memdb = some (tr, r)) : Flat none (tr.map (Prod.mk k)) := by
  unfold memdbNewTraced at h
  split at h
  · obtain ⟨rfl, -⟩ := Prod.mk.inj (Option.some.inj h)
    exact flat_write 1
  next db =>
    split at h
    · exact absurd h (by simp)
    next tr' heap hdel =>
      obtain ⟨rfl, -⟩ := Prod.mk.inj (Option.some.inj h)
      unfold memdbDelete at hdel
      split at hdel
      · exact absurd hdel (by simp)
      next tr'' heap' hchains =>
        obtain ⟨rfl, -⟩ := Prod.mk.inj (Option.some.inj hdel)
        obtain ⟨n, rfl⟩ := freeChains_trace hchains
        refine ⟨rfl, ?_⟩
        rw [List.append_eq, List.append_assoc, List.map_append]
        exact flat_changes _ n ⟨rfl, rfl⟩

theorem memdbAddTraced_flat {ent : Mement} {db : Memdb} {tr : List LockEvent} {r : Int × Memdb}
    (h : memdbAddTraced hashkey ent db = some (tr, r)) : Flat none (tr.map (Prod.mk k)) := by
  unfold memdbAddTraced at h
  dsimp only at h
  split at h
  · obtain ⟨rfl, -⟩ := Prod.mk.inj (Option.some.inj h)
    exact flat_write 1
  · split at h
    · split at h
      · exact absurd h (by simp)
      next n _ =>
        split at h
        · cases ht : n.ent.type with
          | expire =>
            rw [ht] at h
            obtain ⟨rfl, -⟩ := Prod.mk.inj (Option.some.inj h)
            exact flat_write 4
          | del =>
            rw [ht] at h
            obtain ⟨rfl, -⟩ := Prod.mk.inj (Option.some.inj h)
            exact flat_write 4
          | upd =>
            rw [ht] at h
            obtain ⟨rfl, -⟩ := Prod.mk.inj (Option.some.inj h)
            exact flat_write 0
          | tryval =>
            rw [ht] at h
            obtain ⟨rfl, -⟩ := Prod.mk.inj (Option.some.inj h)
            exact flat_write 0
        · obtain ⟨rfl, -⟩ := Prod.mk.inj (Option.some.inj h)
          exact flat_write 1
    · exact absurd h (by simp)

/-- An entry with a time is dropped or looked at, under the read lock either way. -/
theorem dropOrLook_flat {ρ : Type} {time : Option Int} {gone : Int → Prop} [DecidablePred gone]
    {dropped found r : ρ} {tr : List LockEvent}
    (h : (match time with
      | some v =>
        if gone v then some ([.readLock, .change, .change, .change, .unlock], dropped)
        else some ([.readLock, .unlock], found)
      | none => some ([.readLock, .unlock], found)) = some (tr, r)) :
    Flat none (tr.map (Prod.mk k)) := by
  cases time with
  | none =>
    obtain ⟨rfl, -⟩ := Prod.mk.inj (Option.some.inj h)
    exact flat_read
  | some v =>
    dsimp only at h
    split at h
    next =>
      obtain ⟨rfl, -⟩ := Prod.mk.inj (Option.some.inj h)
      exact ⟨rfl, rfl, rfl⟩
    next =>
      obtain ⟨rfl, -⟩ := Prod.mk.inj (Option.some.inj h)
      exact flat_read

theorem memdbGetTraced_flat {now cdbMtime : Int} {key : Bytes} {vals : List Bytes} {db : Memdb}
    {tr : List LockEvent} {r : Int × List Bytes × Memdb}
    (h : memdbGetTraced hashkey now cdbMtime key vals db = some (tr, r)) :
    Flat none (tr.map (Prod.mk k)) := by
  unfold memdbGetTraced at h
  split at h
  · exact absurd h (by simp)
  · obtain ⟨rfl, -⟩ := Prod.mk.inj (Option.some.inj h)
    exact flat_read
  · split at h
    · exact absurd h (by simp)
    next n _ =>
      dsimp only at h
      cases ht : n.ent.type with
      | del =>
        rw [ht] at h
        obtain ⟨rfl, -⟩ := Prod.mk.inj (Option.some.inj h)
        exact flat_read
      | expire =>
        rw [ht] at h
        exact dropOrLook_flat h
      | upd =>
        rw [ht] at h
        exact dropOrLook_flat h
      | tryval =>
        rw [ht] at h
        exact dropOrLook_flat h

theorem memdbUpdApart_flat {env : MemdbEnv} {key : Bytes} {vals : List Bytes} {db db' : Memdb}
    {tr : List LockEvent} (h : memdbUpdApart hashkey env key vals db db' = some tr) :
    Flat none (tr.map (Prod.mk k)) := by
  unfold memdbUpdApart at h
  split at h
  · obtain rfl := Option.some.inj h
    rfl
  · split at h
    · exact absurd h (by simp)
    · obtain ⟨⟨tr', r⟩, hadd, rfl⟩ := Option.map_eq_some_iff.mp h
      rw [List.map_append]
      exact flat_append flat_read (memdbAddTraced_flat hadd)
    · obtain rfl := Option.some.inj h
      have hread : Flat none ([LockEvent.readLock, .unlock].map (Prod.mk k)) := flat_read
      exact flat_append hread (flat_write 6)

theorem cdbNewTraced_flat {fails : Failures} {file : Option CdbFile} {s : CdbState}
    {tr : List LockEvent} {r : Int × CdbState} (h : cdbNewTraced fails file s = some (tr, r)) :
    Flat none (tr.map (Prod.mk k)) := by
  obtain ⟨⟨rc, s'⟩, -, heq⟩ := Option.map_eq_some_iff.mp h
  split at heq
  next =>
    obtain ⟨rfl, -⟩ := Prod.mk.inj heq
    exact flat_write _
  next =>
    obtain ⟨rfl, -⟩ := Prod.mk.inj heq
    rfl

theorem setOptsTraced_changes (behind : Byte) (opts : NastOptions) (buffer : Bytes) :
    ∃ n, (setOptsTraced behind opts buffer).1 = List.replicate n .change := by
  induction opts, buffer using setOptsTraced.induct behind with
  | case1 opts => exact ⟨0, rfl⟩
  | case2 opts option hnone => exact ⟨0, by simp only [setOptsTraced, hnone]; rfl⟩
  | case3 opts option opts' hsome => exact ⟨1, by simp only [setOptsTraced, hsome]; rfl⟩
  | case4 opts option value rest hnone => exact ⟨0, by simp only [setOptsTraced, hnone]; rfl⟩
  | case5 opts option value rest opts' hsome ih =>
    obtain ⟨n, hn⟩ := ih
    refine ⟨n + 1, ?_⟩
    simp only [setOptsTraced, hsome, hn]
    rfl

theorem doOptSetTraced_flat (behind : Byte) (opts : NastOptions) (buffer : Bytes) :
    Flat none ((doOptSetTraced behind opts buffer).map (Prod.mk k)) := by
  obtain ⟨n, hn⟩ := setOptsTraced_changes behind opts buffer
  unfold doOptSetTraced
  rw [hn]
  exact flat_write n

end FlatCalls

theorem ServerCall.flat {hashkey : Bytes → Fin HASHSIZE} {κ : Type}
    {tr : List (SharedLock κ × LockEvent)} (h : ServerCall hashkey tr) : Flat none tr := by
  cases h with
  | memdbNew h => exact memdbNewTraced_flat h
  | memdbAdd h => exact memdbAddTraced_flat h
  | memdbGet h => exact memdbGetTraced_flat h
  | memdbUpd h => exact memdbUpdApart_flat h
  | cdbNew h => exact cdbNewTraced_flat h
  | cdbGet g key after => exact flat_read
  | doOptSet conn behind opts buffer => exact doOptSetTraced_flat behind opts buffer
  | doOptGet conn => exact flat_read

/-! ## No deadlock -/

theorem callsFlat_of_server {θ κ : Type} {hashkey : Bytes → Fin HASHSIZE}
    {acts : List (LockAct θ (SharedLock κ))}
    (hcalls : ∀ t tr, .call t tr ∈ acts → ServerCall hashkey tr) : ∀ a ∈ acts, CallsFlat a := by
  intro a ha
  cases a with
  | call t tr => exact (hcalls t tr ha).flat
  | go t ws => trivial
  | wakeUp t => trivial
  | recheck t => trivial

/-- **The server's locks never deadlock.** Whatever the threads have called, in whatever order
they came to run, however signals and sleepers woke: every thread holds at most one lock, and
without another call all of them can be brought to the end of what they are doing, where
no lock is held, with one step for each thing that is left. -/
theorem server_never_deadlocks {θ κ : Type} [Fintype θ] [DecidableEq θ] [DecidableEq κ]
    (hashkey : Bytes → Fin HASHSIZE) {acts : List (LockAct θ (SharedLock κ))}
    {rcs : List (Option Int)} {s : LockSys θ (SharedLock κ)}
    (hcalls : ∀ t tr, .call t tr ∈ acts → ServerCall hashkey tr)
    (hrun : runs lockStep lockStart acts = some (rcs, s)) :
    (∀ t k k', (s.lock k).held t ≠ [] → (s.lock k').held t ≠ [] → k = k') ∧
    ∃ acts' rcs' s', (∀ a ∈ acts', a.goesOn = true) ∧ acts'.length = s.remaining ∧
      runs lockStep s acts' = some (rcs', s') ∧ (∀ t, s'.todo t = []) ∧
      ∀ k t, (s'.lock k).held t = [] := by
  have h := lockRuns_inv lockStart_inv (callsFlat_of_server hcalls) hrun
  refine ⟨fun t k k' hk hk' => ?_, lockSys_drains h⟩
  obtain ⟨⟨held, -, hholding⟩, -⟩ := h.threads t
  have hone : ∀ j, (s.lock j).held t ≠ [] → held = some j := by
    intro j hj
    by_contra hne
    exact hj (List.length_eq_zero_iff.mp ((hholding j).trans (if_neg hne)))
  exact Option.some.inj ((hone k hk).symm.trans (hone k' hk'))

/-- A thread reads an option record that another one wants to write, asleep by now. -/
theorem server_never_deadlocks_two : ∃ rcs s,
    runs lockStep (lockStart (θ := Fin 2) (L := SharedLock Unit))
      [.call 0 (doOptGetTraced.map (Prod.mk (.optLk ()))), .go 0 ∅,
        .call 1 ((doOptSetTraced 0 defaultOpts [OPTQCACHE, OPTFALSE]).map (Prod.mk (.optLk ()))),
        .go 1 ∅] = some (rcs, s) ∧
    s.remaining = 4 ∧
    ∃ acts' rcs' s', (∀ a ∈ acts', a.goesOn = true) ∧ acts'.length = s.remaining ∧
      runs lockStep s acts' = some (rcs', s') ∧ (∀ t, s'.todo t = []) ∧
      ∀ k t, (s'.lock k).held t = [] := by
  have hleft : (runs lockStep (lockStart (θ := Fin 2) (L := SharedLock Unit))
      [.call 0 (doOptGetTraced.map (Prod.mk (.optLk ()))), .go 0 ∅,
        .call 1 ((doOptSetTraced 0 defaultOpts [OPTQCACHE, OPTFALSE]).map (Prod.mk (.optLk ()))),
        .go 1 ∅]).map (fun r => r.2.remaining) = some 4 := by
    decide
  obtain ⟨⟨rcs, s⟩, hrun, hs⟩ := Option.map_eq_some_iff.mp hleft
  refine ⟨rcs, s, hrun, hs, (server_never_deadlocks (fun _ => 0) ?_ hrun).2⟩
  intro t tr hmem
  simp only [List.mem_cons, LockAct.call.injEq, reduceCtorEq, List.not_mem_nil, false_or,
    or_false] at hmem
  rcases hmem with ⟨-, rfl⟩ | ⟨-, rfl⟩
  · exact .doOptGet ()
  · exact .doOptSet () 0 defaultOpts [OPTQCACHE, OPTFALSE]

/-! ## Writers first -/

section Writers

variable {θ : Type} [Fintype θ] [DecidableEq θ] {s s' : RwSys θ} {w : θ}

omit [Fintype θ] in
theorem writeTest_reads (s : RwSys θ) (u t : θ) :
    ((writeTest s u).2.held t).count .read = (s.held t).count .read := by
  by_cases htu : t = u
  · subst htu
    rcases writeTest_self s t with ⟨-, hheld, -⟩ | ⟨-, hheld, -⟩
    · rw [hheld, List.count_cons_of_ne (by simp)]
    · rw [hheld]
  · rw [(writeTest_other s htu).1]

omit [Fintype θ] in
theorem readTest_blocked {s : RwSys θ} (hblocked : s.lock.blockedWriters ≠ 0) (u : θ) :
    (readTest s u).2.held = s.held := by
  unfold readTest
  rw [if_pos (Or.inl hblocked)]

/-- While a writer waits, a step lets no reader in. -/
theorem reads_le_step {a : RwAct θ} {rc : Option Int} (h : RwInv s)
    (hw : (s.place w).Blocked) (hstep : rwStep s a = some (rc, s')) (t : θ) :
    (s'.held t).count .read ≤ (s.held t).count .read := by
  have hblocked : s.lock.blockedWriters ≠ 0 := by
    rw [h.blocked]
    have hpos : 0 < count Place.Blocked s.place := count_pos.mpr ⟨w, hw⟩
    omega
  -- who tests for reading finds a blocked writer and goes to sleep
  have hread : ∀ u, some (readTest s u) = some (rc, s') →
      (s'.held t).count .read ≤ (s.held t).count .read := by
    intro u heq
    have hs : (readTest s u).2 = s' := congrArg Prod.snd (Option.some.inj heq)
    rw [← hs, readTest_blocked hblocked]
  cases a with
  | readLock u =>
    simp only [rwStep] at hstep
    split at hstep
    next => exact hread u hstep
    next => exact absurd hstep (by simp)
  | writeLock u =>
    simp only [rwStep] at hstep
    split at hstep
    next =>
      have hs : (writeTest s u).2 = s' := congrArg Prod.snd (Option.some.inj hstep)
      rw [← hs, writeTest_reads]
    next => exact absurd hstep (by simp)
  | wakeUp u =>
    simp only [rwStep] at hstep
    split at hstep
    next =>
      obtain ⟨-, rfl⟩ := Prod.mk.inj (Option.some.inj hstep)
      exact Nat.le_refl _
    next =>
      obtain ⟨-, rfl⟩ := Prod.mk.inj (Option.some.inj hstep)
      exact Nat.le_refl _
    next => exact absurd hstep (by simp)
  | recheck u =>
    simp only [rwStep] at hstep
    split at hstep
    next => exact hread u hstep
    next =>
      have hs : _ = s' := congrArg Prod.snd (Option.some.inj hstep)
      rw [← hs, writeTest_reads]
    next => exact absurd hstep (by simp)
  | unlock u ws =>
    simp only [rwStep] at hstep
    split at hstep
    next hp =>
      obtain ⟨-, hheld, -, hother⟩ := unlock_cases h hp.2 hstep
      by_cases htu : t = u
      · subst htu
        rw [hheld]
        exact (List.tail_sublist _).count_le _
      · rw [(hother t htu).1]
    next => exact absurd hstep (by simp)

/-- **Writers first.** As long as a writer is in its wait, no reader gets the lock, and once those
who hold it have given it back, a waiting writer has been woken and gets it when it looks. -/
theorem waiting_writer_first (before acts : List (RwAct θ)) {rcs rcs' : List (Option Int)}
    (hreach : runs rwStep rwStart before = some (rcs, s))
    (hwaits : Guarded rwStep (fun s _ => (s.place w).Blocked) s acts)
    (hrun : runs rwStep s acts = some (rcs', s')) :
    (∀ t, (s'.held t).count .read ≤ (s.held t).count .read) ∧
    ((∀ t, s'.held t = []) → (s'.place w).Blocked →
      ∃ v s'', rwStep s' (.recheck v) = some (some 0, s'') ∧ s''.held v = [.write]) := by
  have h := rwRuns_inv hreach
  have hkept : RwInv s' ∧ ∀ t, (s'.held t).count .read ≤ (s.held t).count .read := by
    refine runs_invariant (g := fun s _ => (s.place w).Blocked)
      (I := fun s' => RwInv s' ∧ ∀ t, (s'.held t).count .read ≤ (s.held t).count .read)
      (fun s₁ a rc s₂ hI hg hstep => ⟨hI.1.step hstep, fun t => ?_⟩)
      ⟨h, fun t => Nat.le_refl _⟩ hwaits hrun
    exact Nat.le_trans (reads_le_step hI.1 hg hstep t) (hI.2 t)
  refine ⟨hkept.2, fun hnone hw => ?_⟩
  have hfree := state_eq_zero hkept.1 hnone
  obtain ⟨v, hv⟩ := hkept.1.woken hfree ⟨w, hw⟩
  obtain ⟨s'', hstep, hheld⟩ := recheck_writer hv hfree
  rw [hnone v] at hheld
  exact ⟨v, s'', hstep, hheld⟩

/-- A second reader comes while a writer waits for the first, which then leaves. -/
theorem waiting_writer_first_second : ∃ rcs s rcs' s',
    runs rwStep (rwStart (θ := Fin 3)) [.readLock 0, .writeLock 2] = some (rcs, s) ∧
    runs rwStep s [.readLock 1, .unlock 0 {2}] = some (rcs', s') ∧
    (∀ t, (s'.held t).count .read ≤ (s.held t).count .read) ∧
    ∃ v s'', rwStep s' (.recheck v) = some (some 0, s'') ∧ s''.held v = [.write] := by
  have h := waiting_writer_first (θ := Fin 3) (w := 2) [.readLock 0, .writeLock 2]
    [.readLock 1, .unlock 0 {2}] rfl
    (guarded_cons (by decide) rfl (guarded_cons (by decide) rfl trivial)) rfl
  exact ⟨_, _, _, _, rfl, rfl, h.1, h.2 (by decide) (by decide)⟩

end Writers

end Nastd.Server
