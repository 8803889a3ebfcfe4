import Mathlib.Tactic.Linarith
import Nastd.Lib.Monitor
import Nastd.Lib.Run

/-!
# The reader/writer lock

`rw_mutex_t` of `server/thread.c`, for any number of threads. What a thread does while
it has the inner mutex is one step: a call up to the lock or to sleep, a woken
thread's second look, an unlock. A waiting thread sleeps, or has been woken (by a
signal, a broadcast, or nothing at all) and has not looked again; until it has, a writer
counts as blocked. The threads a signal wakes come with the step.

A thread unlocks only what it holds. It may ask for a lock while it holds one, as
`memdb_del` does, and may take a read lock more than once. The counters are whole
numbers: an `int` is larger than any number of threads. The pthread calls succeed.

* `rwlock_excludes`: `state` and `blocked_writers` count what they should, and the lock
  excludes.
* `rwlock_wakes`: nobody sleeps on while the way is free.
* `upgrade_stuck`: a reader that asks for the write lock waits for ever.
-/

namespace Nastd.Server

open Nastd.Lib

/-- `rw_mutex_t`, without its mutex and its condition variables. -/
structure RwMutex where
  state : Int
  blockedWriters : Int
  deriving DecidableEq, Repr

/-- `rw_mutex_new`. -/
def rwMutexNew : RwMutex := ⟨0, 0⟩

inductive Mode where
  | read
  | write
  deriving DecidableEq, Repr

/-- Where a thread is: in no call, or in one of the two waits, asleep or woken. -/
inductive Place where
  | outside
  | readSig (woken : Bool)
  | writeSig (woken : Bool)
  deriving DecidableEq, Repr

/-- Inside the writer's wait. -/
def Place.Blocked (p : Place) : Prop := p = .writeSig false ∨ p = .writeSig true

instance : DecidablePred Place.Blocked := fun _ => inferInstanceAs (Decidable (_ ∨ _))

theorem not_blocked_outside : ¬ Place.outside.Blocked := by simp [Place.Blocked]

theorem not_blocked_readSig (woken : Bool) : ¬ (Place.readSig woken).Blocked := by
  simp [Place.Blocked]

theorem blocked_writeSig (woken : Bool) : (Place.writeSig woken).Blocked := by
  cases woken
  · exact Or.inl rfl
  · exact Or.inr rfl

/-- A lock and its threads, each with the locks it holds, the last one first. -/
structure RwSys (θ : Type) where
  lock : RwMutex
  held : θ → List Mode
  place : θ → Place

inductive RwAct (θ : Type) where
  /-- `rw_mutex_read_lock`, until it has the lock or sleeps. -/
  | readLock (t : θ)
  /-- `rw_mutex_write_lock`, until it has the lock or sleeps. -/
  | writeLock (t : θ)
  /-- A sleeper wakes up for no reason. -/
  | wakeUp (t : θ)
  /-- A woken thread has the mutex back and looks again. -/
  | recheck (t : θ)
  /-- `rw_mutex_unlock`; a signal in it wakes `ws`. -/
  | unlock (t : θ) (ws : Finset θ)

def EINVAL : Int := 22

section Steps

variable {θ : Type} [DecidableEq θ]

/-- Thread `t` has got the lock. -/
def RwSys.take (s : RwSys θ) (t : θ) (lock : RwMutex) (mode : Mode) : RwSys θ where
  lock := lock
  held := Function.update s.held t (mode :: s.held t)
  place := Function.update s.place t .outside

/-- The loop of `rw_mutex_read_lock` from its test on: the return code, if it returns. -/
def readTest (s : RwSys θ) (t : θ) : Option Int × RwSys θ :=
  if s.lock.blockedWriters ≠ 0 ∨ s.lock.state < 0 then
    (none, { s with place := Function.update s.place t (.readSig false) })
  else (some 0, s.take t { s.lock with state := s.lock.state + 1 } .read)

/-- The loop of `rw_mutex_write_lock` from its test on. -/
def writeTest (s : RwSys θ) (t : θ) : Option Int × RwSys θ :=
  if s.lock.state ≠ 0 then
    (none, { s with
      lock := { s.lock with blockedWriters := s.lock.blockedWriters + 1 }
      place := Function.update s.place t (.writeSig false) })
  else (some 0, s.take t { s.lock with state := -1 } .write)

theorem readTest_other (s : RwSys θ) {t u : θ} (hne : t ≠ u) :
    (readTest s u).2.held t = s.held t ∧ (readTest s u).2.place t = s.place t := by
  unfold readTest
  split
  · exact ⟨rfl, Function.update_of_ne hne _ _⟩
  · exact ⟨Function.update_of_ne hne _ _, Function.update_of_ne hne _ _⟩

theorem writeTest_other (s : RwSys θ) {t u : θ} (hne : t ≠ u) :
    (writeTest s u).2.held t = s.held t ∧ (writeTest s u).2.place t = s.place t := by
  unfold writeTest
  split
  · exact ⟨rfl, Function.update_of_ne hne _ _⟩
  · exact ⟨Function.update_of_ne hne _ _, Function.update_of_ne hne _ _⟩

/-- A signal or a broadcast leaves a blocked writer blocked. -/
theorem blocked_wake {place : θ → Place} {ws : Finset θ} {there : Place} {t : θ}
    (hto : t ∈ ws → there.Blocked) (h : (place t).Blocked) : (wake ws there place t).Blocked := by
  rcases wake_cases ws there place t with ⟨hmem, hw⟩ | ⟨-, hw⟩
  · rw [hw]
    exact hto hmem
  · rw [hw]
    exact h

variable [Fintype θ]

/-- The lock is in this state, and thread `t` has given up the last one it took. -/
def RwSys.drop (s : RwSys θ) (t : θ) (state : Int) : RwSys θ :=
  { s with
    lock := { s.lock with state := state }
    held := Function.update s.held t (s.held t).tail }

/-- `pthread_cond_signal(&lock->write_sig)`. -/
def RwSys.signalWriter (s : RwSys θ) (ws : Finset θ) : Option (RwSys θ) :=
  if SignalsTo (fun t => s.place t = .writeSig false) ws then
    some { s with place := wake ws (.writeSig true) s.place }
  else none

/-- `pthread_cond_broadcast(&lock->read_sig)`. -/
def RwSys.broadcastReaders (s : RwSys θ) : RwSys θ :=
  { s with
    place := wake (Finset.univ.filter fun t => s.place t = .readSig false) (.readSig true) s.place }

/-- `rw_mutex_unlock`. -/
def rwMutexUnlock (s : RwSys θ) (t : θ) (ws : Finset θ) : Option (Option Int × RwSys θ) :=
  if s.lock.state > 0 then
    let s' := s.drop t (s.lock.state - 1)
    if s'.lock.state = 0 ∧ s'.lock.blockedWriters ≠ 0 then
      (s'.signalWriter ws).map fun s'' => (some 0, s'')
    else some (some 0, s')
  else if s.lock.state < 0 then
    let s' := s.drop t 0
    if s'.lock.blockedWriters ≠ 0 then (s'.signalWriter ws).map fun s'' => (some 0, s'')
    else some (some 0, s'.broadcastReaders)
  else some (some EINVAL, s)

/-- One step of one thread, and the return code if a call returned. -/
def rwStep (s : RwSys θ) : RwAct θ → Option (Option Int × RwSys θ)
  | .readLock t => if s.place t = .outside then some (readTest s t) else none
  | .writeLock t => if s.place t = .outside then some (writeTest s t) else none
  | .wakeUp t =>
    match s.place t with
    | .readSig false => some (none, { s with place := Function.update s.place t (.readSig true) })
    | .writeSig false => some (none, { s with place := Function.update s.place t (.writeSig true) })
    | _ => none
  | .recheck t =>
    match s.place t with
    | .readSig true => some (readTest s t)
    | .writeSig true =>
      some (writeTest
        { s with lock := { s.lock with blockedWriters := s.lock.blockedWriters - 1 } } t)
    | _ => none
  | .unlock t ws =>
    if s.place t = .outside ∧ s.held t ≠ [] then rwMutexUnlock s t ws else none

/-- A new lock; no thread has called yet. -/
def rwStart : RwSys θ := ⟨rwMutexNew, fun _ => [], fun _ => .outside⟩

end Steps

/-! ## What holds in every state -/

theorem count_of_length_le_one {l : List Mode} {m : Mode} (h : l.length ≤ 1) :
    l.count m = if m ∈ l then 1 else 0 := by
  split
  next hmem =>
    have hpos := List.count_pos_iff.mpr hmem
    have hle := List.count_le_length (a := m) (l := l)
    omega
  next hmem => exact List.count_eq_zero.mpr hmem

section Invariant

variable {θ : Type} [Fintype θ]

/-- How many times the lock is held in this mode. -/
def RwSys.holds (s : RwSys θ) (m : Mode) : Nat := total (List.count m) s.held

/-- The state is the number of readers, or -1 for a writer; the blocked writers are
counted; a free lock has a woken writer if it has a blocked one; a reader asleep has a
writer to wait for. -/
structure RwInv (s : RwSys θ) : Prop where
  excl : s.holds .write = 0 ∧ s.lock.state = s.holds .read ∨
    s.holds .write = 1 ∧ s.holds .read = 0 ∧ s.lock.state = -1
  blocked : s.lock.blockedWriters = count Place.Blocked s.place
  woken : s.lock.state = 0 → (∃ t, (s.place t).Blocked) → ∃ t, s.place t = .writeSig true
  idle : ∀ t, s.place t = .readSig false → s.lock.state < 0 ∨ s.lock.blockedWriters ≠ 0

theorem holds_pos_of_mem {s : RwSys θ} {t : θ} {m : Mode} (h : m ∈ s.held t) : 0 < s.holds m :=
  Nat.lt_of_lt_of_le (List.count_pos_iff.mpr h) (le_total (List.count m) s.held t)

theorem holds_eq_zero {s : RwSys θ} {m : Mode} : s.holds m = 0 ↔ ∀ t, m ∉ s.held t := by
  unfold RwSys.holds
  rw [total_eq_zero]
  exact forall_congr' fun t => List.count_eq_zero

theorem rwStart_inv : RwInv (rwStart (θ := θ)) := by
  refine ⟨Or.inl ⟨?_, ?_⟩, ?_, ?_, ?_⟩
  · exact total_eq_zero.mpr fun _ => rfl
  · have hnone : (rwStart (θ := θ)).holds .read = 0 := total_eq_zero.mpr fun _ => rfl
    rw [hnone]
    rfl
  · have hnone : count Place.Blocked (rwStart (θ := θ)).place = 0 :=
      count_eq_zero.mpr fun _ => by simp [rwStart, Place.Blocked]
    rw [hnone]
    rfl
  · intro _ ⟨t, ht⟩
    exact absurd ht (by simp [rwStart, Place.Blocked])
  · intro t ht
    exact absurd ht (by simp [rwStart])

variable [DecidableEq θ]

theorem holds_take (s : RwSys θ) (t : θ) (lock : RwMutex) (mode m : Mode) :
    (s.take t lock mode).holds m = s.holds m + if mode = m then 1 else 0 := by
  have h := total_update (List.count m) s.held t (mode :: s.held t)
  simp only [RwSys.holds, RwSys.take]
  rw [List.count_cons] at h
  simp only [beq_iff_eq] at h
  omega

theorem holds_drop {s : RwSys θ} {t : θ} {mode : Mode} {rest : List Mode}
    (hheld : s.held t = mode :: rest) (state : Int) (m : Mode) :
    (s.drop t state).holds m + (if mode = m then 1 else 0) = s.holds m := by
  have h := total_update (List.count m) s.held t (s.held t).tail
  simp only [RwSys.holds, RwSys.drop]
  rw [hheld, List.tail_cons, List.count_cons] at h
  rw [hheld, List.tail_cons]
  simp only [beq_iff_eq] at h
  omega

/-- The test of a reader that is not in the writer's wait. -/
theorem RwInv.readTest {s : RwSys θ} {t : θ} (h : RwInv s) (hp : ¬ (s.place t).Blocked) :
    RwInv (readTest s t).2 := by
  have hb : ∀ x : Place, ¬ x.Blocked →
      count Place.Blocked (Function.update s.place t x) = count Place.Blocked s.place :=
    fun x hx => count_update_same (iff_of_false hp hx)
  have hmoved : ∀ (x : Place) (u : θ), x ≠ .readSig false →
      Function.update s.place t x u = .readSig false → s.place u = .readSig false := by
    intro x u hx hu
    by_cases hut : u = t
    · rw [hut, Function.update_self] at hu
      exact absurd hu hx
    · rwa [Function.update_of_ne hut] at hu
  unfold Server.readTest
  split
  next hwait =>
    -- asleep, as a writer has the lock or is blocked
    refine ⟨h.excl, ?_, ?_, ?_⟩
    · rw [hb _ (not_blocked_readSig false)]
      exact h.blocked
    · intro h0 ⟨u, hu⟩
      change (Function.update s.place t (.readSig false) u).Blocked at hu
      have hut : u ≠ t := by
        rintro rfl
        rw [Function.update_self] at hu
        exact not_blocked_readSig false hu
      rw [Function.update_of_ne hut] at hu
      obtain ⟨v, hv⟩ := h.woken h0 ⟨u, hu⟩
      have hvt : v ≠ t := by
        rintro rfl
        exact hp (Or.inr hv)
      exact ⟨v, (Function.update_of_ne hvt _ _).trans hv⟩
    · intro u _
      exact hwait.symm
  next hgo =>
    obtain ⟨hnone, hstate⟩ := not_or.mp hgo
    have hfree : s.holds .write = 0 ∧ s.lock.state = s.holds .read := by
      rcases h.excl with hr | ⟨-, -, hneg⟩
      · exact hr
      · exact absurd (by omega) hstate
    refine ⟨Or.inl ⟨?_, ?_⟩, ?_, ?_, ?_⟩
    · rw [holds_take, hfree.1]
      simp
    · rw [holds_take, if_pos rfl]
      show s.lock.state + 1 = _
      rw [hfree.2]
      rfl
    · show _ = ((count Place.Blocked (Function.update s.place t .outside) : Nat) : Int)
      rw [hb _ not_blocked_outside]
      exact h.blocked
    · intro h0
      exact absurd h0 (by simp only [RwSys.take]; omega)
    · intro u hu
      rcases h.idle u (hmoved _ u (by simp) hu) with hneg | hblocked
      · exact absurd hneg hstate
      · exact Or.inr hblocked

/-- The test of a writer that no longer counts as blocked. -/
theorem RwInv.writeTest {s : RwSys θ} {t : θ} {b : Int} (h : RwInv s)
    (hb : b + (if (s.place t).Blocked then 1 else 0) = s.lock.blockedWriters) :
    RwInv (writeTest { s with lock := { s.lock with blockedWriters := b } } t).2 := by
  have hcount : ∀ x : Place, (count Place.Blocked (Function.update s.place t x) : Int)
      = b + if x.Blocked then 1 else 0 := by
    intro x
    have hmove := congrArg (Nat.cast (R := Int)) (count_update (p := Place.Blocked) s.place t x)
    have hold := h.blocked
    push_cast at hmove
    linarith
  unfold Server.writeTest
  split
  next hbusy =>
    have hblocked : b + 1
        = (count Place.Blocked (Function.update s.place t (.writeSig false)) : Int) := by
      rw [hcount, if_pos (blocked_writeSig false)]
    have hasleep : (Function.update s.place t (.writeSig false) t).Blocked := by
      rw [Function.update_self]
      exact blocked_writeSig false
    have hpos : b + 1 ≠ 0 := by
      have := count_pos.mpr ⟨t, hasleep⟩
      omega
    refine ⟨h.excl, hblocked, ?_, ?_⟩
    · intro h0
      exact absurd h0 hbusy
    · intro u _
      exact Or.inr hpos
  next hfree =>
    have h0 : s.lock.state = 0 := by
      simpa using hfree
    have hnone : s.holds .write = 0 ∧ s.holds .read = 0 := by
      rcases h.excl with ⟨hw, hr⟩ | ⟨-, -, hneg⟩
      · exact ⟨hw, by omega⟩
      · omega
    refine ⟨Or.inr ⟨?_, ?_, rfl⟩, ?_, ?_, ?_⟩
    · rw [holds_take, if_pos rfl]
      show s.holds .write + 1 = 1
      rw [hnone.1]
    · rw [holds_take, if_neg (by simp)]
      exact hnone.2
    · show b = ((count Place.Blocked (Function.update s.place t .outside) : Nat) : Int)
      rw [hcount, if_neg not_blocked_outside, Int.add_zero]
    · intro h1
      exact absurd h1 (by simp [RwSys.take])
    · intro u _
      exact Or.inl (by simp [RwSys.take])

/-- Of a free lock that has blocked writers, one is woken. -/
theorem RwInv.signal {s s' : RwSys θ} {ws : Finset θ}
    (hexcl : s.holds .write = 0 ∧ s.lock.state = s.holds .read)
    (hblocked : s.lock.blockedWriters = count Place.Blocked s.place)
    (hsome : s.lock.blockedWriters ≠ 0) (hsig : s.signalWriter ws = some s') : RwInv s' := by
  unfold RwSys.signalWriter at hsig
  split at hsig
  next hws =>
    obtain rfl := Option.some.inj hsig
    have hcount : count Place.Blocked (wake ws (.writeSig true) s.place)
        = count Place.Blocked s.place := by
      refine count_wake fun t ht => ?_
      rw [hws.1 t ht]
      exact iff_of_true (blocked_writeSig false) (blocked_writeSig true)
    refine ⟨Or.inl hexcl, ?_, ?_, ?_⟩
    · rw [hcount]
      exact hblocked
    · intro _ _
      by_cases hempty : ws = ∅
      · -- nobody sleeps, so the blocked writer is awake already
        obtain ⟨u, hu⟩ := count_pos.mp (by omega : 0 < count Place.Blocked s.place)
        subst hempty
        exact ⟨u, hu.resolve_left (hws.2 rfl u)⟩
      · obtain ⟨u, hu⟩ := Finset.nonempty_iff_ne_empty.mpr hempty
        exact ⟨u, wake_mem hu⟩
    · intro t _
      exact Or.inr hsome
  next => exact absurd hsig (by simp)

/-- With no writer left, every reader is woken. -/
theorem RwInv.broadcast {s : RwSys θ}
    (hexcl : s.holds .write = 0 ∧ s.lock.state = s.holds .read)
    (hblocked : s.lock.blockedWriters = count Place.Blocked s.place)
    (hnone : s.lock.blockedWriters = 0) : RwInv s.broadcastReaders := by
  have hcount : count Place.Blocked s.broadcastReaders.place = count Place.Blocked s.place := by
    refine count_wake fun t ht => ?_
    rw [(Finset.mem_filter.mp ht).2]
    exact iff_of_false (not_blocked_readSig false) (not_blocked_readSig true)
  refine ⟨Or.inl hexcl, ?_, ?_, ?_⟩
  · rw [hcount]
    exact hblocked
  · intro _ ⟨t, ht⟩
    have hpos := count_pos.mpr ⟨t, ht⟩
    rw [hcount] at hpos
    omega
  · intro t ht
    rcases wake_cases (Finset.univ.filter fun t => s.place t = .readSig false) (.readSig true)
      s.place t with ⟨-, hw⟩ | ⟨hmem, hw⟩
    · exact absurd (hw.symm.trans ht) (by simp)
    · exact absurd (Finset.mem_filter.mpr ⟨Finset.mem_univ t, hw.symm.trans ht⟩) hmem

theorem RwInv.unlock {s s' : RwSys θ} {t : θ} {ws : Finset θ} {rc : Option Int} (h : RwInv s)
    (hheld : s.held t ≠ []) (hstep : rwMutexUnlock s t ws = some (rc, s')) : RwInv s' := by
  obtain ⟨mode, rest, hl⟩ := List.exists_cons_of_ne_nil hheld
  have hmode : mode ∈ s.held t := by
    rw [hl]
    exact List.mem_cons_self
  have hpos := holds_pos_of_mem hmode
  unfold rwMutexUnlock at hstep
  split at hstep
  next hreaders =>
    have hfree : s.holds .write = 0 ∧ s.lock.state = s.holds .read := by
      rcases h.excl with hr | ⟨-, -, hneg⟩
      · exact hr
      · omega
    cases mode with
    | write => omega
    | read =>
      have hr := holds_drop hl (s.lock.state - 1) .read
      have hw := holds_drop hl (s.lock.state - 1) .write
      simp only [if_true, reduceCtorEq, if_false] at hr hw
      have hexcl : (s.drop t (s.lock.state - 1)).holds .write = 0
          ∧ s.lock.state - 1 = (s.drop t (s.lock.state - 1)).holds .read := by
        constructor
        · omega
        · omega
      dsimp only at hstep
      split at hstep
      next hlast =>
        obtain ⟨s'', hsig, heq⟩ := Option.map_eq_some_iff.mp hstep
        obtain ⟨-, rfl⟩ := Prod.mk.inj heq
        exact RwInv.signal hexcl h.blocked hlast.2 hsig
      next hmore =>
        obtain ⟨-, rfl⟩ := Prod.mk.inj (Option.some.inj hstep)
        refine ⟨Or.inl hexcl, h.blocked, ?_, ?_⟩
        · intro h0 ⟨u, hu⟩
          have hcount : 0 < count Place.Blocked s.place := count_pos.mpr ⟨u, hu⟩
          have hblocked := h.blocked
          exact absurd ⟨h0, (by omega : s.lock.blockedWriters ≠ 0)⟩ hmore
        · intro u hu
          rcases h.idle u hu with hneg | hb
          · omega
          · exact Or.inr hb
  next hnot =>
    split at hstep
    next hneg =>
      have hone : s.holds .write = 1 ∧ s.holds .read = 0 := by
        rcases h.excl with ⟨-, hr⟩ | ⟨hw, hr, -⟩
        · omega
        · exact ⟨hw, hr⟩
      cases mode with
      | read => omega
      | write =>
        have hr := holds_drop hl 0 .read
        have hw := holds_drop hl 0 .write
        simp only [if_true, reduceCtorEq, if_false] at hr hw
        have hexcl : (s.drop t 0).holds .write = 0 ∧ (0 : Int) = (s.drop t 0).holds .read := by
          constructor
          · omega
          · omega
        dsimp only at hstep
        split at hstep
        next hsome =>
          obtain ⟨s'', hsig, heq⟩ := Option.map_eq_some_iff.mp hstep
          obtain ⟨-, rfl⟩ := Prod.mk.inj heq
          exact RwInv.signal hexcl h.blocked hsome hsig
        next hnone =>
          obtain ⟨-, rfl⟩ := Prod.mk.inj (Option.some.inj hstep)
          exact RwInv.broadcast hexcl h.blocked (not_not.mp hnone)
    next hzero =>
      obtain ⟨-, rfl⟩ := Prod.mk.inj (Option.some.inj hstep)
      exact h

/-- A sleeper is woken: nothing that counts is different. -/
theorem RwInv.woke {s : RwSys θ} {t : θ} {x : Place} (h : RwInv s)
    (hsame : (s.place t).Blocked ↔ x.Blocked) (hawake : x ≠ .readSig false)
    (hstay : s.place t = .writeSig true → x = .writeSig true) :
    RwInv { s with place := Function.update s.place t x } := by
  have hplace : ∀ u y, Function.update s.place t x u = y → u = t ∧ x = y ∨ s.place u = y := by
    intro u y hu
    by_cases hut : u = t
    · rw [hut, Function.update_self] at hu
      exact Or.inl ⟨hut, hu⟩
    · rw [Function.update_of_ne hut] at hu
      exact Or.inr hu
  refine ⟨h.excl, ?_, ?_, ?_⟩
  · show _ = ((count Place.Blocked (Function.update s.place t x) : Nat) : Int)
    rw [count_update_same hsame]
    exact h.blocked
  · intro h0 ⟨u, hu⟩
    have hold : ∃ v, (s.place v).Blocked := by
      rcases hplace u _ rfl with ⟨-, hx⟩ | hx
      · exact ⟨t, hsame.mpr (hx ▸ hu)⟩
      · exact ⟨u, hx ▸ hu⟩
    obtain ⟨v, hv⟩ := h.woken h0 hold
    by_cases hvt : v = t
    · subst hvt
      exact ⟨v, (Function.update_self _ _ _).trans (hstay hv)⟩
    · exact ⟨v, (Function.update_of_ne hvt _ _).trans hv⟩
  · intro u hu
    rcases hplace u _ hu with ⟨-, hx⟩ | hx
    · exact absurd hx hawake
    · exact h.idle u hx

/-- What one step keeps. -/
theorem RwInv.step {s s' : RwSys θ} {a : RwAct θ} {rc : Option Int} (h : RwInv s)
    (hstep : rwStep s a = some (rc, s')) : RwInv s' := by
  cases a with
  | readLock t =>
    simp only [rwStep] at hstep
    split at hstep
    next hout =>
      have hs : (Server.readTest s t).2 = s' := congrArg Prod.snd (Option.some.inj hstep)
      rw [← hs]
      exact h.readTest (by rw [hout]; exact not_blocked_outside)
    next => exact absurd hstep (by simp)
  | writeLock t =>
    simp only [rwStep] at hstep
    split at hstep
    next hout =>
      have hs : (Server.writeTest s t).2 = s' := congrArg Prod.snd (Option.some.inj hstep)
      rw [← hs]
      refine h.writeTest (b := s.lock.blockedWriters) ?_
      rw [hout, if_neg not_blocked_outside, Int.add_zero]
    next => exact absurd hstep (by simp)
  | wakeUp t =>
    simp only [rwStep] at hstep
    split at hstep
    next hp =>
      obtain ⟨-, rfl⟩ := Prod.mk.inj (Option.some.inj hstep)
      refine h.woke ?_ (by simp) (by simp [hp])
      rw [hp]
      exact iff_of_false (not_blocked_readSig false) (not_blocked_readSig true)
    next hp =>
      obtain ⟨-, rfl⟩ := Prod.mk.inj (Option.some.inj hstep)
      refine h.woke ?_ (by simp) (fun _ => rfl)
      rw [hp]
      exact iff_of_true (blocked_writeSig false) (blocked_writeSig true)
    next => exact absurd hstep (by simp)
  | recheck t =>
    simp only [rwStep] at hstep
    split at hstep
    next hp =>
      have hs : (Server.readTest s t).2 = s' := congrArg Prod.snd (Option.some.inj hstep)
      rw [← hs]
      exact h.readTest (by rw [hp]; exact not_blocked_readSig true)
    next hp =>
      have hs : _ = s' := congrArg Prod.snd (Option.some.inj hstep)
      rw [← hs]
      refine h.writeTest (b := s.lock.blockedWriters - 1) ?_
      rw [hp, if_pos (blocked_writeSig true)]
      omega
    next => exact absurd hstep (by simp)
  | unlock t ws =>
    simp only [rwStep] at hstep
    split at hstep
    next hheld => exact h.unlock hheld.2 hstep
    next => exact absurd hstep (by simp)

/-- What a run keeps. -/
theorem rwRuns_inv {acts : List (RwAct θ)} {rcs : List (Option Int)} {s : RwSys θ}
    (hrun : runs rwStep rwStart acts = some (rcs, s)) : RwInv s :=
  runs_invariant (g := fun _ _ => True) (fun _ _ _ _ h _ hstep => h.step hstep) rwStart_inv
    guarded_true hrun

/-! ## Exclusion -/

/-- In every reachable state: without a writer the state is the number of read locks held,
which is the number of readers if none took one twice; it is -1 when one thread holds
the write lock and only then; a writer is alone; the blocked writers are the threads
inside the writer's wait. -/
theorem rwlock_excludes {acts : List (RwAct θ)} {rcs : List (Option Int)} {s : RwSys θ}
    (hrun : runs rwStep rwStart acts = some (rcs, s)) :
    ((∀ t, .write ∉ s.held t) → s.lock.state = s.holds .read ∧
      ((∀ t, (s.held t).length ≤ 1) → s.lock.state = count (fun l => Mode.read ∈ l) s.held)) ∧
    (s.lock.state = -1 ↔ ∃! t, .write ∈ s.held t) ∧
    (∀ t u, .write ∈ s.held t → .write ∈ s.held u → t = u) ∧
    (∀ t u, .write ∈ s.held t → .read ∉ s.held u) ∧
    s.lock.blockedWriters = count Place.Blocked s.place := by
  have h := rwRuns_inv hrun
  have hwriter : ∀ t, .write ∈ s.held t →
      s.holds .write = 1 ∧ s.holds .read = 0 ∧ s.lock.state = -1 := by
    intro t ht
    have hpos := holds_pos_of_mem ht
    exact h.excl.resolve_left fun hr => by omega
  have hsingle : ∀ t u, .write ∈ s.held t → .write ∈ s.held u → t = u := by
    intro t u ht hu
    by_contra hne
    have hsum := total_update (List.count .write) s.held t []
    have hrest := le_total (List.count .write) (Function.update s.held t []) u
    rw [Function.update_of_ne (Ne.symm hne)] at hrest
    have htpos := List.count_pos_iff.mpr ht
    have hupos := List.count_pos_iff.mpr hu
    have hone : total (List.count .write) s.held = 1 := (hwriter t ht).1
    rw [List.count_nil] at hsum
    omega
  refine ⟨?_, ⟨?_, ?_⟩, hsingle, ?_, h.blocked⟩
  · intro hnone
    have hzero := holds_eq_zero.mpr hnone
    have hstate : s.lock.state = s.holds .read := by
      rcases h.excl with ⟨-, hr⟩ | ⟨hw, -⟩
      · exact hr
      · omega
    refine ⟨hstate, fun honce => ?_⟩
    rw [hstate, count_eq_total]
    unfold RwSys.holds total
    refine congrArg (Nat.cast (R := Int)) (Finset.sum_congr rfl fun t _ => ?_)
    exact count_of_length_le_one (honce t)
  · intro hneg
    have hpos : s.holds .write ≠ 0 := by
      rcases h.excl with ⟨-, hr⟩ | ⟨hw, -⟩
      · omega
      · omega
    obtain ⟨t, ht⟩ := not_forall_not.mp fun hnone => hpos (holds_eq_zero.mpr hnone)
    exact ⟨t, ht, fun u hu => hsingle u t hu ht⟩
  · intro ⟨t, ht, _⟩
    exact (hwriter t ht).2.2
  · intro t u ht
    exact holds_eq_zero.mp (hwriter t ht).2.1 u

/-- Two readers, and a third thread that waits to write. -/
theorem rwlock_excludes_three : ∃ rcs s,
    runs rwStep (rwStart (θ := Fin 3)) [.readLock 0, .readLock 1, .writeLock 2]
      = some (rcs, s) ∧
    s.lock = ⟨2, 1⟩ ∧ s.lock.blockedWriters = count Place.Blocked s.place ∧
    (s.lock.state = -1 ↔ ∃! t, .write ∈ s.held t) := by
  have hlock : (runs rwStep (rwStart (θ := Fin 3))
      [.readLock 0, .readLock 1, .writeLock 2]).map (fun r => r.2.lock) = some ⟨2, 1⟩ := by
    decide
  obtain ⟨⟨rcs, s⟩, hrun, hs⟩ := Option.map_eq_some_iff.mp hlock
  have h := rwlock_excludes hrun
  exact ⟨rcs, s, hrun, hs, h.2.2.2.2, h.2.1⟩

/-! ## No waiter is stranded -/

/-- In every reachable state: a free lock with a writer inside its wait has a writer that
has been woken and has not looked again, and no reader sleeps when no writer has the
lock or waits for it. -/
theorem rwlock_wakes {acts : List (RwAct θ)} {rcs : List (Option Int)} {s : RwSys θ}
    (hrun : runs rwStep rwStart acts = some (rcs, s)) :
    ((∀ t, s.held t = []) → (∃ t, (s.place t).Blocked) → ∃ t, s.place t = .writeSig true) ∧
    ((∀ t, .write ∉ s.held t) → (∀ t, ¬ (s.place t).Blocked) →
      ∀ t, s.place t ≠ .readSig false) := by
  have h := rwRuns_inv hrun
  have hfree : (∀ t, .write ∉ s.held t) → s.lock.state = s.holds .read := by
    intro hnone
    have hzero := holds_eq_zero.mpr hnone
    rcases h.excl with ⟨-, hr⟩ | ⟨hw, -⟩
    · exact hr
    · omega
  constructor
  · intro hnone hsome
    have hr : s.holds .read = 0 := holds_eq_zero.mpr fun t => by simp [hnone t]
    refine h.woken ?_ hsome
    rw [hfree fun t => by simp [hnone t], hr]
    rfl
  · intro hnone hnot t ht
    have hstate := hfree hnone
    have hblocked := h.blocked
    rw [count_eq_zero.mpr hnot] at hblocked
    rcases h.idle t ht with hneg | hb
    · omega
    · exact hb hblocked

/-- The two readers leave, and the signal of the second wakes the writer. -/
theorem rwlock_wakes_three : ∃ rcs s,
    runs rwStep (rwStart (θ := Fin 3))
      [.readLock 0, .readLock 1, .writeLock 2, .unlock 0 ∅, .unlock 1 {2}] = some (rcs, s) ∧
    s.lock = ⟨0, 1⟩ ∧ ((∀ t, s.held t = []) → (∃ t, (s.place t).Blocked) →
      ∃ t, s.place t = .writeSig true) := by
  have hlock : (runs rwStep (rwStart (θ := Fin 3))
      [.readLock 0, .readLock 1, .writeLock 2, .unlock 0 ∅, .unlock 1 {2}]).map
        (fun r => r.2.lock) = some ⟨0, 1⟩ := by
    decide
  obtain ⟨⟨rcs, s⟩, hrun, hs⟩ := Option.map_eq_some_iff.mp hlock
  exact ⟨rcs, s, hrun, hs, (rwlock_wakes hrun).1⟩

/-! ## A reader that asks to write -/

/-- A thread that holds the read lock and is inside the writer's wait. -/
def RwSys.Upgrading (s : RwSys θ) (t : θ) : Prop :=
  .read ∈ s.held t ∧ (s.place t).Blocked

theorem unlock_other {s s' : RwSys θ} {t u : θ} {ws : Finset θ} {rc : Option Int} (hne : t ≠ u)
    (hstep : rwMutexUnlock s u ws = some (rc, s')) :
    s'.held t = s.held t ∧ ((s.place t).Blocked → (s'.place t).Blocked) := by
  have hheld : ∀ state, (s.drop u state).held t = s.held t :=
    fun _ => Function.update_of_ne hne _ _
  have hsig : ∀ state s'', (s.drop u state).signalWriter ws = some s'' →
      s''.held t = s.held t ∧ ((s.place t).Blocked → (s''.place t).Blocked) := by
    intro state s'' h
    unfold RwSys.signalWriter at h
    split at h
    next =>
      obtain rfl := Option.some.inj h
      exact ⟨hheld state, blocked_wake fun _ => blocked_writeSig true⟩
    next => exact absurd h (by simp)
  unfold rwMutexUnlock at hstep
  split at hstep
  next =>
    dsimp only at hstep
    split at hstep
    next =>
      obtain ⟨s'', h, heq⟩ := Option.map_eq_some_iff.mp hstep
      obtain ⟨-, rfl⟩ := Prod.mk.inj heq
      exact hsig _ _ h
    next =>
      obtain ⟨-, rfl⟩ := Prod.mk.inj (Option.some.inj hstep)
      exact ⟨hheld _, id⟩
  next =>
    split at hstep
    next =>
      dsimp only at hstep
      split at hstep
      next =>
        obtain ⟨s'', h, heq⟩ := Option.map_eq_some_iff.mp hstep
        obtain ⟨-, rfl⟩ := Prod.mk.inj heq
        exact hsig _ _ h
      next =>
        obtain ⟨-, rfl⟩ := Prod.mk.inj (Option.some.inj hstep)
        refine ⟨hheld 0, fun hb => blocked_wake (fun hmem => ?_) hb⟩
        have hp : s.place t = .readSig false := (Finset.mem_filter.mp hmem).2
        rw [hp] at hb
        exact absurd hb (not_blocked_readSig false)
    next =>
      obtain ⟨-, rfl⟩ := Prod.mk.inj (Option.some.inj hstep)
      exact ⟨rfl, id⟩

theorem upgrading_step {s s' : RwSys θ} {t : θ} {a : RwAct θ} {rc : Option Int} (h : RwInv s)
    (hu : s.Upgrading t) (hstep : rwStep s a = some (rc, s')) : s'.Upgrading t := by
  obtain ⟨hread, hblocked⟩ := hu
  have hout : s.place t ≠ .outside := by
    intro hp
    rw [hp] at hblocked
    exact not_blocked_outside hblocked
  have hnot : ∀ woken, s.place t ≠ .readSig woken := by
    intro woken hp
    rw [hp] at hblocked
    exact not_blocked_readSig woken hblocked
  have hsame : ∀ s'' : RwSys θ, s''.held t = s.held t → s''.place t = s.place t →
      s''.Upgrading t := by
    intro s'' hheld hplace
    exact ⟨hheld ▸ hread, hplace ▸ hblocked⟩
  cases a with
  | readLock u =>
    simp only [rwStep] at hstep
    split at hstep
    next hp =>
      have hs : (readTest s u).2 = s' := congrArg Prod.snd (Option.some.inj hstep)
      have hne : t ≠ u := fun htu => hout (htu ▸ hp)
      rw [← hs]
      exact hsame _ (readTest_other s hne).1 (readTest_other s hne).2
    next => exact absurd hstep (by simp)
  | writeLock u =>
    simp only [rwStep] at hstep
    split at hstep
    next hp =>
      have hs : (writeTest s u).2 = s' := congrArg Prod.snd (Option.some.inj hstep)
      have hne : t ≠ u := fun htu => hout (htu ▸ hp)
      rw [← hs]
      exact hsame _ (writeTest_other s hne).1 (writeTest_other s hne).2
    next => exact absurd hstep (by simp)
  | wakeUp u =>
    simp only [rwStep] at hstep
    split at hstep
    next hp =>
      obtain ⟨-, rfl⟩ := Prod.mk.inj (Option.some.inj hstep)
      have hne : t ≠ u := fun htu => hnot false (htu ▸ hp)
      exact hsame _ rfl (Function.update_of_ne hne _ _)
    next hp =>
      obtain ⟨-, rfl⟩ := Prod.mk.inj (Option.some.inj hstep)
      by_cases htu : t = u
      · subst htu
        refine ⟨hread, ?_⟩
        show (Function.update s.place t (.writeSig true) t).Blocked
        rw [Function.update_self]
        exact blocked_writeSig true
      · exact hsame _ rfl (Function.update_of_ne htu _ _)
    next => exact absurd hstep (by simp)
  | recheck u =>
    simp only [rwStep] at hstep
    split at hstep
    next hp =>
      have hs : (readTest s u).2 = s' := congrArg Prod.snd (Option.some.inj hstep)
      have hne : t ≠ u := fun htu => hnot true (htu ▸ hp)
      rw [← hs]
      exact hsame _ (readTest_other s hne).1 (readTest_other s hne).2
    next hp =>
      have hs : _ = s' := congrArg Prod.snd (Option.some.inj hstep)
      rw [← hs]
      by_cases htu : t = u
      · -- its own read lock keeps the state from 0
        subst htu
        have hpos := holds_pos_of_mem hread
        have hbusy : s.lock.state ≠ 0 := by
          rcases h.excl with ⟨-, hr⟩ | ⟨-, -, hneg⟩
          · omega
          · omega
        unfold writeTest
        rw [if_pos hbusy]
        refine ⟨hread, ?_⟩
        show (Function.update s.place t (.writeSig false) t).Blocked
        rw [Function.update_self]
        exact blocked_writeSig false
      · exact hsame _ (writeTest_other _ htu).1 (writeTest_other _ htu).2
    next => exact absurd hstep (by simp)
  | unlock u ws =>
    simp only [rwStep] at hstep
    split at hstep
    next hp =>
      have hne : t ≠ u := fun htu => hout (htu ▸ hp.1)
      obtain ⟨hheld, hplace⟩ := unlock_other hne hstep
      exact ⟨hheld ▸ hread, hplace hblocked⟩
    next => exact absurd hstep (by simp)

/-- A reader that has asked for the write lock has it in no later state: no thread
can make the reader it waits for, itself, unlock. -/
theorem upgrade_stuck {s s' : RwSys θ} {t : θ} {acts : List (RwAct θ)} {rcs : List (Option Int)}
    (h : RwInv s) (hu : s.Upgrading t) (hrun : runs rwStep s acts = some (rcs, s')) :
    s'.Upgrading t := by
  have hinv : RwInv s' ∧ s'.Upgrading t :=
    runs_invariant (g := fun _ _ => True) (I := fun s => RwInv s ∧ s.Upgrading t)
      (fun _ _ _ _ h _ hstep => ⟨h.1.step hstep, upgrading_step h.1 h.2 hstep⟩) ⟨h, hu⟩
      guarded_true hrun
  exact hinv.2

end Invariant

end Nastd.Server
