import Nastd.Server.LockTrace

/-!
# Several locks

Threads that share reader/writer locks, each one of `Server.RwLock`. A thread is inside a
function, of which it still has something to do: calls to the locks, and changes of what they
are there for. It may enter another when it is done.

* `Flat`: a thread asks for a lock only when it holds none, and gives it back.
* `LockInv`, `lockRuns_inv`: then every thread holds at most one lock, and what it waits
  for is what comes next for it.
* `lockSys_progress`: some thread can always go on, so all of them can be brought to their
  end (`lockSys_drains`).
-/

namespace Nastd.Server

open Nastd.Lib

/-- Locks, and what every thread has still to do in the function it is in. -/
structure LockSys (θ L : Type) where
  lock : L → RwSys θ
  todo : θ → List (L × LockEvent)

inductive LockAct (θ L : Type) where
  /-- A thread that has nothing to do enters a function. -/
  | call (t : θ) (tr : List (L × LockEvent))
  /-- What is next; if it is an unlock, it wakes `ws`. -/
  | go (t : θ) (ws : Finset θ)
  /-- A sleeper wakes up for no reason. -/
  | wakeUp (t : θ)
  /-- A woken thread has the mutex back and looks again. -/
  | recheck (t : θ)

/-- The step goes on with what was begun. -/
def LockAct.goesOn {θ L : Type} : LockAct θ L → Bool
  | .call .. => false
  | _ => true

/-- A thread that holds `held` asks only for a lock when that is none, and ends with none. -/
def Flat {L : Type} : Option L → List (L × LockEvent) → Prop
  | held, [] => held = none
  | held, (k, .readLock) :: tr => held = none ∧ Flat (some k) tr
  | held, (k, .writeLock) :: tr => held = none ∧ Flat (some k) tr
  | held, (k, .unlock) :: tr => held = some k ∧ Flat none tr
  | held, (_, .change) :: tr => Flat held tr

section Steps

variable {θ L : Type} [Fintype θ] [DecidableEq θ] [DecidableEq L]

/-- A step of thread `t` at lock `k`. A call that returns is done with. -/
def LockSys.moved (s : LockSys θ L) (t : θ) (k : L) (rest : List (L × LockEvent)) :
    Option (Option Int × RwSys θ) → Option (Option Int × LockSys θ L)
  | none => none
  | some (rc, lock) =>
    some (rc,
      { lock := Function.update s.lock k lock
        todo := if rc.isSome then Function.update s.todo t rest else s.todo })

/-- One step of one thread, and the return code if a call returned. -/
def lockStep (s : LockSys θ L) : LockAct θ L → Option (Option Int × LockSys θ L)
  | .call t tr =>
    if s.todo t = [] then some (none, { s with todo := Function.update s.todo t tr }) else none
  | .go t ws =>
    match s.todo t with
    | [] => none
    | (k, .readLock) :: rest => s.moved t k rest (rwStep (s.lock k) (.readLock t))
    | (k, .writeLock) :: rest => s.moved t k rest (rwStep (s.lock k) (.writeLock t))
    | (k, .unlock) :: rest => s.moved t k rest (rwStep (s.lock k) (.unlock t ws))
    | (_, .change) :: rest => some (none, { s with todo := Function.update s.todo t rest })
  | .wakeUp t =>
    match s.todo t with
    | [] => none
    | (k, _) :: rest => s.moved t k rest (rwStep (s.lock k) (.wakeUp t))
  | .recheck t =>
    match s.todo t with
    | [] => none
    | (k, _) :: rest => s.moved t k rest (rwStep (s.lock k) (.recheck t))

/-- New locks; no thread has called yet. -/
def lockStart : LockSys θ L := ⟨fun _ => rwStart, fun _ => []⟩

end Steps

section Remaining

variable {θ L : Type} [Fintype θ]

/-- How much is still to be done. -/
def LockSys.remaining (s : LockSys θ L) : Nat := total List.length s.todo

theorem remaining_done [DecidableEq θ] {s : LockSys θ L} {t : θ} {k : L} {e : LockEvent}
    {rest : List (L × LockEvent)} {lock : L → RwSys θ}
    (htodo : s.todo t = (k, e) :: rest) :
    LockSys.remaining ⟨lock, Function.update s.todo t rest⟩ + 1 = s.remaining := by
  have h := total_update List.length s.todo t rest
  rw [htodo, List.length_cons] at h
  show total List.length (Function.update s.todo t rest) + 1 = total List.length s.todo
  omega

theorem remaining_eq_zero {s : LockSys θ L} (hzero : s.remaining = 0) (t : θ) : s.todo t = [] :=
  List.length_eq_zero_iff.mp (total_eq_zero.mp hzero t)

end Remaining

/-! ## One lock, seen by its threads -/

/-- What a waiting thread has asked for. -/
def Place.asked : Place → Option LockEvent
  | .outside => none
  | .readSig _ => some .readLock
  | .writeSig _ => some .writeLock

theorem asked_cases {p : Place} {e : LockEvent} (h : p.asked = some e) :
    e = .readLock ∨ e = .writeLock := by
  cases p with
  | outside => exact absurd h (by simp [Place.asked])
  | readSig woken => exact Or.inl (Option.some.inj h).symm
  | writeSig woken => exact Or.inr (Option.some.inj h).symm

theorem asked_eq_none {p : Place} : p.asked = none ↔ p = .outside := by
  cases p with
  | outside => exact iff_of_true rfl rfl
  | readSig woken => exact iff_of_false (by simp [Place.asked]) (by simp)
  | writeSig woken => exact iff_of_false (by simp [Place.asked]) (by simp)

section OneLock

variable {θ : Type}

section State

variable [Fintype θ]

/-- A held lock is not in the state 0. -/
theorem state_ne_zero {s : RwSys θ} {t : θ} (h : RwInv s) (hheld : s.held t ≠ []) :
    s.lock.state ≠ 0 := by
  obtain ⟨m, hm⟩ := List.exists_mem_of_ne_nil _ hheld
  have hpos := holds_pos_of_mem hm
  rcases h.excl with ⟨hw, hr⟩ | ⟨-, -, hneg⟩
  · cases m with
    | read => omega
    | write => omega
  · omega

/-- A lock nobody holds is in the state 0. -/
theorem state_eq_zero {s : RwSys θ} (h : RwInv s) (hnone : ∀ t, s.held t = []) :
    s.lock.state = 0 := by
  have hzero : ∀ m, s.holds m = 0 := fun m => holds_eq_zero.mpr fun t => by simp [hnone t]
  rcases h.excl with ⟨-, hr⟩ | ⟨hw, -⟩
  · rw [hr, hzero]
    rfl
  · exact absurd hw (by rw [hzero]; omega)

end State

variable [DecidableEq θ]

/-- The step left thread `u` where it was, woken perhaps. -/
def SameFor (s s' : RwSys θ) (u : θ) : Prop :=
  s'.held u = s.held u ∧ (s'.place u).asked = (s.place u).asked

theorem sameFor_wake {place : θ → Place} {ws : Finset θ} {asleep woken : Place}
    (hws : ∀ t ∈ ws, place t = asleep) (hsame : woken.asked = asleep.asked) (u : θ) :
    (wake ws woken place u).asked = (place u).asked := by
  rcases wake_cases ws woken place u with ⟨hmem, hw⟩ | ⟨-, hw⟩
  · rw [hw, hws u hmem, hsame]
  · rw [hw]

/-- The thread of a test gets the lock, or sleeps. -/
theorem readTest_self (s : RwSys θ) (t : θ) :
    ((readTest s t).1 = some 0 ∧ (readTest s t).2.held t = .read :: s.held t ∧
      (readTest s t).2.place t = .outside) ∨
    ((readTest s t).1 = none ∧ (readTest s t).2.held t = s.held t ∧
      (readTest s t).2.place t = .readSig false) := by
  unfold readTest
  split
  · exact Or.inr ⟨rfl, rfl, Function.update_self ..⟩
  · exact Or.inl ⟨rfl, Function.update_self .., Function.update_self ..⟩

theorem writeTest_self (s : RwSys θ) (t : θ) :
    ((writeTest s t).1 = some 0 ∧ (writeTest s t).2.held t = .write :: s.held t ∧
      (writeTest s t).2.place t = .outside) ∨
    ((writeTest s t).1 = none ∧ (writeTest s t).2.held t = s.held t ∧
      (writeTest s t).2.place t = .writeSig false) := by
  unfold writeTest
  split
  · exact Or.inr ⟨rfl, rfl, Function.update_self ..⟩
  · exact Or.inl ⟨rfl, Function.update_self .., Function.update_self ..⟩

theorem readTest_sameFor (s : RwSys θ) {t u : θ} (hne : u ≠ t) : SameFor s (readTest s t).2 u := by
  obtain ⟨hheld, hplace⟩ := readTest_other s hne
  exact ⟨hheld, congrArg Place.asked hplace⟩

theorem writeTest_sameFor (s : RwSys θ) {t u : θ} (hne : u ≠ t) :
    SameFor s (writeTest s t).2 u := by
  obtain ⟨hheld, hplace⟩ := writeTest_other s hne
  exact ⟨hheld, congrArg Place.asked hplace⟩

variable [Fintype θ]

theorem signalWriter_asked {s s' : RwSys θ} {ws : Finset θ} (h : s.signalWriter ws = some s') :
    s'.held = s.held ∧ ∀ u, (s'.place u).asked = (s.place u).asked := by
  unfold RwSys.signalWriter at h
  split at h
  next hws =>
    obtain rfl := Option.some.inj h
    exact ⟨rfl, sameFor_wake hws.1 rfl⟩
  next => exact absurd h (by simp)

theorem broadcastReaders_asked (s : RwSys θ) (u : θ) :
    (s.broadcastReaders.place u).asked = (s.place u).asked := by
  have hasleep : ∀ t ∈ Finset.univ.filter fun t => s.place t = .readSig false,
      s.place t = .readSig false := fun _ ht => (Finset.mem_filter.mp ht).2
  have hsame : (Place.readSig true).asked = (Place.readSig false).asked := rfl
  exact sameFor_wake hasleep hsame u

theorem exists_signalWriter (s : RwSys θ) : ∃ ws s', s.signalWriter ws = some s' := by
  obtain ⟨ws, hws⟩ := SignalsTo.exists fun t => s.place t = .writeSig false
  exact ⟨ws, _, if_pos hws⟩

/-- An unlock returns 0, takes one lock from its thread, and leaves the others what they had. -/
theorem unlock_cases {s s' : RwSys θ} {t : θ} {ws : Finset θ} {rc : Option Int} (h : RwInv s)
    (hheld : s.held t ≠ []) (hstep : rwMutexUnlock s t ws = some (rc, s')) :
    rc = some 0 ∧ s'.held t = (s.held t).tail ∧ (s'.place t).asked = (s.place t).asked ∧
      ∀ u, u ≠ t → SameFor s s' u := by
  have hdrop : ∀ state s'', s''.held = (s.drop t state).held →
      (∀ u, (s''.place u).asked = (s.place u).asked) →
      s''.held t = (s.held t).tail ∧ (s''.place t).asked = (s.place t).asked ∧
        ∀ u, u ≠ t → SameFor s s'' u := by
    intro state s'' hh hp
    refine ⟨?_, hp t, fun u hu => ⟨?_, hp u⟩⟩
    · rw [hh]
      exact Function.update_self ..
    · rw [hh]
      exact Function.update_of_ne hu ..
  unfold rwMutexUnlock at hstep
  split at hstep
  next =>
    dsimp only at hstep
    split at hstep
    next =>
      obtain ⟨s'', hsig, heq⟩ := Option.map_eq_some_iff.mp hstep
      obtain ⟨rfl, rfl⟩ := Prod.mk.inj heq
      obtain ⟨hh, hp⟩ := signalWriter_asked hsig
      exact ⟨rfl, hdrop _ _ hh hp⟩
    next =>
      obtain ⟨rfl, rfl⟩ := Prod.mk.inj (Option.some.inj hstep)
      exact ⟨rfl, hdrop _ _ rfl fun _ => rfl⟩
  next =>
    split at hstep
    next =>
      dsimp only at hstep
      split at hstep
      next =>
        obtain ⟨s'', hsig, heq⟩ := Option.map_eq_some_iff.mp hstep
        obtain ⟨rfl, rfl⟩ := Prod.mk.inj heq
        obtain ⟨hh, hp⟩ := signalWriter_asked hsig
        exact ⟨rfl, hdrop _ _ hh hp⟩
      next =>
        obtain ⟨rfl, rfl⟩ := Prod.mk.inj (Option.some.inj hstep)
        exact ⟨rfl, hdrop 0 _ rfl (broadcastReaders_asked _)⟩
    next => exact absurd (by omega) (state_ne_zero h hheld)

theorem exists_unlock {s : RwSys θ} {t : θ} (h : RwInv s) (hheld : s.held t ≠ []) :
    ∃ ws r, rwMutexUnlock s t ws = some r := by
  unfold rwMutexUnlock
  split
  next =>
    dsimp only
    split
    next =>
      obtain ⟨ws, s'', hsig⟩ := exists_signalWriter (s.drop t (s.lock.state - 1))
      exact ⟨ws, (some 0, s''), by rw [hsig]; rfl⟩
    next => exact ⟨∅, _, rfl⟩
  next =>
    split
    next =>
      dsimp only
      split
      next =>
        obtain ⟨ws, s'', hsig⟩ := exists_signalWriter (s.drop t 0)
        exact ⟨ws, (some 0, s''), by rw [hsig]; rfl⟩
      next => exact ⟨∅, _, rfl⟩
    next => exact absurd (by omega) (state_ne_zero h hheld)

/-- A woken writer that looks at a free lock gets it. -/
theorem recheck_writer {s : RwSys θ} {t : θ} (hp : s.place t = .writeSig true)
    (hfree : s.lock.state = 0) :
    ∃ s', rwStep s (.recheck t) = some (some 0, s') ∧ s'.held t = .write :: s.held t := by
  simp only [rwStep, hp]
  unfold writeTest
  rw [if_neg (by simp [hfree])]
  exact ⟨_, rfl, Function.update_self ..⟩

end OneLock

/-! ## All locks, seen by one thread -/

section Threads

variable {L : Type} [DecidableEq L]

/-- What a thread holds and has asked for agrees with what it has to do. -/
structure CallerOk (holding : L → Nat) (asked : L → Option LockEvent)
    (todo : List (L × LockEvent)) : Prop where
  flat : ∃ held, Flat held todo ∧ ∀ k, holding k = if held = some k then 1 else 0
  asks : ∀ k e, asked k = some e → ∃ rest, todo = (k, e) :: rest

variable {holding holding' : L → Nat} {asked asked' : L → Option LockEvent} {k : L}
  {e : LockEvent} {rest : List (L × LockEvent)}

/-- A thread asks for one lock at a time. -/
theorem CallerOk.asked_eq (h : CallerOk holding asked ((k, e) :: rest)) {k' : L}
    {e' : LockEvent} (hasked : asked k' = some e') : k' = k ∧ e' = e := by
  obtain ⟨rest', heq⟩ := h.asks k' e' hasked
  obtain ⟨hhead, -⟩ := List.cons.inj heq
  obtain ⟨rfl, rfl⟩ := Prod.mk.inj hhead
  exact ⟨rfl, rfl⟩

/-- It has asked, and sleeps or has been woken. -/
theorem CallerOk.slept (h : CallerOk holding asked ((k, e) :: rest))
    (hasked : ∀ k', k' ≠ k → asked' k' = asked k') (hk : asked' k = some e) :
    CallerOk holding asked' ((k, e) :: rest) := by
  refine ⟨h.flat, fun k' e' he' => ?_⟩
  by_cases hkk : k' = k
  · subst hkk
    rw [hk] at he'
    obtain rfl := Option.some.inj he'
    exact ⟨rest, rfl⟩
  · rw [hasked k' hkk] at he'
    exact absurd (h.asked_eq he').1 hkk

/-- It has done what was next; now it holds `held`. -/
theorem CallerOk.done {held : Option L} (h : CallerOk holding asked ((k, e) :: rest))
    (hflat : Flat held rest) (hholding : ∀ k', holding' k' = if held = some k' then 1 else 0)
    (hasked : ∀ k', k' ≠ k → asked' k' = asked k') (hk : asked' k = none) :
    CallerOk holding' asked' rest := by
  refine ⟨⟨held, hflat, hholding⟩, fun k' e' he' => ?_⟩
  by_cases hkk : k' = k
  · subst hkk
    exact absurd he' (by simp [hk])
  · rw [hasked k' hkk] at he'
    exact absurd (h.asked_eq he').1 hkk

/-- A thread that asks holds nothing. -/
theorem CallerOk.holds_none (h : CallerOk holding asked ((k, e) :: rest))
    (he : e = .readLock ∨ e = .writeLock) : Flat (some k) rest ∧ ∀ k', holding k' = 0 := by
  obtain ⟨held, hflat, hholding⟩ := h.flat
  have hasks : held = none ∧ Flat (some k) rest := by
    rcases he with rfl | rfl
    · exact hflat
    · exact hflat
  obtain ⟨rfl, hrest⟩ := hasks
  exact ⟨hrest, fun k' => (hholding k').trans (if_neg (by simp))⟩

/-- A thread that unlocks holds that lock and no other. -/
theorem CallerOk.holds_it (h : CallerOk holding asked ((k, .unlock) :: rest)) :
    Flat none rest ∧ ∀ k', holding k' = if k = k' then 1 else 0 := by
  obtain ⟨held, hflat, hholding⟩ := h.flat
  obtain ⟨rfl, hrest⟩ := hflat
  refine ⟨hrest, fun k' => ?_⟩
  rw [hholding k']
  exact if_congr Option.some_inj rfl rfl

end Threads

/-! ## What every step keeps -/

section Invariant

variable {θ L : Type}

def LockSys.holding (s : LockSys θ L) (t : θ) (k : L) : Nat := ((s.lock k).held t).length

def LockSys.asked (s : LockSys θ L) (t : θ) (k : L) : Option LockEvent := ((s.lock k).place t).asked

variable [DecidableEq L]

/-- At the lock of the step there may be something new. -/
theorem holding_update (s : LockSys θ L) (t : θ) (k k' : L) (lock' : RwSys θ)
    (todo' : θ → List (L × LockEvent)) :
    LockSys.holding ⟨Function.update s.lock k lock', todo'⟩ t k'
      = if k' = k then (lock'.held t).length else s.holding t k' := by
  show ((Function.update s.lock k lock' k').held t).length = _
  split
  next hk => rw [hk, Function.update_self]
  next hk =>
    rw [Function.update_of_ne hk]
    rfl

theorem asked_update (s : LockSys θ L) (t : θ) (k k' : L) (lock' : RwSys θ)
    (todo' : θ → List (L × LockEvent)) :
    LockSys.asked ⟨Function.update s.lock k lock', todo'⟩ t k'
      = if k' = k then (lock'.place t).asked else s.asked t k' := by
  show ((Function.update s.lock k lock' k').place t).asked = _
  split
  next hk => rw [hk, Function.update_self]
  next hk =>
    rw [Function.update_of_ne hk]
    rfl

variable [Fintype θ]

structure LockInv (s : LockSys θ L) : Prop where
  locks : ∀ k, RwInv (s.lock k)
  threads : ∀ t, CallerOk (s.holding t) (s.asked t) (s.todo t)

/-- What a thread waits for is what comes next for it. -/
theorem LockInv.asked_eq {s : LockSys θ L} {t : θ} {k : L} {e e' : LockEvent}
    {rest : List (L × LockEvent)} (h : LockInv s) (htodo : s.todo t = (k, e) :: rest)
    (hplace : ((s.lock k).place t).asked = some e') : e' = e := by
  have hold := h.threads t
  rw [htodo] at hold
  have hasked : s.asked t k = some e' := hplace
  exact (hold.asked_eq hasked).2

/-- A thread is in no wait but for what it asks for. -/
theorem LockInv.outside {s : LockSys θ L} {t : θ} {k : L} {e : LockEvent}
    {rest : List (L × LockEvent)} (h : LockInv s) (htodo : s.todo t = (k, e) :: rest)
    {k' : L} (hother : k' ≠ k ∨ e = .unlock ∨ e = .change) : (s.lock k').place t = .outside := by
  by_contra hp
  obtain ⟨e', he'⟩ := Option.ne_none_iff_exists'.mp (mt asked_eq_none.mp hp)
  have hok := h.threads t
  rw [htodo] at hok
  have hasked : s.asked t k' = some e' := he'
  obtain ⟨rfl, rfl⟩ := hok.asked_eq hasked
  have hask := asked_cases he'
  rcases hother with hne | rfl | rfl
  · exact hne rfl
  · exact absurd hask (by simp)
  · exact absurd hask (by simp)

section Step

variable [DecidableEq θ] {s : LockSys θ L} {t : θ} {k : L} {e : LockEvent}
  {rest : List (L × LockEvent)} {lock' : RwSys θ}

/-- Thread `t` moved at lock `k`, and is fine; then all are. -/
theorem LockInv.moved {todo' : θ → List (L × LockEvent)} (h : LockInv s) (hinv : RwInv lock')
    (hother : ∀ u, u ≠ t → SameFor (s.lock k) lock' u) (htodo : ∀ u, u ≠ t → todo' u = s.todo u)
    (hself : CallerOk (LockSys.holding ⟨Function.update s.lock k lock', todo'⟩ t)
      (LockSys.asked ⟨Function.update s.lock k lock', todo'⟩ t) (todo' t)) :
    LockInv ⟨Function.update s.lock k lock', todo'⟩ := by
  refine ⟨fun k' => ?_, fun u => ?_⟩
  · show RwInv (Function.update s.lock k lock' k')
    by_cases hk : k' = k
    · rw [hk, Function.update_self]
      exact hinv
    · rw [Function.update_of_ne hk]
      exact h.locks k'
  · by_cases hu : u = t
    · rw [hu]
      exact hself
    · have hholding : LockSys.holding ⟨Function.update s.lock k lock', todo'⟩ u = s.holding u := by
        funext k'
        rw [holding_update, (hother u hu).1]
        split
        next hk => rw [hk]; rfl
        next => rfl
      have hasked : LockSys.asked ⟨Function.update s.lock k lock', todo'⟩ u = s.asked u := by
        funext k'
        rw [asked_update, (hother u hu).2]
        split
        next hk => rw [hk]; rfl
        next => rfl
      show CallerOk _ _ (todo' u)
      rw [hholding, hasked, htodo u hu]
      exact h.threads u

/-- It has asked for a lock, and has to wait. -/
theorem LockInv.slept (h : LockInv s) (htodo : s.todo t = (k, e) :: rest) (hinv : RwInv lock')
    (hother : ∀ u, u ≠ t → SameFor (s.lock k) lock' u)
    (hheld : lock'.held t = (s.lock k).held t) (hasked : (lock'.place t).asked = some e) :
    LockInv ⟨Function.update s.lock k lock', s.todo⟩ := by
  apply h.moved hinv hother fun _ _ => rfl
  have hold := h.threads t
  have hholding : LockSys.holding ⟨Function.update s.lock k lock', s.todo⟩ t = s.holding t := by
    funext k'
    rw [holding_update, hheld]
    split
    next hk => rw [hk]; rfl
    next => rfl
  rw [htodo] at hold
  rw [hholding, htodo]
  apply hold.slept
  · intro k' hk
    rw [asked_update, if_neg hk]
  · rw [asked_update, if_pos rfl]
    exact hasked

/-- It has the lock it asked for. -/
theorem LockInv.got {m : Mode} (h : LockInv s) (htodo : s.todo t = (k, e) :: rest)
    (he : e = .readLock ∨ e = .writeLock) (hinv : RwInv lock')
    (hother : ∀ u, u ≠ t → SameFor (s.lock k) lock' u)
    (hheld : lock'.held t = m :: (s.lock k).held t) (hplace : lock'.place t = .outside) :
    LockInv ⟨Function.update s.lock k lock', Function.update s.todo t rest⟩ := by
  apply h.moved hinv hother fun u hu => Function.update_of_ne hu ..
  have hold := h.threads t
  rw [htodo] at hold
  obtain ⟨hflat, hnone⟩ := hold.holds_none he
  rw [Function.update_self]
  apply hold.done hflat
  · intro k'
    rw [holding_update, hheld, List.length_cons]
    have hk0 : ((s.lock k).held t).length = 0 := hnone k
    split
    next hk => rw [hk0, hk, if_pos rfl]
    next hk => rw [hnone k', if_neg fun heq => hk (Option.some.inj heq).symm]
  · intro k' hk
    rw [asked_update, if_neg hk]
  · rw [asked_update, if_pos rfl, hplace]
    rfl

/-- It has given its lock back. -/
theorem LockInv.gave (h : LockInv s) (htodo : s.todo t = (k, .unlock) :: rest)
    (hinv : RwInv lock') (hother : ∀ u, u ≠ t → SameFor (s.lock k) lock' u)
    (hheld : lock'.held t = ((s.lock k).held t).tail)
    (hasked : (lock'.place t).asked = none) :
    LockInv ⟨Function.update s.lock k lock', Function.update s.todo t rest⟩ := by
  apply h.moved hinv hother fun u hu => Function.update_of_ne hu ..
  have hold := h.threads t
  rw [htodo] at hold
  obtain ⟨hflat, hone⟩ := hold.holds_it
  rw [Function.update_self]
  apply hold.done hflat
  · intro k'
    have hzero : (if (none : Option L) = some k' then 1 else 0) = 0 := if_neg (by simp)
    rw [holding_update, hheld, List.length_tail, hzero]
    have hk1 : ((s.lock k).held t).length = 1 := (hone k).trans (if_pos rfl)
    split
    next =>
      show ((s.lock k).held t).length - 1 = 0
      rw [hk1]
    next hk => rw [hone k', if_neg fun heq => hk heq.symm]
  · intro k' hk
    rw [asked_update, if_neg hk]
  · rw [asked_update, if_pos rfl]
    exact hasked

/-- Its list of things to do is another one; it holds what it held. -/
theorem LockInv.turned {todo' : List (L × LockEvent)} (h : LockInv s)
    (hself : CallerOk (s.holding t) (s.asked t) todo') :
    LockInv { s with todo := Function.update s.todo t todo' } := by
  refine ⟨h.locks, fun u => ?_⟩
  show CallerOk (s.holding u) (s.asked u) (Function.update s.todo t todo' u)
  by_cases hu : u = t
  · subst hu
    rw [Function.update_self]
    exact hself
  · rw [Function.update_of_ne hu]
    exact h.threads u

/-- A test of its lock has let it through, or not. -/
theorem LockInv.tested {m : Mode} {r : Option Int × RwSys θ} (h : LockInv s)
    (htodo : s.todo t = (k, e) :: rest) (he : e = .readLock ∨ e = .writeLock) (hinv : RwInv r.2)
    (hother : ∀ u, u ≠ t → SameFor (s.lock k) r.2 u)
    (hself : (r.1 = some 0 ∧ r.2.held t = m :: (s.lock k).held t ∧ r.2.place t = .outside) ∨
      (r.1 = none ∧ r.2.held t = (s.lock k).held t ∧ (r.2.place t).asked = some e)) :
    LockInv ⟨Function.update s.lock k r.2,
      if r.1.isSome then Function.update s.todo t rest else s.todo⟩ := by
  rcases hself with ⟨hrc, hheld, hplace⟩ | ⟨hrc, hheld, hasked⟩
  · rw [hrc]
    exact h.got htodo he hinv hother hheld hplace
  · rw [hrc]
    exact h.slept htodo hinv hother hheld hasked

omit [Fintype θ] in
/-- A step at a lock was possible there. -/
theorem moved_some {r : Option (Option Int × RwSys θ)} {rc : Option Int} {s' : LockSys θ L}
    (h : s.moved t k rest r = some (rc, s')) :
    ∃ lock', r = some (rc, lock') ∧
      s' = ⟨Function.update s.lock k lock',
        if rc.isSome then Function.update s.todo t rest else s.todo⟩ := by
  cases r with
  | none => exact absurd h (by simp [LockSys.moved])
  | some r =>
    obtain ⟨rfl, rfl⟩ := Prod.mk.inj (Option.some.inj h)
    exact ⟨r.2, rfl, rfl⟩

/-- A thread wakes up. -/
theorem LockInv.wakeUp {rc : Option Int} {s' : LockSys θ L} (h : LockInv s)
    (htodo : s.todo t = (k, e) :: rest)
    (hstep : s.moved t k rest (rwStep (s.lock k) (.wakeUp t)) = some (rc, s')) : LockInv s' := by
  obtain ⟨lock', hr, rfl⟩ := moved_some hstep
  have hinv := (h.locks k).step hr
  have hwoken : ∀ x y : Place, (s.lock k).place t = x → y.asked = x.asked → x.asked ≠ none →
      lock' = { s.lock k with place := Function.update (s.lock k).place t y } →
      LockInv ⟨Function.update s.lock k lock', s.todo⟩ := by
    rintro x y hx hy hsome rfl
    obtain ⟨e', he'⟩ := Option.ne_none_iff_exists'.mp hsome
    have hsame := h.asked_eq htodo (by rw [hx, he'])
    subst hsame
    apply h.slept htodo hinv
    · exact fun u hu => ⟨rfl, congrArg Place.asked (Function.update_of_ne hu ..)⟩
    · rfl
    · show (Function.update (s.lock k).place t y t).asked = _
      rw [Function.update_self, hy, he']
  simp only [rwStep] at hr
  split at hr
  next hp =>
    obtain ⟨rfl, rfl⟩ := Prod.mk.inj (Option.some.inj hr)
    exact hwoken _ (.readSig true) hp rfl (by simp [Place.asked]) rfl
  next hp =>
    obtain ⟨rfl, rfl⟩ := Prod.mk.inj (Option.some.inj hr)
    exact hwoken _ (.writeSig true) hp rfl (by simp [Place.asked]) rfl
  next => exact absurd hr (by simp)

/-- A woken thread looks again. -/
theorem LockInv.recheck {rc : Option Int} {s' : LockSys θ L} (h : LockInv s)
    (htodo : s.todo t = (k, e) :: rest)
    (hstep : s.moved t k rest (rwStep (s.lock k) (.recheck t)) = some (rc, s')) :
    LockInv s' := by
  obtain ⟨lock', hr, rfl⟩ := moved_some hstep
  have hinv := (h.locks k).step hr
  simp only [rwStep] at hr
  split at hr
  next hp =>
    have hasked : ((s.lock k).place t).asked = some .readLock := by rw [hp]; rfl
    obtain rfl := h.asked_eq htodo hasked
    have heq := Option.some.inj hr
    obtain rfl : (readTest (s.lock k) t).2 = lock' := congrArg Prod.snd heq
    obtain rfl : (readTest (s.lock k) t).1 = rc := congrArg Prod.fst heq
    apply h.tested htodo (Or.inl rfl) hinv fun u hu => readTest_sameFor _ hu
    exact (readTest_self (s.lock k) t).imp id fun hres =>
      ⟨hres.1, hres.2.1, by rw [hres.2.2]; rfl⟩
  next hp =>
    have hasked : ((s.lock k).place t).asked = some .writeLock := by rw [hp]; rfl
    obtain rfl := h.asked_eq htodo hasked
    -- it is no longer counted as blocked when it looks
    have hsame : ∀ r : RwMutex, ∀ u, u ≠ t →
        SameFor (s.lock k) (writeTest { s.lock k with lock := r } t).2 u := by
      intro r u hu
      obtain ⟨hheld, hplace⟩ := writeTest_sameFor { s.lock k with lock := r } hu
      exact ⟨hheld, hplace⟩
    have heq := Option.some.inj hr
    obtain rfl : _ = lock' := congrArg Prod.snd heq
    obtain rfl : _ = rc := congrArg Prod.fst heq
    apply h.tested htodo (Or.inr rfl) hinv (hsame _)
    exact (writeTest_self _ t).imp id fun hres =>
      ⟨hres.1, hres.2.1, by rw [hres.2.2]; rfl⟩
  next => exact absurd hr (by simp)

/-- A thread asks for its lock. -/
theorem LockInv.ask {rc : Option Int} {s' : LockSys θ L} (h : LockInv s)
    (htodo : s.todo t = (k, e) :: rest) (he : e = .readLock ∨ e = .writeLock)
    (hstep : s.moved t k rest (rwStep (s.lock k)
      (if e = .readLock then .readLock t else .writeLock t)) = some (rc, s')) : LockInv s' := by
  obtain ⟨lock', hr, rfl⟩ := moved_some hstep
  have hinv := (h.locks k).step hr
  rcases he with rfl | rfl
  · rw [if_pos rfl] at hr
    simp only [rwStep] at hr
    split at hr
    next =>
      have heq := Option.some.inj hr
      obtain rfl : (readTest (s.lock k) t).2 = lock' := congrArg Prod.snd heq
      obtain rfl : (readTest (s.lock k) t).1 = rc := congrArg Prod.fst heq
      apply h.tested htodo (Or.inl rfl) hinv fun u hu => readTest_sameFor _ hu
      exact (readTest_self (s.lock k) t).imp id fun hres =>
        ⟨hres.1, hres.2.1, by rw [hres.2.2]; rfl⟩
    next => exact absurd hr (by simp)
  · rw [if_neg (by simp)] at hr
    simp only [rwStep] at hr
    split at hr
    next =>
      have heq := Option.some.inj hr
      obtain rfl : (writeTest (s.lock k) t).2 = lock' := congrArg Prod.snd heq
      obtain rfl : (writeTest (s.lock k) t).1 = rc := congrArg Prod.fst heq
      apply h.tested htodo (Or.inr rfl) hinv fun u hu => writeTest_sameFor _ hu
      exact (writeTest_self (s.lock k) t).imp id fun hres =>
        ⟨hres.1, hres.2.1, by rw [hres.2.2]; rfl⟩
    next => exact absurd hr (by simp)

/-- A thread gives its lock back. -/
theorem LockInv.unlock {rc : Option Int} {s' : LockSys θ L} {ws : Finset θ} (h : LockInv s)
    (htodo : s.todo t = (k, .unlock) :: rest)
    (hstep : s.moved t k rest (rwStep (s.lock k) (.unlock t ws)) = some (rc, s')) :
    LockInv s' := by
  obtain ⟨lock', hr, rfl⟩ := moved_some hstep
  have hinv := (h.locks k).step hr
  simp only [rwStep] at hr
  split at hr
  next hp =>
    obtain ⟨rfl, hheld, hasked, hother⟩ := unlock_cases (h.locks k) hp.2 hr
    apply h.gave htodo hinv hother hheld
    rw [hasked, hp.1]
    rfl
  next => exact absurd hr (by simp)

end Step

/-- The functions that are entered give back what they take, one lock at a time. -/
def CallsFlat : LockAct θ L → Prop
  | .call _ tr => Flat none tr
  | _ => True

theorem lockStart_inv : LockInv (lockStart (θ := θ) (L := L)) := by
  refine ⟨fun _ => rwStart_inv, fun t => ⟨⟨none, rfl, fun k => ?_⟩, fun k e he => ?_⟩⟩
  · exact (if_neg (by simp)).symm
  · exact absurd he (by simp [LockSys.asked, lockStart, rwStart, Place.asked])

variable [DecidableEq θ]

/-- What one step keeps. -/
theorem LockInv.step {s s' : LockSys θ L} {a : LockAct θ L} {rc : Option Int} (h : LockInv s)
    (hcall : CallsFlat a) (hstep : lockStep s a = some (rc, s')) : LockInv s' := by
  cases a with
  | call t tr =>
    simp only [lockStep] at hstep
    split at hstep
    next htodo =>
      obtain ⟨-, rfl⟩ := Prod.mk.inj (Option.some.inj hstep)
      obtain ⟨⟨held, hflat, hholding⟩, hasks⟩ := h.threads t
      rw [htodo] at hflat hasks
      obtain rfl := hflat
      apply h.turned
      refine ⟨⟨none, hcall, hholding⟩, fun k e he => ?_⟩
      obtain ⟨rest, heq⟩ := hasks k e he
      exact absurd heq (by simp)
    next => exact absurd hstep (by simp)
  | go t ws =>
    simp only [lockStep] at hstep
    split at hstep
    next => exact absurd hstep (by simp)
    next k rest htodo => exact h.ask htodo (Or.inl rfl) hstep
    next k rest htodo => exact h.ask htodo (Or.inr rfl) hstep
    next k rest htodo => exact h.unlock htodo hstep
    next k rest htodo =>
      obtain ⟨-, rfl⟩ := Prod.mk.inj (Option.some.inj hstep)
      obtain ⟨⟨held, hflat, hholding⟩, hasks⟩ := h.threads t
      rw [htodo] at hflat hasks
      apply h.turned
      refine ⟨⟨held, hflat, hholding⟩, fun k' e' he' => ?_⟩
      -- nobody waits for a change
      obtain ⟨rest', heq⟩ := hasks k' e' he'
      obtain ⟨hhead, -⟩ := List.cons.inj heq
      obtain ⟨-, rfl⟩ := Prod.mk.inj hhead
      exact absurd (asked_cases he') (by simp)
  | wakeUp t =>
    simp only [lockStep] at hstep
    split at hstep
    next => exact absurd hstep (by simp)
    next k e rest htodo => exact h.wakeUp htodo hstep
  | recheck t =>
    simp only [lockStep] at hstep
    split at hstep
    next => exact absurd hstep (by simp)
    next k e rest htodo => exact h.recheck htodo hstep

/-- What a run keeps. -/
theorem lockRuns_inv {acts : List (LockAct θ L)} {rcs : List (Option Int)} {s s' : LockSys θ L}
    (h : LockInv s) (hcalls : ∀ a ∈ acts, CallsFlat a)
    (hrun : runs lockStep s acts = some (rcs, s')) : LockInv s' :=
  runs_invariant (g := fun _ a => CallsFlat a) (fun _ _ _ _ h ha hstep => h.step ha hstep) h
    (guarded_of_forall hcalls) hrun

/-! ## Somebody can go on -/

variable {s : LockSys θ L} {t : θ} {k : L} {e : LockEvent} {rest : List (L × LockEvent)}

/-- A step that gets one thing of one thread done. -/
def Advances (s s' : LockSys θ L) (a : LockAct θ L) : Prop :=
  a.goesOn = true ∧ (∃ rc, lockStep s a = some (rc, s')) ∧ s'.remaining + 1 = s.remaining

theorem advances_moved {a : LockAct θ L} {rc : Int} {lock' : RwSys θ}
    (htodo : s.todo t = (k, e) :: rest) (ha : a.goesOn = true)
    (hstep : lockStep s a = s.moved t k rest (some (some rc, lock'))) :
    Advances s ⟨Function.update s.lock k lock', Function.update s.todo t rest⟩ a :=
  ⟨ha, ⟨some rc, hstep⟩, remaining_done htodo⟩

theorem advances_change (htodo : s.todo t = (k, .change) :: rest) :
    Advances s ⟨s.lock, Function.update s.todo t rest⟩ (.go t ∅) := by
  refine ⟨rfl, ⟨none, ?_⟩, remaining_done htodo⟩
  simp only [lockStep, htodo]

/-- A thread that holds a lock can go on. -/
theorem LockInv.holder_advances (h : LockInv s) (hheld : (s.lock k).held t ≠ []) :
    ∃ a s', Advances s s' a := by
  obtain ⟨⟨held, hflat, hholding⟩, -⟩ := h.threads t
  have hk : held = some k := by
    by_contra hne
    have hzero : ((s.lock k).held t).length = 0 := (hholding k).trans (if_neg hne)
    exact hheld (List.length_eq_zero_iff.mp hzero)
  subst hk
  rcases htodo : s.todo t with _ | ⟨⟨k', e⟩, rest⟩
  · rw [htodo] at hflat
    exact absurd hflat (by simp [Flat])
  · rw [htodo] at hflat
    cases e with
    | readLock => exact absurd hflat.1 (by simp)
    | writeLock => exact absurd hflat.1 (by simp)
    | change => exact ⟨_, _, advances_change htodo⟩
    | unlock =>
      obtain rfl := Option.some.inj hflat.1
      have hout : (s.lock k).place t = .outside := h.outside htodo (Or.inr (Or.inl rfl))
      obtain ⟨ws, ⟨rc, lock'⟩, hr⟩ := exists_unlock (h.locks k) hheld
      obtain ⟨rfl, -⟩ := unlock_cases (h.locks k) hheld hr
      have hstep : lockStep s (.go t ws) = s.moved t k rest (some (some 0, lock')) := by
        simp only [lockStep, htodo, rwStep, if_pos (And.intro hout hheld), hr]
      exact ⟨_, _, advances_moved htodo rfl hstep⟩

/-- Of a free lock with a writer in its wait, some writer gets it. -/
theorem LockInv.writer_advances (h : LockInv s) (hfree : (s.lock k).lock.state = 0)
    (hblocked : ∃ u, ((s.lock k).place u).Blocked) : ∃ a s', Advances s s' a := by
  obtain ⟨v, hv⟩ := (h.locks k).woken hfree hblocked
  obtain ⟨rest, htodo⟩ := (h.threads v).asks k .writeLock (by rw [LockSys.asked, hv]; rfl)
  obtain ⟨lock', hr, -⟩ := recheck_writer hv hfree
  have hstep : lockStep s (.recheck v) = s.moved v k rest (some (some 0, lock')) := by
    simp only [lockStep, htodo, hr]
  exact ⟨_, _, advances_moved htodo rfl hstep⟩

/-- Of a free lock that no writer waits for, everybody gets it who looks. -/
theorem LockInv.asker_advances (h : LockInv s) (htodo : s.todo t = (k, e) :: rest)
    (he : e = .readLock ∨ e = .writeLock) (hfree : (s.lock k).lock.state = 0)
    (hnone : ∀ u, ¬ ((s.lock k).place u).Blocked) : ∃ a s', Advances s s' a := by
  have hb : (s.lock k).lock.blockedWriters = 0 := by
    rw [(h.locks k).blocked, count_eq_zero.mpr hnone]
    rfl
  have hread : readTest (s.lock k) t
      = (some 0, (s.lock k).take t ⟨1, (s.lock k).lock.blockedWriters⟩ .read) := by
    unfold readTest
    rw [if_neg (by omega), hfree]
    rfl
  have hwrite : writeTest (s.lock k) t
      = (some 0, (s.lock k).take t ⟨-1, (s.lock k).lock.blockedWriters⟩ .write) := by
    unfold writeTest
    rw [if_neg (by omega)]
  cases hp : (s.lock k).place t with
  | outside =>
    rcases he with rfl | rfl
    · have hstep : lockStep s (.go t ∅) = s.moved t k rest (some (readTest (s.lock k) t)) := by
        simp only [lockStep, htodo, rwStep, if_pos hp]
      rw [hread] at hstep
      exact ⟨_, _, advances_moved htodo rfl hstep⟩
    · have hstep : lockStep s (.go t ∅) = s.moved t k rest (some (writeTest (s.lock k) t)) := by
        simp only [lockStep, htodo, rwStep, if_pos hp]
      rw [hwrite] at hstep
      exact ⟨_, _, advances_moved htodo rfl hstep⟩
  | readSig woken =>
    cases woken with
    | false =>
      -- it would have a writer to wait for
      rcases (h.locks k).idle t hp with hneg | hsome
      · omega
      · exact absurd hb hsome
    | true =>
      have hstep : lockStep s (.recheck t) = s.moved t k rest (some (readTest (s.lock k) t)) := by
        simp only [lockStep, htodo, rwStep, hp]
      rw [hread] at hstep
      exact ⟨_, _, advances_moved htodo rfl hstep⟩
  | writeSig woken =>
    have hyes := blocked_writeSig woken
    exact absurd (hp ▸ hyes) (hnone t)

/-- **Somebody can go on.** While anything is left to be done, some thread gets something
done with its next step. -/
theorem lockSys_progress (h : LockInv s) (hleft : ∃ t, s.todo t ≠ []) :
    ∃ a s', Advances s s' a := by
  by_cases hheld : ∃ k t, (s.lock k).held t ≠ []
  · obtain ⟨k, t, hkt⟩ := hheld
    exact h.holder_advances hkt
  · have hnone : ∀ k t, (s.lock k).held t = [] := by
      intro k t
      by_contra hne
      exact hheld ⟨k, t, hne⟩
    obtain ⟨t, ht⟩ := hleft
    rcases htodo : s.todo t with _ | ⟨⟨k, e⟩, rest⟩
    · exact absurd htodo ht
    · have hfree : (s.lock k).lock.state = 0 := state_eq_zero (h.locks k) (hnone k)
      have hask : e = .readLock ∨ e = .writeLock → ∃ a s', Advances s s' a := by
        intro he
        by_cases hblocked : ∃ u, ((s.lock k).place u).Blocked
        · exact h.writer_advances hfree hblocked
        · exact h.asker_advances htodo he hfree fun u hu => hblocked ⟨u, hu⟩
      cases e with
      | readLock => exact hask (Or.inl rfl)
      | writeLock => exact hask (Or.inr rfl)
      | change => exact ⟨_, _, advances_change htodo⟩
      | unlock =>
        have hok := h.threads t
        rw [htodo] at hok
        have hone : ((s.lock k).held t).length = 1 := (hok.holds_it.2 k).trans (if_pos rfl)
        rw [hnone k t] at hone
        exact absurd hone (by simp)

/-- **All of them can be brought to their end**, with a step for each thing that is left. -/
theorem lockSys_drains (h : LockInv s) :
    ∃ acts rcs s', (∀ a ∈ acts, a.goesOn = true) ∧ acts.length = s.remaining ∧
      runs lockStep s acts = some (rcs, s') ∧ (∀ t, s'.todo t = []) ∧
      ∀ k t, (s'.lock k).held t = [] := by
  induction hn : s.remaining generalizing s with
  | zero =>
    have hdone := remaining_eq_zero hn
    refine ⟨[], [], s, by simp, rfl, rfl, hdone, fun k t => ?_⟩
    obtain ⟨⟨held, hflat, hholding⟩, -⟩ := h.threads t
    rw [hdone t] at hflat
    obtain rfl := hflat
    exact List.length_eq_zero_iff.mp ((hholding k).trans (if_neg (by simp)))
  | succ n ih =>
    have hleft : ∃ t, s.todo t ≠ [] := by
      by_contra hall
      have hzero : s.remaining = 0 := by
        refine total_eq_zero.mpr fun t => ?_
        rw [List.length_eq_zero_iff]
        by_contra hne
        exact hall ⟨t, hne⟩
      omega
    obtain ⟨a, s₁, ha, ⟨rc, hstep⟩, hless⟩ := lockSys_progress h hleft
    have hflat : CallsFlat a := by
      cases a with
      | call t tr => exact absurd ha (by simp [LockAct.goesOn])
      | go t ws => trivial
      | wakeUp t => trivial
      | recheck t => trivial
    obtain ⟨acts, rcs, s', hgoes, hlen, hrun, hend⟩ := ih (h.step hflat hstep) (by omega)
    refine ⟨a :: acts, rc :: rcs, s', ?_, ?_, runs_cons.mpr ⟨rc, s₁, rcs, hstep, hrun, rfl⟩, hend⟩
    · intro b hb
      rcases List.mem_cons.mp hb with rfl | hb
      · exact ha
      · exact hgoes b hb
    · rw [List.length_cons, hlen]

end Invariant

end Nastd.Server
