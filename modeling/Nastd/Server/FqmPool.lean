import Nastd.Lib.Monitor
import Nastd.Lib.Run
import Nastd.Server.Fqm

/-!
# The pool and its end

`fqm_delete` of `server/fqm.c` with its workers: `fqm_pop` and `fqm_popper` with the
`dieflag`, the `status` of a thread and the reaping of the dead ones. One step is what is
done under one lock, or one access outside of the locks.

`fqm_new` keeps the lock of `q_cond` while it starts the threads, so none of them is past
the beginning of `fqm_pop` when it gives the lock up: the pool starts with all threads
there and with the `IDLE` of `fqm_thr_new`. Where `fqm_thr_new` fails part-way the pool is
that of the threads made so far, and `fqm_delete` comes next.

`verify_idle_threads` has the lock of `q_cond` while it looks, so a thread that is not
`BUSY` does not become so; what it finds is true at one moment, and the look and the
broadcast are one step.

`Pool.Ok` is what holds in every state of every run (`poolRuns_ok`).
-/

namespace Nastd.Server

open Nastd.Lib

/-- `status_t`. -/
inductive Status where
  | idle
  | busy
  | noalloc
  deriving DecidableEq, Repr

/-- Where a worker is in `fqm_popper`. -/
inductive Popping where
  /-- On its way to the lock in `fqm_pop`. -/
  | ready
  /-- In `cond_wait`. -/
  | asleep
  /-- Woken up; it does not have the lock back. -/
  | woken
  /-- `fqm_pop` has returned; the `dieflag` is next. -/
  | returned (req : Option Request)
  /-- In the handler. -/
  | busy (req : Request)
  /-- Out of the loop. -/
  | dying
  | dead
  deriving DecidableEq, Repr

/-- Where the thread is that deletes the pool. -/
inductive Owner where
  /-- `fqm_new` has returned. -/
  | serving
  /-- About to set the `dieflag` of `tids[i]`. -/
  | flagging (i : Nat)
  /-- On its way to the lock of `q_cond`, for `verify_idle_threads` and the broadcast. -/
  | verifying
  /-- At `while (i < fqm->maxitems)`; `i` threads are freed. -/
  | reaping (i : Nat)
  /-- In `cond_wait` for `t_cond`. -/
  | parked (i : Nat)
  | done
  deriving DecidableEq, Repr

/-- `fqm_t` and its `n` threads; `freed w` is `tids[w] == NULL`. -/
structure Pool (n : Nat) where
  fqm : Fqm
  place : Fin n → Popping
  status : Fin n → Status
  dieflag : Fin n → Bool
  freed : Fin n → Bool
  owner : Owner

inductive PoolAct (n : Nat) where
  /-- The locked part of `fqm_push`; the signal wakes `ws`. -/
  | push (req : Request) (ws : Finset (Fin n))
  /-- `fqm_pop`, until it sleeps or gives the lock up. -/
  | pop (w : Fin n)
  /-- A sleeper wakes up for no reason. -/
  | wakeUp (w : Fin n)
  /-- `fqm_pop` after `cond_wait`. -/
  | resume (w : Fin n)
  /-- `if (self->dieflag)`, and what comes then. -/
  | test (w : Fin n)
  /-- The handler returns; `req_delete`. -/
  | finish (w : Fin n)
  /-- The end of `fqm_popper`, under the lock of `t_cond`. -/
  | die (w : Fin n)
  /-- `fqm_delete` is called. -/
  | delete
  /-- `tids[i]->dieflag = 1`, or the end of that loop. -/
  | flag
  /-- `verify_idle_threads` finds a busy thread: unlock, sleep. -/
  | verify
  /-- It finds none: the broadcast. -/
  | broadcast
  /-- `fqm_thr_wait`, until it sleeps or the loop ends. -/
  | reap
  /-- The deleting thread wakes up for no reason. -/
  | rouse

/-- The pool after `fqm_new`; `whole` if all its threads could be made. -/
def poolStart (n : Nat) (whole : Bool) : Pool n where
  fqm := fqmNew n
  place _ := .ready
  status _ := .idle
  dieflag _ := false
  freed _ := false
  owner := if whole then .serving else .flagging 0

section Steps

variable {n : Nat}

def Pool.goto (s : Pool n) (w : Fin n) (x : Popping) : Pool n :=
  { s with place := Function.update s.place w x }

def Pool.mark (s : Pool n) (w : Fin n) (x : Status) : Pool n :=
  { s with status := Function.update s.status w x }

/-- `fqm_pop` from `p = fqm->sreq` to its unlock. -/
def Pool.take (s : Pool n) (w : Fin n) : Pool n :=
  match fqmPop s.fqm with
  | none => s.goto w (.returned none)
  | some (req, fqm) => ({ s with fqm := fqm }.mark w .busy).goto w (.returned (some req))

/-- `cond_signal(t_cond)`: only the deleting thread waits for it. -/
def Owner.signalled : Owner → Owner
  | .parked i => .reaping i
  | x => x

/-- What `fqm_thr_wait` frees. -/
def Pool.reaped (s : Pool n) : Finset (Fin n) :=
  Finset.univ.filter fun w => s.freed w = false ∧ s.status w = .noalloc

/-- One step of one thread. -/
def poolStep (s : Pool n) : PoolAct n → Option (Unit × Pool n)
  | .push req ws =>
    -- no pushes after `fqm_delete` is called
    if s.owner = .serving ∧ SignalsTo (fun w => s.place w = .asleep) ws then
      some ((), { s with
        fqm := { s.fqm with queue := s.fqm.queue ++ [req], nitems := s.fqm.nitems + 1 }
        place := wake ws .woken s.place })
    else none
  | .pop w =>
    if s.place w = .ready then
      let s := s.mark w .idle
      if s.fqm.queue = [] then some ((), s.goto w .asleep) else some ((), s.take w)
    else none
  | .wakeUp w => if s.place w = .asleep then some ((), s.goto w .woken) else none
  | .resume w => if s.place w = .woken then some ((), s.take w) else none
  | .test w =>
    match s.place w with
    | .returned req =>
      if s.dieflag w then some ((), s.goto w .dying)
      else
        match req with
        | none => some ((), s.goto w .ready)
        | some req => some ((), s.goto w (.busy req))
    | _ => none
  | .finish w =>
    match s.place w with
    | .busy _ => some ((), s.goto w .ready)
    | _ => none
  | .die w =>
    if s.place w = .dying then
      some ((), { (s.mark w .noalloc).goto w .dead with owner := s.owner.signalled })
    else none
  | .delete => if s.owner = .serving then some ((), { s with owner := .flagging 0 }) else none
  | .flag =>
    match s.owner with
    | .flagging i =>
      if h : i < n then
        some ((), { s with
          dieflag := Function.update s.dieflag ⟨i, h⟩ true
          owner := .flagging (i + 1) })
      else some ((), { s with owner := .verifying })
    | _ => none
  | .verify =>
    if s.owner = .verifying ∧ ∃ w, s.status w = .busy then some ((), s) else none
  | .broadcast =>
    if s.owner = .verifying ∧ ∀ w, s.status w ≠ .busy then
      some ((), { s with
        place := wake (Finset.univ.filter fun w => s.place w = .asleep) .woken s.place
        owner := .reaping 0 })
    else none
  | .reap =>
    match s.owner with
    | .reaping i =>
      let i' := i + s.reaped.card
      some ((), { s with
        freed := fun w => s.freed w || decide (w ∈ s.reaped)
        owner := if i' < n then .parked i' else .done })
    | _ => none
  | .rouse =>
    match s.owner with
    | .parked i => some ((), { s with owner := .reaping i })
    | _ => none

end Steps

/-! ## What holds all along -/

/-- The flag of the `w`-th thread is set. -/
def Owner.HasFlagged (w : Nat) : Owner → Prop
  | .serving => False
  | .flagging i => w < i
  | _ => True

/-- The request in a worker's hands. -/
def Popping.hand : Popping → Option Request
  | .returned req => req
  | .busy req => some req
  | _ => none

/-- The broadcast is out. -/
def Owner.Past : Owner → Prop
  | .serving => False
  | .flagging _ => False
  | .verifying => False
  | _ => True

/-- The statuses tell who has a request and who is dead; the flags are set in turn; the
dead are freed and counted; and the deleting thread sleeps only while there is somebody to
wake it. -/
structure Pool.Ok {n : Nat} (s : Pool n) : Prop where
  loaded : ∀ w, (s.place w).hand ≠ none → s.status w = .busy
  handler : ∀ w req, s.place w = .busy req → ¬ s.owner.Past
  dead : ∀ w, s.status w = .noalloc ↔ s.place w = .dead
  flagged : ∀ w : Fin n, s.owner.HasFlagged w → s.dieflag w = true
  gone : ∀ w, s.freed w = true → s.place w = .dead
  count : ∀ i, s.owner = .reaping i ∨ s.owner = .parked i →
    i = (Finset.univ.filter fun w => s.freed w = true).card
  unfreed : ¬ s.owner.Past → ∀ w, s.freed w = false
  parked : ∀ i, s.owner = .parked i → i < n ∧ ∀ w, s.place w = .dead → s.freed w = true

section Steps

variable {n : Nat} {s s' : Pool n} {w : Fin n}

theorem poolStart_ok {whole : Bool} : (poolStart n whole).Ok := by
  refine ⟨fun w h => absurd rfl h, ?_, ?_, ?_, ?_, ?_, fun _ w => rfl, ?_⟩
  · intro w req h
    exact absurd h (by simp [poolStart])
  · intro w
    exact iff_of_false (by simp [poolStart]) (by simp [poolStart])
  · intro w h
    cases whole with
    | false => exact absurd h (Nat.not_lt_zero _)
    | true => exact absurd h id
  · intro w h
    exact absurd h (by simp [poolStart])
  · intro i h
    cases whole with
    | false => exact absurd h (by simp [poolStart])
    | true => exact absurd h (by simp [poolStart])
  · intro i h
    cases whole with
    | false => exact absurd h (by simp [poolStart])
    | true => exact absurd h (by simp [poolStart])

theorem Pool.Ok.setFqm (h : s.Ok) (fqm : Fqm) : Pool.Ok { s with fqm := fqm } :=
  ⟨h.loaded, h.handler, h.dead, h.flagged, h.gone, h.count, h.unfreed, h.parked⟩

/-- A worker that lives goes on, and lives. -/
theorem Pool.Ok.move {x : Popping} {st : Status} (h : s.Ok) (hfrom : s.place w ≠ .dead)
    (hx : x ≠ .dead) (hst : st ≠ .noalloc) (hload : x.hand ≠ none → st = .busy)
    (hbusy : ∀ req, x = .busy req → ¬ s.owner.Past) : ((s.mark w st).goto w x).Ok := by
  have hplace : ∀ {u}, u ≠ w → ((s.mark w st).goto w x).place u = s.place u := fun hu =>
    Function.update_of_ne hu _ _
  have hstatus : ∀ {u}, u ≠ w → ((s.mark w st).goto w x).status u = s.status u := fun hu =>
    Function.update_of_ne hu _ _
  have hself : ((s.mark w st).goto w x).place w = x := Function.update_self ..
  have hmark : ((s.mark w st).goto w x).status w = st := Function.update_self ..
  refine ⟨?_, ?_, ?_, h.flagged, ?_, h.count, h.unfreed, ?_⟩
  · intro u hu
    by_cases huw : u = w
    · subst huw
      rw [hself] at hu
      rw [hmark]
      exact hload hu
    · rw [hplace huw] at hu
      rw [hstatus huw]
      exact h.loaded u hu
  · intro u req hu
    by_cases huw : u = w
    · subst huw
      rw [hself] at hu
      exact hbusy req hu
    · rw [hplace huw] at hu
      exact h.handler u req hu
  · intro u
    by_cases huw : u = w
    · subst huw
      rw [hself, hmark]
      exact iff_of_false hst hx
    · rw [hplace huw, hstatus huw]
      exact h.dead u
  · intro u hu
    have huw : u ≠ w := by
      rintro rfl
      exact hfrom (h.gone u hu)
    rw [hplace huw]
    exact h.gone u hu
  · intro i hi
    obtain ⟨hlt, hall⟩ := h.parked i hi
    refine ⟨hlt, fun u hu => ?_⟩
    by_cases huw : u = w
    · subst huw
      rw [hself] at hu
      exact absurd hu hx
    · rw [hplace huw] at hu
      exact hall u hu

/-- A worker goes on with what it has in its hands, or with nothing. -/
theorem Pool.Ok.goto {x : Popping} (h : s.Ok) (hfrom : s.place w ≠ .dead) (hx : x ≠ .dead)
    (hload : x.hand ≠ none → (s.place w).hand ≠ none)
    (hbusy : ∀ req, x = .busy req → ¬ s.owner.Past) : (s.goto w x).Ok := by
  have hsame : s.mark w (s.status w) = s := by
    unfold Pool.mark
    rw [Function.update_eq_self]
  have hmove := h.move hfrom hx (fun hst => hfrom ((h.dead w).mp hst))
    (fun hne => h.loaded w (hload hne)) hbusy
  rw [hsame] at hmove
  exact hmove

theorem Pool.Ok.take (h : s.Ok) (hfrom : s.place w ≠ .dead) : (s.take w).Ok := by
  unfold Pool.take
  split
  next => exact h.goto hfrom (by simp) (fun hne => absurd rfl hne) (by simp)
  next req fqm _ => exact (h.setFqm fqm).move hfrom (by simp) (by simp) (fun _ => rfl) (by simp)

theorem Pool.Ok.wokenUp {ws : Finset (Fin n)} (h : s.Ok) (hws : ∀ w ∈ ws, s.place w = .asleep) :
    Pool.Ok { s with place := wake ws .woken s.place } := by
  have hback : ∀ {u x}, x ≠ .woken → wake ws .woken s.place u = x → s.place u = x := by
    intro u x hx hu
    rcases wake_cases ws .woken s.place u with ⟨-, hnew⟩ | ⟨-, hold⟩
    · exact absurd (hu.symm.trans hnew) hx
    · exact hold.symm.trans hu
  have hkeep : ∀ {u}, s.place u = .dead → wake ws .woken s.place u = .dead := by
    intro u hu
    rw [wake_not_mem fun hmem => absurd ((hws u hmem).symm.trans hu) (by simp)]
    exact hu
  refine ⟨?_, ?_, ?_, h.flagged, fun u hu => hkeep (h.gone u hu), h.count, h.unfreed, ?_⟩
  · intro u hu
    refine h.loaded u ?_
    rcases wake_cases ws .woken s.place u with ⟨-, hnew⟩ | ⟨-, hold⟩
    · dsimp only at hu
      rw [hnew] at hu
      exact absurd rfl hu
    · dsimp only at hu
      rw [hold] at hu
      exact hu
  · intro u req hu
    exact h.handler u req (hback (by simp) hu)
  · intro u
    rw [h.dead u]
    exact ⟨hkeep, hback (by simp)⟩
  · intro i hi
    obtain ⟨hlt, hall⟩ := h.parked i hi
    exact ⟨hlt, fun u hu => hall u (hback (by simp) hu)⟩

/-- The signal of a dying thread. -/
theorem Pool.Ok.die (h : s.Ok) (hfrom : s.place w = .dying) :
    Pool.Ok { (s.mark w .noalloc).goto w .dead with owner := s.owner.signalled } := by
  have hpast : s.owner.signalled.Past ↔ s.owner.Past := by
    cases s.owner <;> rfl
  have hflag : ∀ u, s.owner.signalled.HasFlagged u ↔ s.owner.HasFlagged u := by
    intro u
    cases s.owner <;> rfl
  refine ⟨?_, ?_, ?_, fun u hu => h.flagged u ((hflag u).mp hu), ?_, ?_,
    fun hu => h.unfreed fun hp => hu (hpast.mpr hp), ?_⟩
  · intro u hu
    by_cases huw : u = w
    · subst huw
      have hself : Function.update s.place u .dead u = .dead := Function.update_self ..
      exact absurd (congrArg Popping.hand hself) hu
    · refine (Function.update_of_ne huw ..).trans (h.loaded u ?_)
      rw [← Function.update_of_ne huw .dead s.place]
      exact hu
  · intro u req hu
    have huw : u ≠ w := by
      rintro rfl
      exact absurd ((Function.update_self ..).symm.trans hu) (by simp)
    have hold : s.place u = .busy req := (Function.update_of_ne huw ..).symm.trans hu
    exact fun hp => h.handler u req hold (hpast.mp hp)
  · intro u
    by_cases huw : u = w
    · subst huw
      exact iff_of_true (Function.update_self ..) (Function.update_self ..)
    · change Function.update s.status w .noalloc u = _ ↔ Function.update s.place w .dead u = _
      rw [Function.update_of_ne huw, Function.update_of_ne huw]
      exact h.dead u
  · intro u hu
    have huw : u ≠ w := by
      rintro rfl
      exact absurd ((h.gone u hu).symm.trans hfrom) (by simp)
    exact (Function.update_of_ne huw ..).trans (h.gone u hu)
  · intro i hi
    refine h.count i ?_
    revert hi
    change s.owner.signalled = _ ∨ s.owner.signalled = _ → _
    cases s.owner <;> simp [Owner.signalled]
  · intro i hi
    change s.owner.signalled = _ at hi
    revert hi
    cases s.owner <;> simp [Owner.signalled]

/-- `fqm_thr_wait` counts what it frees. -/
theorem Pool.Ok.reap {i : Nat} (h : s.Ok) (hi : s.owner = .reaping i) :
    Pool.Ok { s with
      freed := fun w => s.freed w || decide (w ∈ s.reaped)
      owner := if i + s.reaped.card < n then .parked (i + s.reaped.card) else .done } := by
  have hall : ∀ u, s.owner.HasFlagged u := by
    rw [hi]
    exact fun _ => trivial
  have hpast : s.owner.Past := by
    rw [hi]
    trivial
  have hfreed : ∀ u, (s.freed u || decide (u ∈ s.reaped)) = true ↔
      s.freed u = true ∨ u ∈ s.reaped := by
    intro u
    rw [Bool.or_eq_true, decide_eq_true_iff]
  have hcard : i + s.reaped.card
      = (Finset.univ.filter fun w => (s.freed w || decide (w ∈ s.reaped)) = true).card := by
    rw [h.count i (Or.inl hi), ← Finset.card_union_of_disjoint]
    · refine congrArg Finset.card (Finset.ext fun u => ?_)
      rw [Finset.mem_union, Finset.mem_filter, Finset.mem_filter, hfreed u]
      simp only [Finset.mem_univ, true_and]
    · refine Finset.disjoint_left.mpr fun u hu hnew => ?_
      have hyes := (Finset.mem_filter.mp hu).2
      have hno := (Finset.mem_filter.mp hnew).2.1
      exact absurd (hyes.symm.trans hno) (by simp)
  refine ⟨h.loaded, fun u req hu => absurd hpast (h.handler u req hu), h.dead,
    fun u _ => h.flagged u (hall u), ?_, ?_, ?_, ?_⟩
  · intro u hu
    rcases (hfreed u).mp hu with hold | hnew
    · exact h.gone u hold
    · exact (h.dead u).mp (Finset.mem_filter.mp hnew).2.2
  · intro j hj
    dsimp only at hj ⊢
    rw [← hcard]
    split at hj
    next => exact (Owner.parked.inj (hj.resolve_left (by simp))).symm
    next => exact absurd hj (by simp)
  · intro hnot
    dsimp only at hnot
    split at hnot
    next => exact absurd trivial hnot
    next => exact absurd trivial hnot
  · intro j hj
    dsimp only at hj ⊢
    split at hj
    next hlt =>
      obtain rfl := Owner.parked.inj hj
      refine ⟨hlt, fun u hu => (hfreed u).mpr ?_⟩
      by_cases hold : s.freed u = true
      · exact Or.inl hold
      · refine Or.inr (Finset.mem_filter.mpr ⟨Finset.mem_univ u, ?_, (h.dead u).mpr hu⟩)
        exact Bool.eq_false_iff.mpr hold
    next => exact absurd hj (by simp)

theorem Owner.Past.hasFlagged {x : Owner} (h : x.Past) (u : Nat) : x.HasFlagged u := by
  cases x with
  | serving => exact absurd h id
  | flagging i => exact absurd h id
  | verifying => exact absurd h id
  | reaping i => trivial
  | parked i => trivial
  | done => trivial

/-- The deleting thread goes on, before the broadcast. -/
theorem Pool.Ok.setOwner {x : Owner} (h : s.Ok) (hnot : ¬ s.owner.Past) (hx : ¬ x.Past)
    (hflag : ∀ w : Fin n, x.HasFlagged w → s.dieflag w = true) :
    Pool.Ok { s with owner := x } := by
  refine ⟨h.loaded, fun _ _ _ => hx, h.dead, hflag, h.gone, ?_,
    fun _ => h.unfreed hnot, ?_⟩
  · intro i hi
    dsimp only at hi
    rcases hi with rfl | rfl
    · exact absurd trivial hx
    · exact absurd trivial hx
  · intro i hi
    dsimp only at hi
    subst hi
    exact absurd trivial hx

theorem Pool.Ok.flag {i : Nat} (h : s.Ok) (hi : s.owner = .flagging i) (hlt : i < n) :
    Pool.Ok { s with
      dieflag := Function.update s.dieflag ⟨i, hlt⟩ true, owner := .flagging (i + 1) } := by
  have hnot : ¬ s.owner.Past := by
    rw [hi]
    exact id
  have hset : Pool.Ok { s with dieflag := Function.update s.dieflag ⟨i, hlt⟩ true } := by
    refine ⟨h.loaded, h.handler, h.dead, ?_, h.gone, h.count, h.unfreed, h.parked⟩
    intro w hw
    by_cases hwi : w = ⟨i, hlt⟩
    · rw [hwi]
      exact Function.update_self ..
    · exact (Function.update_of_ne hwi ..).trans (h.flagged w hw)
  refine hset.setOwner hnot id fun w hw => ?_
  rcases Nat.lt_succ_iff_lt_or_eq.mp hw with hold | heq
  · refine hset.flagged w ?_
    rw [show s.owner.HasFlagged w ↔ w.val < i by rw [hi]; rfl]
    exact hold
  · obtain rfl : w = ⟨i, hlt⟩ := Fin.ext heq
    exact Function.update_self ..

theorem Pool.Ok.broadcast (h : s.Ok) (hnot : ¬ s.owner.Past)
    (hflag : ∀ w : Fin n, s.dieflag w = true) (hbusy : ∀ w, s.status w ≠ .busy) :
    Pool.Ok { s with owner := .reaping 0 } := by
  refine ⟨h.loaded, ?_, h.dead, fun u _ => hflag u, h.gone, ?_, fun hp => absurd trivial hp, ?_⟩
  · intro u req hu
    refine absurd (h.loaded u ?_) (hbusy u)
    rw [hu]
    exact Option.some_ne_none req
  · intro i hi
    obtain rfl := Owner.reaping.inj (hi.resolve_right (by simp))
    refine (Finset.card_eq_zero.mpr (Finset.filter_eq_empty_iff.mpr fun u _ => ?_)).symm
    rw [h.unfreed hnot u]
    exact Bool.false_ne_true
  · intro i hi
    exact absurd hi (by simp)

theorem Pool.Ok.rouse {i : Nat} (h : s.Ok) (hi : s.owner = .parked i) :
    Pool.Ok { s with owner := .reaping i } := by
  have hpast : s.owner.Past := by
    rw [hi]
    trivial
  refine ⟨h.loaded, fun u req hu => absurd hpast (h.handler u req hu), h.dead,
    fun u _ => h.flagged u (hpast.hasFlagged u), h.gone, ?_, fun hp => absurd trivial hp, ?_⟩
  · intro j hj
    obtain rfl := Owner.reaping.inj (hj.resolve_right (by simp))
    exact h.count i (Or.inr hi)
  · intro j hj
    exact absurd hj (by simp)

theorem poolStep_ok {act : PoolAct n} {o : Unit} (h : s.Ok)
    (hstep : poolStep s act = some (o, s')) : s'.Ok := by
  cases act with
  | push req ws =>
    simp only [poolStep] at hstep
    obtain ⟨hpush, hstep⟩ := Option.ite_none_right_eq_some.mp hstep
    obtain ⟨-, rfl⟩ := Prod.mk.inj (Option.some.inj hstep)
    exact (h.setFqm _).wokenUp hpush.2.1
  | pop w =>
    simp only [poolStep] at hstep
    obtain ⟨hw, hstep⟩ := Option.ite_none_right_eq_some.mp hstep
    have hidle : (s.mark w .idle).Ok := by
      have hmove : ((s.mark w .idle).goto w .ready).Ok :=
        h.move (by simp [hw]) (by simp) (by simp) (fun hne => absurd rfl hne) (by simp)
      unfold Pool.goto at hmove
      rw [show Function.update (s.mark w .idle).place w .ready = s.place by
        rw [← hw]; exact Function.update_eq_self w s.place] at hmove
      exact hmove
    have hready : (s.mark w .idle).place w = .ready := hw
    split at hstep
    next =>
      obtain ⟨-, rfl⟩ := Prod.mk.inj (Option.some.inj hstep)
      exact hidle.goto (by simp [hready]) (by simp) (fun hne => absurd rfl hne) (by simp)
    next =>
      obtain ⟨-, rfl⟩ := Prod.mk.inj (Option.some.inj hstep)
      exact hidle.take (by simp [hready])
  | wakeUp w =>
    simp only [poolStep] at hstep
    obtain ⟨hw, hstep⟩ := Option.ite_none_right_eq_some.mp hstep
    obtain ⟨-, rfl⟩ := Prod.mk.inj (Option.some.inj hstep)
    exact h.goto (by simp [hw]) (by simp) (fun hne => absurd rfl hne) (by simp)
  | resume w =>
    simp only [poolStep] at hstep
    obtain ⟨hw, hstep⟩ := Option.ite_none_right_eq_some.mp hstep
    obtain ⟨-, rfl⟩ := Prod.mk.inj (Option.some.inj hstep)
    exact h.take (by simp [hw])
  | test w =>
    simp only [poolStep] at hstep
    split at hstep
    next req hw =>
      split at hstep
      next =>
        obtain ⟨-, rfl⟩ := Prod.mk.inj (Option.some.inj hstep)
        exact h.goto (by simp [hw]) (by simp) (fun hne => absurd rfl hne) (by simp)
      next hflag =>
        have hnot : ¬ s.owner.Past := fun hp => hflag (h.flagged w (hp.hasFlagged w))
        split at hstep
        next =>
          obtain ⟨-, rfl⟩ := Prod.mk.inj (Option.some.inj hstep)
          exact h.goto (by simp [hw]) (by simp) (fun hne => absurd rfl hne) (by simp)
        next req =>
          obtain ⟨-, rfl⟩ := Prod.mk.inj (Option.some.inj hstep)
          exact h.goto (by simp [hw]) (by simp) (by simp [hw, Popping.hand]) fun _ _ => hnot
    next => exact absurd hstep (by simp)
  | finish w =>
    simp only [poolStep] at hstep
    split at hstep
    next req hw =>
      obtain ⟨-, rfl⟩ := Prod.mk.inj (Option.some.inj hstep)
      exact h.goto (by simp [hw]) (by simp) (fun hne => absurd rfl hne) (by simp)
    next => exact absurd hstep (by simp)
  | die w =>
    simp only [poolStep] at hstep
    obtain ⟨hw, hstep⟩ := Option.ite_none_right_eq_some.mp hstep
    obtain ⟨-, rfl⟩ := Prod.mk.inj (Option.some.inj hstep)
    exact h.die hw
  | delete =>
    simp only [poolStep] at hstep
    obtain ⟨hown, hstep⟩ := Option.ite_none_right_eq_some.mp hstep
    obtain ⟨-, rfl⟩ := Prod.mk.inj (Option.some.inj hstep)
    exact h.setOwner (by rw [hown]; exact id) id fun w hw => absurd hw (Nat.not_lt_zero _)
  | flag =>
    simp only [poolStep] at hstep
    split at hstep
    next i hown =>
      split at hstep
      next hlt =>
        obtain ⟨-, rfl⟩ := Prod.mk.inj (Option.some.inj hstep)
        exact h.flag hown hlt
      next hend =>
        obtain ⟨-, rfl⟩ := Prod.mk.inj (Option.some.inj hstep)
        refine h.setOwner (by rw [hown]; exact id) id fun w _ => h.flagged w ?_
        rw [hown]
        exact Nat.lt_of_lt_of_le w.isLt (Nat.not_lt.mp hend)
    next => exact absurd hstep (by simp)
  | verify =>
    simp only [poolStep] at hstep
    split at hstep
    next =>
      obtain ⟨-, rfl⟩ := Prod.mk.inj (Option.some.inj hstep)
      exact h
    next => exact absurd hstep (by simp)
  | broadcast =>
    simp only [poolStep] at hstep
    obtain ⟨hown, hstep⟩ := Option.ite_none_right_eq_some.mp hstep
    obtain ⟨-, rfl⟩ := Prod.mk.inj (Option.some.inj hstep)
    have hout := h.broadcast (by rw [hown.1]; exact id)
      (fun w => h.flagged w (by rw [hown.1]; trivial)) hown.2
    exact hout.wokenUp fun w hw => (Finset.mem_filter.mp hw).2
  | reap =>
    simp only [poolStep] at hstep
    split at hstep
    next i hown =>
      obtain ⟨-, rfl⟩ := Prod.mk.inj (Option.some.inj hstep)
      exact h.reap hown
    next => exact absurd hstep (by simp)
  | rouse =>
    simp only [poolStep] at hstep
    split at hstep
    next i hown =>
      obtain ⟨-, rfl⟩ := Prod.mk.inj (Option.some.inj hstep)
      exact h.rouse hown
    next => exact absurd hstep (by simp)

theorem poolRuns_ok {whole : Bool} {acts : List (PoolAct n)} {outs : List Unit}
    (hrun : runs poolStep (poolStart n whole) acts = some (outs, s)) : s.Ok :=
  runs_invariant (g := fun _ _ => True) (fun _ _ _ _ hI _ hstep => poolStep_ok hI hstep)
    poolStart_ok guarded_true hrun

end Steps

end Nastd.Server
