import Mathlib.Data.Sum.Basic
import Nastd.Lib.Chain
import Nastd.Lib.Ledger
import Nastd.Lib.Monitor
import Nastd.Lib.Run
import Nastd.Server.Fqm

/-!
# The fallthrough queue and its threads

`fqm_push`, `fqm_pop` and `fqm_popper` of `server/fqm.c` on the linked list itself, for
any number of pushing threads and any pool of workers. What is done under the lock of
`q_cond` is one step, and so is each stretch between two of them: the look `fqm_push`
takes at `nitems`, the `p->next = NULL` after `fqm_pop` has given the lock up. A freed
request's address may be given out again, and no `dieflag` is set.

The lists `accepted`, `returned` and `handed` are a record that no step reads: what
`fqm_push` linked, what `fqm_pop` took off (in the order of the locked stretches), and
what a handler was called with. A `Job` is a request with the number of its `req_new`,
so that two requests with one text are told apart.

* `fqm_defined`: no thread meets a dangling pointer.
* `fqm_fifo`: nothing is lost, handed out twice, or reordered, and the workers do not all
  sleep over a queue that is not empty.
* `fqmStep_queue`: the steps are those of the abstract queue of `Server.Fqm`.
-/

namespace Nastd.Server

open Nastd.Lib

/-- A request, and which `req_new` made it. -/
structure Job where
  req : Request
  serial : Nat
  deriving DecidableEq, Repr

/-- Where a worker is in `fqm_popper`. -/
inductive Popper where
  /-- About to call `fqm_pop`. -/
  | ready
  /-- In `cond_wait`. -/
  | asleep
  /-- Woken up; it does not have the lock back. -/
  | woken
  /-- It has taken the request at `a` off the list and given the lock up. -/
  | popped (a : Nat)
  /-- `fqm_pop` has returned `a`. -/
  | returned (a : Nat)
  /-- In the handler of the request at `a`. -/
  | busy (a : Nat)
  deriving DecidableEq, Repr

/-- Where a thread is that pushes. -/
inductive Pusher where
  | idle
  /-- `req_new` returned `a`. -/
  | made (a : Nat)
  /-- `fqm_push(a)` found room. -/
  | admitted (a : Nat)
  deriving DecidableEq, Repr

/-- `fqm_t` on its heap, its threads, and the record of what they did. -/
structure FqmSys (π ω : Type) where
  heap : Heap Job
  sreq : Option Nat
  ereq : Option Nat
  nitems : Int
  maxitems : Int
  pusher : π → Pusher
  worker : ω → Popper
  serial : Nat
  accepted : List Job
  returned : List Job
  handed : List Job

inductive FqmAct (π ω : Type) where
  /-- `req_new`; `malloc` finds the address `a`, with `junk` in it. -/
  | new (p : π) (a : Nat) (junk : Option Nat) (req : Request)
  /-- `fqm_push` compares `nitems` with `maxitems`. -/
  | check (p : π)
  /-- The locked part of `fqm_push`; the signal wakes `ws`. -/
  | push (p : π) (ws : Finset ω)
  /-- `fqm_pop`, until it sleeps or gives the lock up. -/
  | pop (w : ω)
  /-- A sleeper wakes up for no reason. -/
  | wakeUp (w : ω)
  /-- `fqm_pop` after `cond_wait`. -/
  | resume (w : ω)
  /-- `p->next = NULL; return p`. -/
  | unlink (w : ω)
  /-- The handler is called. -/
  | handle (w : ω)
  /-- The handler returns; `req_delete`. -/
  | finish (w : ω)

section Steps

variable {π ω : Type} [DecidableEq π] [DecidableEq ω]

def FqmSys.setPusher (s : FqmSys π ω) (p : π) (x : Pusher) : FqmSys π ω :=
  { s with pusher := Function.update s.pusher p x }

def FqmSys.setWorker (s : FqmSys π ω) (w : ω) (x : Popper) : FqmSys π ω :=
  { s with worker := Function.update s.worker w x }

/-- `fqm_pop` from `p = fqm->sreq` to its unlock; `none` for a dangling `sreq`. -/
def fqmTake (s : FqmSys π ω) (w : ω) : Option (FqmSys π ω) :=
  match s.sreq with
  | none => some (s.setWorker w .ready)
  | some a =>
    match s.heap.cell a with
    | none => none
    | some n =>
      some ({ s with
        sreq := n.next
        nitems := s.nitems - 1
        returned := s.returned ++ [n.ent] }.setWorker w (.popped a))

/-- `if (fqm->sreq == NULL) fqm->sreq = req; else fqm->ereq->next = req;` and the
assignment before it: the heap and `sreq`; `none` for a dangling `ereq`. -/
def fqmLink (s : FqmSys π ω) (a : Nat) : Option (Heap Job × Option Nat) :=
  let heap := s.heap.modify a fun n => { n with next := none }
  match s.sreq with
  | none => some (heap, some a)
  | some head =>
    match s.ereq with
    | none => none
    | some e =>
      match heap.cell e with
      | none => none
      | some _ => some (heap.modify e fun n => { n with next := some a }, some head)

/-- One step of one thread, and the return code when `fqm_push` returns. -/
def fqmStep [Fintype ω] (s : FqmSys π ω) : FqmAct π ω → Option (Option Int × FqmSys π ω)
  | .new p a junk req =>
    if s.pusher p = .idle ∧ s.heap.cell a = none then
      some (none, { s with
        heap := s.heap.put a ⟨⟨req, s.serial⟩, junk⟩
        serial := s.serial + 1 }.setPusher p (.made a))
    else none
  | .check p =>
    match s.pusher p with
    | .made a =>
      -- the caller deletes a request that is not accepted
      if s.nitems = s.maxitems then
        some (some (-1), { s with heap := s.heap.free a }.setPusher p .idle)
      else some (none, s.setPusher p (.admitted a))
    | _ => none
  | .push p ws =>
    match s.pusher p with
    | .admitted a =>
      match s.heap.cell a, fqmLink s a with
      | some n, some (heap, sreq) =>
        if SignalsTo (fun w => s.worker w = .asleep) ws then
          some (some 0, { s with
            heap := heap
            sreq := sreq
            ereq := some a
            nitems := s.nitems + 1
            worker := wake ws .woken s.worker
            accepted := s.accepted ++ [n.ent] }.setPusher p .idle)
        else none
      | _, _ => none
    | _ => none
  | .pop w =>
    match s.worker w with
    | .ready =>
      if s.sreq = none then some (none, s.setWorker w .asleep)
      else (fqmTake s w).map fun s' => (none, s')
    | _ => none
  | .wakeUp w => if s.worker w = .asleep then some (none, s.setWorker w .woken) else none
  | .resume w => if s.worker w = .woken then (fqmTake s w).map fun s' => (none, s') else none
  | .unlink w =>
    match s.worker w with
    | .popped a =>
      some (none,
        { s with heap := s.heap.modify a fun n => { n with next := none } }.setWorker w
          (.returned a))
    | _ => none
  | .handle w =>
    match s.worker w with
    | .returned a =>
      match s.heap.cell a with
      | none => none
      | some n => some (none, { s with handed := s.handed ++ [n.ent] }.setWorker w (.busy a))
    | _ => none
  | .finish w =>
    match s.worker w with
    | .busy a => some (none, { s with heap := s.heap.free a }.setWorker w .ready)
    | _ => none

/-- After `fqm_new`. -/
def fqmStart (maxitems : Int) : FqmSys π ω where
  heap := .empty
  sreq := none
  ereq := none
  nitems := 0
  maxitems := maxitems
  pusher _ := .idle
  worker _ := .ready
  serial := 0
  accepted := []
  returned := []
  handed := []

end Steps

/-! ## What the memory looks like -/

/-- The request a thread has in its hands. -/
def Pusher.hand : Pusher → Option Nat
  | .idle => none
  | .made a => some a
  | .admitted a => some a

def Popper.hand : Popper → Option Nat
  | .popped a => some a
  | .returned a => some a
  | .busy a => some a
  | _ => none

/-- The request a worker still has to hand to its handler. -/
def Popper.load : Popper → Option Nat
  | .popped a => some a
  | .returned a => some a
  | _ => none

def jobAt (h : Heap Job) (a : Nat) : Option Job := (h.cell a).map Node.ent

/-- The requests of a family of threads. -/
def jobsOf {κ : Type} (h : Heap Job) (hand : κ → Option Nat) (k : κ) : Option Job :=
  (hand k).bind (jobAt h)

variable {π ω : Type}

/-- Whose hands hold which address. -/
def FqmSys.hands (s : FqmSys π ω) : π ⊕ ω → Option Nat :=
  Sum.elim (Pusher.hand ∘ s.pusher) (Popper.hand ∘ s.worker)

/-- The list `l` is linked from `sreq`, `ereq` is its last request and `nitems` its length;
what the threads hold is apart from it and from each other; and somebody is awake to
take a request if there is one. -/
structure FqmMem (s : FqmSys π ω) (l : List (Nat × Job)) : Prop where
  seg : Seg s.heap s.sreq l none
  last : l ≠ [] → s.ereq = trail none l
  count : s.nitems = l.length
  mine : ∀ o a, s.hands o = some a → a ∉ l.map Prod.fst ∧ s.heap.cell a ≠ none
  alone : ∀ o o' a, s.hands o = some a → s.hands o' = some a → o = o'
  awake : l ≠ [] → ∃ w, s.worker w ≠ .asleep

/-- The books of the queue. -/
def FqmSys.ledger (s : FqmSys π ω) (l : List (Nat × Job)) : Ledger π ω Job where
  known j := j.serial < s.serial
  made := jobsOf s.heap (Pusher.hand ∘ s.pusher)
  linked := l.map Prod.snd
  carried := jobsOf s.heap (Popper.load ∘ s.worker)
  accepted := s.accepted
  returned := s.returned
  handed := s.handed

theorem jobAt_modify (h : Heap Job) (a : Nat) (p : Option Nat) :
    jobAt (h.modify a fun n => { n with next := p }) = jobAt h := by
  funext b
  unfold jobAt
  by_cases hb : b = a
  · subst hb
    rw [Heap.modify_cell_self, Option.map_map]
    rfl
  · rw [Heap.modify_cell_ne hb]

theorem cell_modify_ne_none {h : Heap Job} {a b : Nat} {f : Node Job → Node Job}
    (hb : h.cell b ≠ none) : (h.modify a f).cell b ≠ none := by
  by_cases hab : b = a
  · subst hab
    rw [Heap.modify_cell_self]
    exact fun hmap => hb (Option.map_eq_none_iff.mp hmap)
  · rw [Heap.modify_cell_ne hab]
    exact hb

theorem jobsOf_congr {κ : Type} {h h' : Heap Job} {hand : κ → Option Nat}
    (hkeep : ∀ k a, hand k = some a → jobAt h' a = jobAt h a) :
    jobsOf h' hand = jobsOf h hand := by
  funext k
  unfold jobsOf
  cases hk : hand k with
  | none => rfl
  | some a => exact hkeep k a hk

theorem jobsOf_update {κ : Type} [DecidableEq κ] {h h' : Heap Job} {hand : κ → Option Nat}
    {k : κ} {x : Option Nat}
    (hkeep : ∀ i a, i ≠ k → hand i = some a → jobAt h' a = jobAt h a) :
    jobsOf h' (Function.update hand k x)
      = Function.update (jobsOf h hand) k (x.bind (jobAt h')) := by
  funext i
  by_cases hi : i = k
  · subst hi
    rw [Function.update_self]
    unfold jobsOf
    rw [Function.update_self]
  · rw [Function.update_of_ne hi]
    unfold jobsOf
    rw [Function.update_of_ne hi]
    cases hk : hand i with
    | none => rfl
    | some a => exact hkeep i a hi hk

theorem hand_of_load {x : Popper} {a : Nat} (h : x.load = some a) : x.hand = some a := by
  cases x with
  | popped b => exact h
  | returned b => exact h
  | ready => exact absurd h (by simp [Popper.load])
  | asleep => exact absurd h (by simp [Popper.load])
  | woken => exact absurd h (by simp [Popper.load])
  | busy b => exact absurd h (by simp [Popper.load])

theorem jobsOf_load [DecidableEq ω] {h g : Heap Job} {f : ω → Popper} {w : ω} {x : Popper}
    (hkeep : ∀ i a, i ≠ w → (f i).hand = some a → jobAt g a = jobAt h a) :
    jobsOf g (Popper.load ∘ Function.update f w x)
      = Function.update (jobsOf h (Popper.load ∘ f)) w (x.load.bind (jobAt g)) := by
  rw [Function.comp_update]
  exact jobsOf_update fun i a hi ha => hkeep i a hi (hand_of_load ha)

/-- A worker moves and still has to hand on what it had to before. -/
theorem ledger_goto [DecidableEq ω] {s : FqmSys π ω} {l : List (Nat × Job)} {w : ω} {x : Popper}
    (hload : x.load = (s.worker w).load) : (s.setWorker w x).ledger l = s.ledger l := by
  unfold FqmSys.ledger FqmSys.setWorker
  rw [jobsOf_load (h := s.heap) fun _ _ _ _ => rfl, hload]
  have hsame : (s.worker w).load.bind (jobAt s.heap)
      = jobsOf s.heap (Popper.load ∘ s.worker) w := rfl
  rw [hsame, Function.update_eq_self]

/-- A thread gives up what it has, and the address is free again. -/
theorem free_others {s : FqmSys π ω} {l : List (Nat × Job)} {o : π ⊕ ω} {a : Nat}
    (h : FqmMem s l) (ho : s.hands o = some a) :
    Seg (s.heap.free a) s.sreq l none ∧
    ∀ o' b, o' ≠ o → s.hands o' = some b →
      (b ∉ l.map Prod.fst ∧ (s.heap.free a).cell b ≠ none) ∧
      jobAt (s.heap.free a) b = jobAt s.heap b := by
  have hout := (h.mine o a ho).1
  refine ⟨h.seg.frame fun x hx => Heap.free_cell_ne ?_, ?_⟩
  · exact fun hxa => hout (hxa ▸ List.mem_map_of_mem hx)
  · intro o' b hne hb
    have hba : b ≠ a := fun hba => hne (h.alone o' o a (hba ▸ hb) ho)
    unfold jobAt
    rw [Heap.free_cell_ne hba]
    exact ⟨h.mine o' b hb, rfl⟩

/-- `fqm_push` links the request behind the last one. -/
theorem fqmLink_chain {s : FqmSys π ω} {l : List (Nat × Job)} {a : Nat} {n : Node Job}
    (h : FqmMem s l) (hout : a ∉ l.map Prod.fst) (hcell : s.heap.cell a = some n) :
    ∃ heap sreq, fqmLink s a = some (heap, sreq) ∧ Seg heap sreq (l ++ [(a, n.ent)]) none ∧
      jobAt heap = jobAt s.heap ∧ ∀ b, s.heap.cell b ≠ none → heap.cell b ≠ none := by
  have hprivate : (s.heap.modify a fun m => { m with next := none }).cell a
      = some ⟨n.ent, none⟩ := by
    rw [Heap.modify_cell_self, hcell]
    rfl
  have hseg : Seg (s.heap.modify a fun m => { m with next := none }) s.sreq l none :=
    h.seg.frame fun x hx =>
      have hxa : x.1 ≠ a := fun hxa => hout (hxa ▸ List.mem_map_of_mem hx)
      Heap.modify_cell_ne hxa _
  unfold fqmLink
  rcases List.eq_nil_or_concat' l with rfl | ⟨pre, ⟨e, j⟩, rfl⟩
  · -- an empty queue: `ereq` is not looked at
    have hsreq : s.sreq = none := h.seg
    rw [hsreq]
    exact ⟨_, _, rfl, ⟨rfl, none, hprivate, rfl⟩, jobAt_modify _ _ _, fun b => cell_modify_ne_none⟩
  · have hlast : s.ereq = some e := by
      rw [h.last (by simp), trail_append_single]
    obtain ⟨m, hm⟩ := hseg.cell (a := e) (e := j) (by simp)
    obtain ⟨head, hhead⟩ : ∃ head, s.sreq = some head := by
      cases hs : s.sreq with
      | some head => exact ⟨head, rfl⟩
      | none =>
        have hnil := h.seg
        rw [hs] at hnil
        exact absurd (hnil.functional (seg_nil.mpr rfl)) (by simp)
    rw [hhead, hlast]
    simp only [hm]
    rw [hhead] at hseg
    refine ⟨_, _, rfl, append_chain hseg hprivate hout, ?_, ?_⟩
    · rw [jobAt_modify, jobAt_modify]
    · exact fun b hb => cell_modify_ne_none (cell_modify_ne_none hb)

theorem fqmStart_mem (maxitems : Int) : FqmMem (fqmStart (π := π) (ω := ω) maxitems) [] := by
  refine ⟨rfl, fun h => absurd rfl h, rfl, ?_, ?_, fun h => absurd rfl h⟩
  · intro o a ha
    cases o with
    | inl p => exact absurd ha (by simp [FqmSys.hands, fqmStart, Pusher.hand])
    | inr w => exact absurd ha (by simp [FqmSys.hands, fqmStart, Popper.hand])
  · intro o o' a ha
    cases o with
    | inl p => exact absurd ha (by simp [FqmSys.hands, fqmStart, Pusher.hand])
    | inr w => exact absurd ha (by simp [FqmSys.hands, fqmStart, Popper.hand])

theorem fqmStart_ledger (maxitems : Int) :
    ((fqmStart (π := π) (ω := ω) maxitems).ledger []).Ok := by
  constructor <;> simp [FqmSys.ledger, fqmStart, jobsOf, Pusher.hand, Popper.load]

section Steps

variable [DecidableEq π] [DecidableEq ω]

theorem hands_setPusher (s : FqmSys π ω) (p : π) (x : Pusher) :
    (s.setPusher p x).hands = Function.update s.hands (.inl p) x.hand := by
  unfold FqmSys.hands FqmSys.setPusher
  rw [Function.comp_update, Sum.update_elim_inl]

theorem hands_setWorker (s : FqmSys π ω) (w : ω) (x : Popper) :
    (s.setWorker w x).hands = Function.update s.hands (.inr w) x.hand := by
  unfold FqmSys.hands FqmSys.setWorker
  rw [Function.comp_update, Sum.update_elim_inr]

/-- One thread's hands change, and what is linked perhaps. -/
theorem FqmMem.move {s s' : FqmSys π ω} {l l' : List (Nat × Job)} {o : π ⊕ ω} {x : Option Nat}
    (h : FqmMem s l) (hhands : s'.hands = Function.update s.hands o x)
    (hseg : Seg s'.heap s'.sreq l' none) (hlast : l' ≠ [] → s'.ereq = trail none l')
    (hcount : s'.nitems = l'.length) (hawake : l' ≠ [] → ∃ w, s'.worker w ≠ .asleep)
    (hothers : ∀ o' a, o' ≠ o → s.hands o' = some a →
      a ∉ l'.map Prod.fst ∧ s'.heap.cell a ≠ none)
    (hself : ∀ a, x = some a → (a ∉ l'.map Prod.fst ∧ s'.heap.cell a ≠ none) ∧
      ∀ o', o' ≠ o → s.hands o' ≠ some a) : FqmMem s' l' := by
  refine ⟨hseg, hlast, hcount, ?_, ?_, hawake⟩
  · intro o' a ha
    rw [hhands] at ha
    rcases update_some_cases ha with ⟨-, hx⟩ | ⟨hne, ho⟩
    · exact (hself a hx).1
    · exact hothers o' a hne ho
  · rw [hhands]
    exact update_one_to_one h.alone fun o' a hne hx => (hself a hx).2 o' hne

/-- A worker goes from one place to another with the same request in its hands, or with
none; the queue is left alone. -/
theorem FqmMem.goto {s : FqmSys π ω} {l : List (Nat × Job)} {w : ω} {x : Popper}
    (h : FqmMem s l) (hhand : x.hand = (s.worker w).hand)
    (hawake : x ≠ .asleep ∨ l = []) : FqmMem (s.setWorker w x) l := by
  refine h.move (hands_setWorker s w x) h.seg h.last h.count ?_ ?_ ?_
  · intro hl
    rcases hawake with hx | hnil
    · refine ⟨w, ?_⟩
      show Function.update s.worker w x w ≠ .asleep
      rw [Function.update_self]
      exact hx
    · exact absurd hnil hl
  · intro o' a _ ha
    exact h.mine o' a ha
  · intro a ha
    have hw : s.hands (.inr w) = some a := hhand.symm.trans ha
    exact ⟨h.mine _ a hw, fun o' hne ho => hne (h.alone o' _ a ho hw)⟩

theorem jobsOf_hand {h g : Heap Job} {f : π → Pusher} {p : π} {x : Pusher}
    (hkeep : ∀ i a, i ≠ p → (f i).hand = some a → jobAt g a = jobAt h a) :
    jobsOf g (Pusher.hand ∘ Function.update f p x)
      = Function.update (jobsOf h (Pusher.hand ∘ f)) p (x.hand.bind (jobAt g)) := by
  rw [Function.comp_update]
  exact jobsOf_update hkeep

/-- `fqm_pop` from its test on: the front of the list goes to the worker. -/
theorem fqmTake_step {s s' : FqmSys π ω} {l : List (Nat × Job)} {w : ω} (h : FqmMem s l)
    (hhand : (s.worker w).hand = none) (htake : fqmTake s w = some s') :
    ∃ l', FqmMem s' l' ∧ (s.ledger l).Step (s'.ledger l') := by
  have hload : (s.worker w).load = none := by
    cases hl : (s.worker w).load with
    | none => rfl
    | some a => exact absurd (hhand.symm.trans (hand_of_load hl)) (by simp)
  unfold fqmTake at htake
  split at htake
  next hnil =>
    obtain rfl := Option.some.inj htake
    refine ⟨l, h.goto hhand.symm (Or.inl (by simp)), ?_⟩
    have hL : (s.setWorker w .ready).ledger l = s.ledger l := by
      unfold FqmSys.ledger FqmSys.setWorker
      rw [jobsOf_load (h := s.heap) fun _ _ _ _ => rfl]
      have hnone : jobsOf s.heap (Popper.load ∘ s.worker) w = none := by
        simp [jobsOf, hload]
      rw [show (Popper.ready.load.bind (jobAt s.heap)) = none from rfl, ← hnone,
        Function.update_eq_self]
    rw [hL]
    exact .stay _
  next a hsreq =>
    split at htake
    next => exact absurd htake (by simp)
    next n hcell =>
      obtain rfl := Option.some.inj htake
      obtain ⟨⟨b, j⟩, rest, rfl⟩ : ∃ x rest, l = x :: rest := by
        cases l with
        | nil => exact absurd (hsreq.symm.trans h.seg) (by simp)
        | cons x rest => exact ⟨x, rest, rfl⟩
      obtain ⟨hb, nx, hcell', hrest⟩ := h.seg
      obtain rfl : a = b := Option.some.inj (hsreq.symm.trans hb)
      obtain rfl : n = ⟨j, nx⟩ := Option.some.inj (hcell.symm.trans hcell')
      have hnodup := h.seg.nodup
      rw [List.map_cons, List.nodup_cons] at hnodup
      refine ⟨rest, h.move (hands_setWorker _ w _) hrest ?_ ?_ ?_ ?_ ?_, ?_⟩
      · intro hne
        have hlast := h.last (List.cons_ne_nil _ _)
        rw [trail_cons] at hlast
        obtain ⟨y, rest', rfl⟩ := List.exists_cons_of_ne_nil hne
        rw [trail_cons] at hlast ⊢
        exact hlast
      · have hcount := h.count
        rw [List.length_cons] at hcount
        show s.nitems - 1 = _
        omega
      · intro _
        refine ⟨w, ?_⟩
        show Function.update s.worker w (.popped a) w ≠ .asleep
        rw [Function.update_self]
        simp
      · intro o' c _ hc
        obtain ⟨hnot, hlive⟩ := h.mine o' c hc
        exact ⟨fun hmem => hnot (List.mem_cons_of_mem _ hmem), hlive⟩
      · intro c hc
        obtain rfl : a = c := Option.some.inj hc
        refine ⟨⟨hnodup.1, ?_⟩, ?_⟩
        · show s.heap.cell a ≠ none
          rw [hcell]
          simp
        · intro o' _ ho
          exact (h.mine o' a ho).1 List.mem_cons_self
      · have hfree : (s.ledger ((a, j) :: rest)).carried w = none := by
          simp [FqmSys.ledger, jobsOf, hload]
        have hstep := Ledger.Step.take (s.ledger ((a, j) :: rest)) w j (rest.map Prod.snd) rfl hfree
        have hjob : (Popper.popped a).load.bind (jobAt s.heap) = some j := by
          simp [Popper.load, jobAt, hcell]
        rw [← hjob] at hstep
        have hcarried := jobsOf_load (h := s.heap) (g := s.heap) (f := s.worker) (w := w)
          (x := .popped a) fun _ _ _ _ => rfl
        unfold FqmSys.ledger at hstep ⊢
        simp only [FqmSys.setWorker]
        rw [hcarried]
        exact hstep

/-- `req_new` puts a request where nobody has one. -/
theorem new_step {s : FqmSys π ω} {l : List (Nat × Job)} {p : π} {a : Nat} {junk : Option Nat}
    {req : Request} (h : FqmMem s l) (ha : s.heap.cell a = none) :
    ∃ l', FqmMem ({ s with
        heap := s.heap.put a ⟨⟨req, s.serial⟩, junk⟩
        serial := s.serial + 1 }.setPusher p (.made a)) l' ∧
      (s.ledger l).Step (({ s with
        heap := s.heap.put a ⟨⟨req, s.serial⟩, junk⟩
        serial := s.serial + 1 }.setPusher p (.made a)).ledger l') := by
  have hout : a ∉ l.map Prod.fst := by
    intro hmem
    obtain ⟨⟨b, j⟩, hb, rfl⟩ := List.mem_map.mp hmem
    obtain ⟨n, hn⟩ := h.seg.cell hb
    exact absurd (ha.symm.trans hn) (by simp)
  have hfree : ∀ o, s.hands o ≠ some a := fun o ho => (h.mine o a ho).2 ha
  have hne : ∀ o b, s.hands o = some b → b ≠ a := fun o b hb hba => hfree o (hba ▸ hb)
  refine ⟨l, h.move (hands_setPusher _ p _) ?_ h.last h.count h.awake ?_ ?_, ?_⟩
  · refine h.seg.frame fun x hx => Heap.put_cell_ne ?_ _
    exact fun hxa => hout (hxa ▸ List.mem_map_of_mem hx)
  · intro o' b _ hb
    refine ⟨(h.mine o' b hb).1, ?_⟩
    show (s.heap.put a _).cell b ≠ none
    rw [Heap.put_cell_ne (hne o' b hb)]
    exact (h.mine o' b hb).2
  · intro b hb
    obtain rfl : a = b := Option.some.inj hb
    refine ⟨⟨hout, ?_⟩, fun o' _ => hfree o'⟩
    show (s.heap.put a _).cell a ≠ none
    rw [Heap.put_cell_self]
    simp
  · have hkeep : ∀ b, b ≠ a → jobAt (s.heap.put a ⟨⟨req, s.serial⟩, junk⟩) b = jobAt s.heap b := by
      intro b hba
      unfold jobAt
      rw [Heap.put_cell_ne hba]
    have hmade := jobsOf_hand (h := s.heap) (f := s.pusher) (p := p) (x := .made a)
      fun i b _ hb => hkeep b (hne (.inl i) b hb)
    have hcarried : jobsOf (s.heap.put a ⟨⟨req, s.serial⟩, junk⟩) (Popper.load ∘ s.worker)
        = jobsOf s.heap (Popper.load ∘ s.worker) :=
      jobsOf_congr fun i b hb => hkeep b (hne (.inr i) b (hand_of_load hb))
    have hjob : (Pusher.made a).hand.bind (jobAt (s.heap.put a ⟨⟨req, s.serial⟩, junk⟩))
        = some ⟨req, s.serial⟩ := by
      simp [Pusher.hand, jobAt]
    have hstep := Ledger.Step.make (s.ledger l) p ⟨req, s.serial⟩
      (fun j => j.serial < s.serial + 1) (Nat.lt_irrefl _) (fun _ => Nat.lt_succ_of_lt)
      (Nat.lt_succ_self _)
    rw [← hjob] at hstep
    unfold FqmSys.ledger at hstep ⊢
    simp only [FqmSys.setPusher]
    rw [hmade, hcarried]
    exact hstep

/-- A request that is not accepted is deleted. -/
theorem refuse_step {s : FqmSys π ω} {l : List (Nat × Job)} {p : π} {a : Nat} (h : FqmMem s l)
    (hp : s.pusher p = .made a) :
    ∃ l', FqmMem ({ s with heap := s.heap.free a }.setPusher p .idle) l' ∧
      (s.ledger l).Step (({ s with heap := s.heap.free a }.setPusher p .idle).ledger l') := by
  have ho : s.hands (.inl p) = some a := by
    show (s.pusher p).hand = some a
    rw [hp]
    rfl
  obtain ⟨hseg, hothers⟩ := free_others h ho
  refine ⟨l, h.move (hands_setPusher _ p _) hseg h.last h.count h.awake ?_ ?_, ?_⟩
  · exact fun o' b hne hb => (hothers o' b hne hb).1
  · exact fun b hb => absurd hb (by simp [Pusher.hand])
  · have hmade := jobsOf_hand (h := s.heap) (g := s.heap.free a) (f := s.pusher) (p := p)
      (x := .idle) fun i b hi hb => (hothers (.inl i) b (by simpa using hi) hb).2
    have hcarried : jobsOf (s.heap.free a) (Popper.load ∘ s.worker)
        = jobsOf s.heap (Popper.load ∘ s.worker) :=
      jobsOf_congr fun i b hb => (hothers (.inr i) b (by simp) (hand_of_load hb)).2
    have hstep := Ledger.Step.drop (s.ledger l) p
    unfold FqmSys.ledger at hstep ⊢
    simp only [FqmSys.setPusher]
    rw [hmade, hcarried]
    exact hstep

theorem admit_step {s : FqmSys π ω} {l : List (Nat × Job)} {p : π} {a : Nat} (h : FqmMem s l)
    (hp : s.pusher p = .made a) :
    ∃ l', FqmMem (s.setPusher p (.admitted a)) l' ∧
      (s.ledger l).Step ((s.setPusher p (.admitted a)).ledger l') := by
  have ho : s.hands (.inl p) = some a := by
    show (s.pusher p).hand = some a
    rw [hp]
    rfl
  refine ⟨l, h.move (hands_setPusher s p _) h.seg h.last h.count h.awake ?_ ?_, ?_⟩
  · exact fun o' b _ hb => h.mine o' b hb
  · intro b hb
    obtain rfl : a = b := Option.some.inj hb
    exact ⟨h.mine _ a ho, fun o' hne ho' => hne (h.alone o' _ a ho' ho)⟩
  · have hL : (s.setPusher p (.admitted a)).ledger l = s.ledger l := by
      have hsame : (Pusher.admitted a).hand.bind (jobAt s.heap)
          = jobsOf s.heap (Pusher.hand ∘ s.pusher) p := by
        simp [jobsOf, hp, Pusher.hand]
      unfold FqmSys.ledger FqmSys.setPusher
      rw [jobsOf_hand (h := s.heap) fun _ _ _ _ => rfl, hsame, Function.update_eq_self]
    rw [hL]
    exact .stay _

/-- The handler has returned, and the worker deletes the request. -/
theorem finish_step {s : FqmSys π ω} {l : List (Nat × Job)} {w : ω} {a : Nat} (h : FqmMem s l)
    (hw : s.worker w = .busy a) :
    ∃ l', FqmMem ({ s with heap := s.heap.free a }.setWorker w .ready) l' ∧
      (s.ledger l).Step (({ s with heap := s.heap.free a }.setWorker w .ready).ledger l') := by
  have ho : s.hands (.inr w) = some a := by
    show (s.worker w).hand = some a
    rw [hw]
    rfl
  obtain ⟨hseg, hothers⟩ := free_others h ho
  refine ⟨l, h.move (hands_setWorker _ w _) hseg h.last h.count ?_ ?_ ?_, ?_⟩
  · intro _
    refine ⟨w, ?_⟩
    show Function.update s.worker w .ready w ≠ .asleep
    rw [Function.update_self]
    simp
  · exact fun o' b hne hb => (hothers o' b hne hb).1
  · exact fun b hb => absurd hb (by simp [Popper.hand])
  · have hL : ({ s with heap := s.heap.free a }.setWorker w .ready).ledger l = s.ledger l := by
      have hmade : jobsOf (s.heap.free a) (Pusher.hand ∘ s.pusher)
          = jobsOf s.heap (Pusher.hand ∘ s.pusher) :=
        jobsOf_congr fun i b hb => (hothers (.inl i) b (by simp) hb).2
      have hnone : Popper.ready.load.bind (jobAt (s.heap.free a))
          = jobsOf s.heap (Popper.load ∘ s.worker) w := by
        simp [jobsOf, hw, Popper.load]
      unfold FqmSys.ledger FqmSys.setWorker
      rw [jobsOf_load (h := s.heap) fun i b hi hb =>
        (hothers (.inr i) b (by simpa using hi) hb).2, hmade, hnone, Function.update_eq_self]
    rw [hL]
    exact .stay _

/-- `p->next = NULL`: the request is on no list any more. -/
theorem unlink_step {s : FqmSys π ω} {l : List (Nat × Job)} {w : ω} {a : Nat} (h : FqmMem s l)
    (hw : s.worker w = .popped a) :
    ∃ l', FqmMem ({ s with heap := s.heap.modify a fun n => { n with next := none } }.setWorker w
        (.returned a)) l' ∧
      (s.ledger l).Step (({ s with
        heap := s.heap.modify a fun n => { n with next := none } }.setWorker w
          (.returned a)).ledger l') := by
  have ho : s.hands (.inr w) = some a := by
    show (s.worker w).hand = some a
    rw [hw]
    rfl
  have hout := (h.mine _ a ho).1
  refine ⟨l, h.move (hands_setWorker _ w _) ?_ h.last h.count ?_ ?_ ?_, ?_⟩
  · refine h.seg.frame fun x hx => Heap.modify_cell_ne ?_ _
    exact fun hxa => hout (hxa ▸ List.mem_map_of_mem hx)
  · intro _
    refine ⟨w, ?_⟩
    show Function.update s.worker w (.returned a) w ≠ .asleep
    rw [Function.update_self]
    simp
  · exact fun o' b _ hb => ⟨(h.mine o' b hb).1, cell_modify_ne_none (h.mine o' b hb).2⟩
  · intro b hb
    obtain rfl : a = b := Option.some.inj hb
    exact ⟨⟨hout, cell_modify_ne_none (h.mine _ a ho).2⟩,
      fun o' hne ho' => hne (h.alone o' _ a ho' ho)⟩
  · have hL : ({ s with
        heap := s.heap.modify a fun n => { n with next := none } }.setWorker w
          (.returned a)).ledger l = s.ledger l := by
      rw [ledger_goto (by rw [hw]; rfl)]
      unfold FqmSys.ledger jobsOf
      rw [jobAt_modify]
    rw [hL]
    exact .stay _

theorem handle_step {s : FqmSys π ω} {l : List (Nat × Job)} {w : ω} {a : Nat} {n : Node Job}
    (h : FqmMem s l) (hw : s.worker w = .returned a) (hcell : s.heap.cell a = some n) :
    ∃ l', FqmMem ({ s with handed := s.handed ++ [n.ent] }.setWorker w (.busy a)) l' ∧
      (s.ledger l).Step
        (({ s with handed := s.handed ++ [n.ent] }.setWorker w (.busy a)).ledger l') := by
  have hmem : FqmMem { s with handed := s.handed ++ [n.ent] } l :=
    ⟨h.seg, h.last, h.count, h.mine, h.alone, h.awake⟩
  refine ⟨l, hmem.goto (by rw [hw]; rfl) (Or.inl (by simp)), ?_⟩
  have hcarried : (s.ledger l).carried w = some n.ent := by
    simp [FqmSys.ledger, jobsOf, hw, Popper.load, jobAt, hcell]
  have hload := jobsOf_load (h := s.heap) (g := s.heap) (f := s.worker) (w := w) (x := .busy a)
    fun _ _ _ _ => rfl
  have hstep := Ledger.Step.hand (s.ledger l) w n.ent hcarried
  unfold FqmSys.ledger at hstep ⊢
  simp only [FqmSys.setWorker]
  rw [hload]
  exact hstep

/-- The request is linked, and the signal wakes a worker if all sleep. -/
theorem push_step [Nonempty ω] {s : FqmSys π ω} {l : List (Nat × Job)} {p : π} {a : Nat}
    {n : Node Job} {ws : Finset ω} {heap : Heap Job} {sreq : Option Nat} (h : FqmMem s l)
    (hp : s.pusher p = .admitted a) (hcell : s.heap.cell a = some n)
    (hlink : fqmLink s a = some (heap, sreq))
    (hws : SignalsTo (fun w => s.worker w = .asleep) ws) :
    ∃ l', FqmMem ({ s with
        heap := heap
        sreq := sreq
        ereq := some a
        nitems := s.nitems + 1
        worker := wake ws .woken s.worker
        accepted := s.accepted ++ [n.ent] }.setPusher p .idle) l' ∧
      (s.ledger l).Step (({ s with
        heap := heap
        sreq := sreq
        ereq := some a
        nitems := s.nitems + 1
        worker := wake ws .woken s.worker
        accepted := s.accepted ++ [n.ent] }.setPusher p .idle).ledger l') := by
  have ho : s.hands (.inl p) = some a := by
    show (s.pusher p).hand = some a
    rw [hp]
    rfl
  have hout := (h.mine _ a ho).1
  obtain ⟨heap', sreq', hlink', hseg, hjobs, hlive⟩ := fqmLink_chain h hout hcell
  obtain ⟨rfl, rfl⟩ := Prod.mk.inj (Option.some.inj (hlink.symm.trans hlink'))
  have hawake : ∃ w, wake ws .woken s.worker w ≠ .asleep := by
    by_cases hempty : ws = ∅
    · subst hempty
      exact ⟨Classical.arbitrary ω, hws.2 rfl _⟩
    · obtain ⟨w, hw⟩ := Finset.nonempty_iff_ne_empty.mpr hempty
      refine ⟨w, ?_⟩
      rw [wake_mem hw]
      simp
  have hsame : ∀ {β : Type} (f : Popper → β), f .woken = f .asleep →
      f ∘ wake ws .woken s.worker = f ∘ s.worker := by
    intro β f hf
    funext w
    rcases wake_cases ws .woken s.worker w with ⟨hmem, hw⟩ | ⟨-, hw⟩
    · show f _ = f _
      rw [hw, hws.1 w hmem, hf]
    · show f _ = f _
      rw [hw]
  refine ⟨l ++ [(a, n.ent)], h.move (o := .inl p) (x := none) ?_ hseg ?_ ?_ (fun _ => hawake)
    ?_ ?_, ?_⟩
  · rw [hands_setPusher]
    unfold FqmSys.hands
    rw [hsame Popper.hand rfl]
    rfl
  · intro _
    rw [trail_append_single]
    rfl
  · have hcount := h.count
    rw [List.length_append, List.length_singleton]
    show s.nitems + 1 = _
    omega
  · intro o' b hne hb
    obtain ⟨hnot, hcellb⟩ := h.mine o' b hb
    refine ⟨?_, hlive b hcellb⟩
    rw [List.map_append, List.mem_append]
    rintro (hmem | hmem)
    · exact hnot hmem
    · obtain rfl : b = a := by simpa using hmem
      exact hne (h.alone o' _ b hb ho)
  · exact fun b hb => absurd hb (by simp)
  · have hmadep : (s.ledger l).made p = some n.ent := by
      simp [FqmSys.ledger, jobsOf, hp, Pusher.hand, jobAt, hcell]
    have hmade := jobsOf_hand (h := s.heap) (g := heap) (f := s.pusher) (p := p) (x := .idle)
      fun _ b _ _ => congrFun hjobs b
    have hcarried : jobsOf heap (Popper.load ∘ s.worker) = jobsOf s.heap (Popper.load ∘ s.worker) :=
      jobsOf_congr fun _ b _ => congrFun hjobs b
    have hstep := Ledger.Step.accept (s.ledger l) p n.ent hmadep
    unfold FqmSys.ledger at hstep ⊢
    simp only [FqmSys.setPusher]
    rw [hmade, hsame Popper.load rfl, hcarried, List.map_append]
    exact hstep

variable [Fintype ω]

/-- Every step keeps the memory in shape and is an entry in the books. -/
theorem fqmStep_ledger [Nonempty ω] {s s' : FqmSys π ω} {l : List (Nat × Job)} {act : FqmAct π ω}
    {rc : Option Int} (h : FqmMem s l) (hstep : fqmStep s act = some (rc, s')) :
    ∃ l', FqmMem s' l' ∧ (s.ledger l).Step (s'.ledger l') := by
  cases act with
  | new p a junk req =>
    simp only [fqmStep] at hstep
    split at hstep
    next ha =>
      obtain ⟨-, rfl⟩ := Prod.mk.inj (Option.some.inj hstep)
      exact new_step h ha.2
    next => exact absurd hstep (by simp)
  | check p =>
    simp only [fqmStep] at hstep
    split at hstep
    next a hp =>
      split at hstep
      next =>
        obtain ⟨-, rfl⟩ := Prod.mk.inj (Option.some.inj hstep)
        exact refuse_step h hp
      next =>
        obtain ⟨-, rfl⟩ := Prod.mk.inj (Option.some.inj hstep)
        exact admit_step h hp
    next => exact absurd hstep (by simp)
  | push p ws =>
    simp only [fqmStep] at hstep
    split at hstep
    next a hp =>
      split at hstep
      next n heap sreq hcell hlink =>
        split at hstep
        next hws =>
          obtain ⟨-, rfl⟩ := Prod.mk.inj (Option.some.inj hstep)
          exact push_step h hp hcell hlink hws
        next => exact absurd hstep (by simp)
      next => exact absurd hstep (by simp)
    next => exact absurd hstep (by simp)
  | pop w =>
    simp only [fqmStep] at hstep
    split at hstep
    next hw =>
      split at hstep
      next hnil =>
        obtain ⟨-, rfl⟩ := Prod.mk.inj (Option.some.inj hstep)
        have hl : l = [] := by
          have hseg := h.seg
          rw [hnil] at hseg
          exact hseg.functional rfl
        refine ⟨l, h.goto (by rw [hw]; rfl) (Or.inr hl), ?_⟩
        rw [ledger_goto (by rw [hw]; rfl)]
        exact .stay _
      next =>
        obtain ⟨s'', htake, heq⟩ := Option.map_eq_some_iff.mp hstep
        obtain ⟨-, rfl⟩ := Prod.mk.inj heq
        exact fqmTake_step h (by rw [hw]; rfl) htake
    next => exact absurd hstep (by simp)
  | wakeUp w =>
    simp only [fqmStep] at hstep
    split at hstep
    next hw =>
      obtain ⟨-, rfl⟩ := Prod.mk.inj (Option.some.inj hstep)
      refine ⟨l, h.goto (by rw [hw]; rfl) (Or.inl (by simp)), ?_⟩
      rw [ledger_goto (by rw [hw]; rfl)]
      exact .stay _
    next => exact absurd hstep (by simp)
  | resume w =>
    simp only [fqmStep] at hstep
    split at hstep
    next hw =>
      obtain ⟨s'', htake, heq⟩ := Option.map_eq_some_iff.mp hstep
      obtain ⟨-, rfl⟩ := Prod.mk.inj heq
      exact fqmTake_step h (by rw [hw]; rfl) htake
    next => exact absurd hstep (by simp)
  | unlink w =>
    simp only [fqmStep] at hstep
    split at hstep
    next a hw =>
      obtain ⟨-, rfl⟩ := Prod.mk.inj (Option.some.inj hstep)
      exact unlink_step h hw
    next => exact absurd hstep (by simp)
  | handle w =>
    simp only [fqmStep] at hstep
    split at hstep
    next a hw =>
      split at hstep
      next => exact absurd hstep (by simp)
      next n hcell =>
        obtain ⟨-, rfl⟩ := Prod.mk.inj (Option.some.inj hstep)
        exact handle_step h hw hcell
    next => exact absurd hstep (by simp)
  | finish w =>
    simp only [fqmStep] at hstep
    split at hstep
    next a hw =>
      obtain ⟨-, rfl⟩ := Prod.mk.inj (Option.some.inj hstep)
      exact finish_step h hw
    next => exact absurd hstep (by simp)

/-! ## The queue over every run -/

/-- Memory and books over a run. -/
theorem fqmRuns_ledger [Nonempty ω] {maxitems : Int} {acts : List (FqmAct π ω)}
    {rcs : List (Option Int)} {s : FqmSys π ω}
    (hrun : runs fqmStep (fqmStart maxitems) acts = some (rcs, s)) :
    ∃ l, FqmMem s l ∧ (s.ledger l).Ok := by
  refine runs_invariant (g := fun _ _ => True) (I := fun s => ∃ l, FqmMem s l ∧ (s.ledger l).Ok)
    ?_ ⟨[], fqmStart_mem maxitems, fqmStart_ledger maxitems⟩ guarded_true hrun
  intro s act rc s' ⟨l, hmem, hok⟩ _ hstep
  obtain ⟨l', hmem', hledger⟩ := fqmStep_ledger hmem hstep
  exact ⟨l', hmem', hok.step hledger⟩

/-- In every reachable state no thread is about to follow a dangling pointer: the steps
that the pointers could forbid are possible. -/
theorem fqm_defined [Nonempty ω] {maxitems : Int} {acts : List (FqmAct π ω)}
    {rcs : List (Option Int)} {s : FqmSys π ω}
    (hrun : runs fqmStep (fqmStart maxitems) acts = some (rcs, s)) :
    (∀ w, (fqmTake s w).isSome) ∧
    (∀ p a, s.pusher p = .admitted a → (s.heap.cell a).isSome ∧ (fqmLink s a).isSome) ∧
    (∀ w a, s.worker w = .returned a → (s.heap.cell a).isSome) := by
  obtain ⟨l, h, -⟩ := fqmRuns_ledger hrun
  refine ⟨?_, ?_, ?_⟩
  · intro w
    unfold fqmTake
    cases hsreq : s.sreq with
    | none => rfl
    | some a =>
      have hseg := h.seg
      rw [hsreq] at hseg
      cases l with
      | nil => exact absurd hseg (by simp)
      | cons x rest =>
        obtain ⟨ha, n, hn, -⟩ := hseg
        obtain rfl := Option.some.inj ha
        simp [hn]
  · intro p a hp
    obtain ⟨hout, hlive⟩ := h.mine (.inl p) a (congrArg Pusher.hand hp)
    obtain ⟨n, hn⟩ := Option.ne_none_iff_exists'.mp hlive
    obtain ⟨heap, sreq, hlink, -⟩ := fqmLink_chain h hout hn
    rw [hn, hlink]
    exact ⟨rfl, rfl⟩
  · intro w a hw
    exact Option.isSome_iff_ne_none.mpr (h.mine (.inr w) a (congrArg Popper.hand hw)).2

/-- In every reachable state: what `fqm_pop` returned is the front of what `fqm_push`
accepted, and the rest is linked from `sreq`; no request is handed out twice, and one
that was returned and has not been handed out is on the way to its handler in one
worker; `nitems` and `ereq` belong to the list; and the workers do not all sleep over a
list that is not empty. -/
theorem fqm_fifo [Nonempty ω] {maxitems : Int} {acts : List (FqmAct π ω)}
    {rcs : List (Option Int)} {s : FqmSys π ω}
    (hrun : runs fqmStep (fqmStart maxitems) acts = some (rcs, s)) :
    s.returned <+: s.accepted ∧ ∃ l, Seg s.heap s.sreq l none ∧
      s.accepted = s.returned ++ l.map Prod.snd ∧ s.accepted.Nodup ∧
      s.handed.Nodup ∧ (∀ j ∈ s.handed, j ∈ s.returned) ∧
      (∀ j ∈ s.returned, j ∉ s.handed →
        ∃! w, ∃ a, (s.worker w).load = some a ∧ jobAt s.heap a = some j) ∧
      s.nitems = l.length ∧ (l ≠ [] → s.ereq = l.getLast?.map Prod.fst) ∧
      (l ≠ [] → ∃ w, s.worker w ≠ .asleep) := by
  obtain ⟨l, h, hok⟩ := fqmRuns_ledger hrun
  have horder : s.accepted = s.returned ++ l.map Prod.snd := hok.order
  have hcarried : ∀ w j, (s.ledger l).carried w = some j ↔
      ∃ a, (s.worker w).load = some a ∧ jobAt s.heap a = some j :=
    fun w j => Option.bind_eq_some_iff
  refine ⟨⟨_, horder.symm⟩, l, h.seg, horder, hok.nodup, hok.once, hok.handed, ?_, h.count, ?_,
    h.awake⟩
  · intro j hj hnot
    obtain ⟨w, hw⟩ := (hok.covered j hj).resolve_left hnot
    refine ⟨w, (hcarried w j).mp hw, fun w' hw' => ?_⟩
    exact hok.carrier w' w j ((hcarried w' j).mpr hw') hw
  · intro hne
    rw [h.last hne]
    obtain ⟨x, hx⟩ := Option.isSome_iff_exists.mp (List.getLast?_isSome.mpr hne)
    simp [trail, hx]

/-- A worker sleeps, is woken for a request, and takes it; a second request is waiting. -/
theorem fqm_fifo_two : ∃ rcs s,
    runs fqmStep (fqmStart (π := Unit) (ω := Fin 1) 10)
      [.pop 0, .new () 0 none ⟨[65], 7, 1⟩, .check (), .push () {0}, .resume 0, .unlink 0,
        .new () 1 none ⟨[66], 7, 2⟩, .check (), .push () ∅] = some (rcs, s) ∧
    s.accepted = [⟨⟨[65], 7, 1⟩, 0⟩, ⟨⟨[66], 7, 2⟩, 1⟩] ∧ s.returned <+: s.accepted := by
  have hbooks : (runs fqmStep (fqmStart (π := Unit) (ω := Fin 1) 10)
      [.pop 0, .new () 0 none ⟨[65], 7, 1⟩, .check (), .push () {0}, .resume 0, .unlink 0,
        .new () 1 none ⟨[66], 7, 2⟩, .check (), .push () ∅]).map (fun r => r.2.accepted)
      = some [⟨⟨[65], 7, 1⟩, 0⟩, ⟨⟨[66], 7, 2⟩, 1⟩] := by
    decide
  obtain ⟨⟨rcs, s⟩, hrun, hs⟩ := Option.map_eq_some_iff.mp hbooks
  exact ⟨rcs, s, hrun, hs, (fqm_fifo hrun).1⟩

/-! ## The abstract queue -/

/-- The queue that is linked, as an `fqm_t` with room for `maxitems`. -/
def fqmOf (maxitems : Int) (l : List (Nat × Job)) : Fqm :=
  ⟨l.map fun x => x.2.req, l.length, maxitems⟩

/-- A step leaves the abstract queue alone, or is a push to it or a pop of it. -/
theorem fqmStep_queue [Nonempty ω] {s s' : FqmSys π ω} {l : List (Nat × Job)} {act : FqmAct π ω}
    {rc : Option Int} (h : FqmMem s l) (hstep : fqmStep s act = some (rc, s')) :
    ∃ l', FqmMem s' l' ∧ ∀ maxitems : Int, maxitems ≠ l.length →
      fqmOf maxitems l' = fqmOf maxitems l ∨
      (∃ req, fqmPush (fqmOf maxitems l) req = (0, fqmOf maxitems l')) ∨
      ∃ req, fqmPop (fqmOf maxitems l) = some (req, fqmOf maxitems l') := by
  obtain ⟨l', h', hledger⟩ := fqmStep_ledger h hstep
  refine ⟨l', h', fun maxitems hroom => ?_⟩
  have hreqs : ∀ x : List (Nat × Job),
      fqmOf maxitems x = ⟨(x.map Prod.snd).map Job.req, (x.map Prod.snd).length, maxitems⟩ := by
    intro x
    simp [fqmOf]
  have hcases : l'.map Prod.snd = l.map Prod.snd ∨
      (∃ j, l'.map Prod.snd = l.map Prod.snd ++ [j]) ∨
      ∃ j, l.map Prod.snd = j :: l'.map Prod.snd := by
    generalize hL : s.ledger l = L at hledger
    generalize hL' : s'.ledger l' = L' at hledger
    have hlinked : l.map Prod.snd = L.linked := congrArg Ledger.linked hL
    have hlinked' : l'.map Prod.snd = L'.linked := congrArg Ledger.linked hL'
    rw [hlinked, hlinked']
    cases hledger with
    | stay => exact Or.inl rfl
    | make => exact Or.inl rfl
    | drop => exact Or.inl rfl
    | accept p j => exact Or.inr (Or.inl ⟨j, rfl⟩)
    | take w j rest hfront => exact Or.inr (Or.inr ⟨j, hfront⟩)
    | hand => exact Or.inl rfl
  rw [hreqs l, hreqs l']
  rcases hcases with heq | ⟨j, heq⟩ | ⟨j, heq⟩
  · rw [heq]
    exact Or.inl rfl
  · refine Or.inr (Or.inl ⟨j.req, ?_⟩)
    have hne : ¬ ((l.map Prod.snd).length : Int) = maxitems := by
      rw [List.length_map]
      exact fun he => hroom he.symm
    rw [heq]
    unfold fqmPush
    rw [if_neg hne]
    simp
  · refine Or.inr (Or.inr ⟨j.req, ?_⟩)
    rw [heq]
    simp [fqmPop]

end Steps

end Nastd.Server
