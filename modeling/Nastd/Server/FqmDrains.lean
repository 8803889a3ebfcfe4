import Nastd.Server.FqmThreads

/-!
# The fallthrough queue comes to rest

What `Server.FqmThreads` says that the queue never does is half of it. The other half:
the workers get on with what there is, one wake-up for each request being enough, and what
was allocated for a request is freed.

* `NoLeak`, `fqmStep_noLeak`: every request that is allocated is linked or in somebody's
  hands.
* `fqm_progress`: while there is work some worker can do a part of it by itself.
* `fqm_drains`: so the queue can always be worked off, in as many steps as there is `work`,
  and then only what the pushing threads have not let go of is still allocated.
-/

namespace Nastd.Server

open Nastd.Lib

variable {π ω : Type}

/-- A worker's own step. -/
def FqmAct.isWorkers : FqmAct π ω → Bool
  | .pop _ => true
  | .resume _ => true
  | .unlink _ => true
  | .handle _ => true
  | .finish _ => true
  | _ => false

/-- The steps a worker has to go with the request it holds. -/
def Popper.rank : Popper → Nat
  | .popped _ => 3
  | .returned _ => 2
  | .busy _ => 1
  | _ => 0

/-- Four steps for each request that is linked, and what the workers have begun. -/
def FqmSys.work [Fintype ω] (s : FqmSys π ω) : Nat :=
  4 * s.nitems.toNat + total Popper.rank s.worker

/-- The request at this address is linked, or some thread has it. -/
def FqmSys.Owned (s : FqmSys π ω) (a : Nat) : Prop :=
  (∃ l, Seg s.heap s.sreq l none ∧ a ∈ l.map Prod.fst) ∨ ∃ o, s.hands o = some a

/-- Nothing is allocated that nobody can free any more. -/
def NoLeak (s : FqmSys π ω) : Prop := ∀ a, s.heap.cell a ≠ none → s.Owned a

theorem rank_eq_zero {x : Popper} : x.rank = 0 ↔ x.hand = none := by
  cases x with
  | ready => exact iff_of_true rfl rfl
  | asleep => exact iff_of_true rfl rfl
  | woken => exact iff_of_true rfl rfl
  | popped a => exact iff_of_false (by simp [Popper.rank]) (by simp [Popper.hand])
  | returned a => exact iff_of_false (by simp [Popper.rank]) (by simp [Popper.hand])
  | busy a => exact iff_of_false (by simp [Popper.rank]) (by simp [Popper.hand])

section Leaks

variable [DecidableEq π] [DecidableEq ω] {s s' : FqmSys π ω} {l l' : List (Nat × Job)}

theorem free_cell_live {h : Heap Job} {a b : Nat} (hb : (h.free a).cell b ≠ none) :
    b ≠ a ∧ h.cell b ≠ none := by
  have hne : b ≠ a := by
    rintro rfl
    exact hb (Function.update_self ..)
  rw [Heap.free_cell_ne hne] at hb
  exact ⟨hne, hb⟩

theorem live_of_jobAt {h h' : Heap Job} (hsame : jobAt h' = jobAt h) {b : Nat}
    (hb : h'.cell b ≠ none) : h.cell b ≠ none := by
  intro hnone
  have hjob := congrFun hsame b
  unfold jobAt at hjob
  rw [hnone, Option.map_none, Option.map_eq_none_iff] at hjob
  exact hb hjob

/-- A sleeper that is woken has nothing in its hands before and after. -/
theorem hand_wake {place : ω → Popper} {ws : Finset ω} (hws : ∀ w ∈ ws, place w = .asleep) :
    Popper.hand ∘ wake ws .woken place = Popper.hand ∘ place := by
  funext w
  rcases wake_cases ws .woken place w with ⟨hmem, hw⟩ | ⟨-, hw⟩
  · show Popper.hand _ = Popper.hand _
    rw [hw, hws w hmem]
    rfl
  · show Popper.hand _ = Popper.hand _
    rw [hw]

/-- One thread's hands change, and what is linked perhaps; nothing gets lost on the way. -/
theorem NoLeak.move {o : π ⊕ ω} {x : Option Nat} (h : NoLeak s) (hold : Seg s.heap s.sreq l none)
    (hhands : s'.hands = Function.update s.hands o x) (hseg : Seg s'.heap s'.sreq l' none)
    (hlist : ∀ b ∈ l.map Prod.fst, b ∈ l'.map Prod.fst ∨ x = some b)
    (hlet : ∀ b, s.hands o = some b → s'.heap.cell b ≠ none → b ∈ l'.map Prod.fst ∨ x = some b)
    (hlive : ∀ b, s'.heap.cell b ≠ none → s.heap.cell b ≠ none ∨ x = some b) : NoLeak s' := by
  have howned : ∀ b, b ∈ l'.map Prod.fst ∨ x = some b → s'.Owned b := by
    intro b hb
    rcases hb with hb | hb
    · exact Or.inl ⟨l', hseg, hb⟩
    · refine Or.inr ⟨o, ?_⟩
      rw [hhands, Function.update_self]
      exact hb
  intro b hb
  rcases hlive b hb with hb' | hx
  · rcases h b hb' with ⟨l'', hl'', hmem⟩ | ⟨o', ho'⟩
    · obtain rfl := hl''.functional hold
      exact howned b (hlist b hmem)
    · by_cases hoo : o' = o
      · subst hoo
        exact howned b (hlet b ho' hb)
      · refine Or.inr ⟨o', ?_⟩
        rw [hhands, Function.update_of_ne hoo]
        exact ho'
  · exact howned b (Or.inr hx)

/-- A thread goes on with what it has in its hands. -/
theorem NoLeak.keep (o : π ⊕ ω) (h : NoLeak s) (hold : Seg s.heap s.sreq l none)
    (hhands : s'.hands = Function.update s.hands o (s.hands o))
    (hseg : Seg s'.heap s'.sreq l none)
    (hlive : ∀ b, s'.heap.cell b ≠ none → s.heap.cell b ≠ none) : NoLeak s' :=
  h.move hold hhands hseg (fun _ hb => Or.inl hb) (fun _ hb _ => Or.inr hb)
    fun b hb => Or.inl (hlive b hb)

/-- A thread frees what it has in its hands. -/
theorem NoLeak.free {o : π ⊕ ω} {a : Nat} (hmem : FqmMem s l) (h : NoLeak s)
    (ho : s.hands o = some a) (hheap : s'.heap = s.heap.free a) (hsreq : s'.sreq = s.sreq)
    (hhands : s'.hands = Function.update s.hands o none) : NoLeak s' := by
  apply h.move hmem.seg hhands
  · rw [hheap, hsreq]
    exact (free_others hmem ho).1
  · exact fun b hb => Or.inl hb
  · intro b hb hlive
    obtain rfl := Option.some.inj (ho.symm.trans hb)
    rw [hheap] at hlive
    exact absurd rfl (free_cell_live hlive).1
  · intro b hb
    rw [hheap] at hb
    exact Or.inl (free_cell_live hb).2

/-- A thread allocates a request. -/
theorem NoLeak.made (o : π ⊕ ω) {a : Nat} {n : Node Job} (h : NoLeak s) (hmem : FqmMem s l)
    (ha : s.heap.cell a = none) (ho : s.hands o = none) (hheap : s'.heap = s.heap.put a n)
    (hsreq : s'.sreq = s.sreq) (hhands : s'.hands = Function.update s.hands o (some a)) :
    NoLeak s' := by
  have hfresh : ∀ x ∈ l, x.1 ≠ a := by
    rintro x hx rfl
    obtain ⟨m, hm⟩ := hmem.seg.cell (a := x.1) (e := x.2) hx
    exact absurd (ha.symm.trans hm) (by simp)
  apply h.move hmem.seg hhands
  · rw [hheap, hsreq]
    exact hmem.seg.frame fun x hx => Heap.put_cell_ne (hfresh x hx) _
  · exact fun b hb => Or.inl hb
  · intro b hb
    exact absurd (ho.symm.trans hb) (by simp)
  · intro b hb
    by_cases hba : b = a
    · exact Or.inr (congrArg some hba.symm)
    · rw [hheap, Heap.put_cell_ne hba] at hb
      exact Or.inl hb

/-- The request in a thread's hands goes to the end of the list. -/
theorem NoLeak.linked {o : π ⊕ ω} {a : Nat} {n : Node Job} {heap : Heap Job}
    {sreq : Option Nat} (h : NoLeak s) (hmem : FqmMem s l) (ho : s.hands o = some a)
    (hcell : s.heap.cell a = some n) (hlink : fqmLink s a = some (heap, sreq))
    (hheap : s'.heap = heap) (hsreq : s'.sreq = sreq)
    (hhands : s'.hands = Function.update s.hands o none) : NoLeak s' := by
  obtain ⟨heap', sreq', hlink', hseg, hjobs, -⟩ := fqmLink_chain hmem (hmem.mine o a ho).1 hcell
  obtain ⟨rfl, rfl⟩ := Prod.mk.inj (Option.some.inj (hlink.symm.trans hlink'))
  have happend : ∀ b, b ∈ l.map Prod.fst ∨ b = a → b ∈ (l ++ [(a, n.ent)]).map Prod.fst := by
    intro b hb
    rw [List.map_append, List.mem_append]
    exact hb.imp id fun hba => by simp [hba]
  rw [← hheap, ← hsreq] at hseg
  apply h.move hmem.seg hhands hseg
  · exact fun b hb => Or.inl (happend b (Or.inl hb))
  · -- what the thread lets go of is the last request of the list now
    intro b hb _
    obtain rfl := Option.some.inj (ho.symm.trans hb)
    exact Or.inl (happend _ (Or.inr rfl))
  · intro b hb
    rw [hheap] at hb
    exact Or.inl (live_of_jobAt hjobs hb)

/-- The front of the list goes to a worker. -/
theorem NoLeak.take {w : ω} (hmem : FqmMem s l) (h : NoLeak s) (hhand : (s.worker w).hand = none)
    (htake : fqmTake s w = some s') : NoLeak s' := by
  have ho : s.hands (.inr w) = none := hhand
  unfold fqmTake at htake
  split at htake
  next =>
    obtain rfl := Option.some.inj htake
    refine h.keep (.inr w) hmem.seg ?_ hmem.seg fun _ hb => hb
    rw [hands_setWorker, ho]
    rfl
  next a hsreq =>
    split at htake
    next => exact absurd htake (by simp)
    next n hcell =>
      obtain rfl := Option.some.inj htake
      have hseg := hmem.seg
      rw [hsreq] at hseg
      cases l with
      | nil => exact absurd hseg (by simp)
      | cons x rest =>
        obtain ⟨hx, nx, hnx, hrest⟩ := hseg
        obtain rfl := Option.some.inj hx
        obtain rfl : n = ⟨x.2, nx⟩ := Option.some.inj (hcell.symm.trans hnx)
        refine h.move hmem.seg (hands_setWorker _ w _) hrest ?_ ?_ fun b hb => Or.inl hb
        · intro b hb
          rcases List.mem_cons.mp hb with rfl | hb
          · exact Or.inr rfl
          · exact Or.inl hb
        · intro b hb
          exact absurd (ho.symm.trans hb) (by simp)

variable [Fintype ω]

/-- What one step keeps. -/
theorem fqmStep_noLeak [Nonempty ω] {act : FqmAct π ω} {rc : Option Int} (hmem : FqmMem s l)
    (h : NoLeak s) (hstep : fqmStep s act = some (rc, s')) : NoLeak s' := by
  cases act with
  | new p a junk req =>
    simp only [fqmStep] at hstep
    split at hstep
    next ha =>
      obtain ⟨-, rfl⟩ := Prod.mk.inj (Option.some.inj hstep)
      exact h.made (.inl p) hmem ha.2 (congrArg Pusher.hand ha.1) rfl rfl (hands_setPusher _ p _)
    next => exact absurd hstep (by simp)
  | check p =>
    simp only [fqmStep] at hstep
    split at hstep
    next a hp =>
      have ho : s.hands (.inl p) = some a := congrArg Pusher.hand hp
      split at hstep
      next =>
        obtain ⟨-, rfl⟩ := Prod.mk.inj (Option.some.inj hstep)
        exact h.free hmem ho rfl rfl (hands_setPusher _ p _)
      next =>
        obtain ⟨-, rfl⟩ := Prod.mk.inj (Option.some.inj hstep)
        refine h.keep (.inl p) hmem.seg ?_ hmem.seg fun _ hb => hb
        rw [hands_setPusher, ho]
        rfl
    next => exact absurd hstep (by simp)
  | push p ws =>
    simp only [fqmStep] at hstep
    split at hstep
    next a hp =>
      have ho : s.hands (.inl p) = some a := congrArg Pusher.hand hp
      split at hstep
      next n heap sreq hcell hlink =>
        split at hstep
        next hws =>
          obtain ⟨-, rfl⟩ := Prod.mk.inj (Option.some.inj hstep)
          -- the workers that are signalled hold nothing, so only the pusher's hands change
          refine h.linked hmem ho hcell hlink rfl rfl ?_
          rw [hands_setPusher]
          unfold FqmSys.hands
          rw [hand_wake hws.1]
          rfl
        next => exact absurd hstep (by simp)
      next => exact absurd hstep (by simp)
    next => exact absurd hstep (by simp)
  | pop w =>
    simp only [fqmStep] at hstep
    split at hstep
    next hw =>
      have ho : (s.worker w).hand = none := by rw [hw]; rfl
      split at hstep
      next =>
        obtain ⟨-, rfl⟩ := Prod.mk.inj (Option.some.inj hstep)
        refine h.keep (.inr w) hmem.seg ?_ hmem.seg fun _ hb => hb
        rw [hands_setWorker, show s.hands (.inr w) = none from ho]
        rfl
      next =>
        obtain ⟨s'', htake, heq⟩ := Option.map_eq_some_iff.mp hstep
        obtain ⟨-, rfl⟩ := Prod.mk.inj heq
        exact h.take hmem ho htake
    next => exact absurd hstep (by simp)
  | wakeUp w =>
    simp only [fqmStep] at hstep
    split at hstep
    next hw =>
      obtain ⟨-, rfl⟩ := Prod.mk.inj (Option.some.inj hstep)
      refine h.keep (.inr w) hmem.seg ?_ hmem.seg fun _ hb => hb
      rw [hands_setWorker, show s.hands (.inr w) = none from congrArg Popper.hand hw]
      rfl
    next => exact absurd hstep (by simp)
  | resume w =>
    simp only [fqmStep] at hstep
    split at hstep
    next hw =>
      obtain ⟨s'', htake, heq⟩ := Option.map_eq_some_iff.mp hstep
      obtain ⟨-, rfl⟩ := Prod.mk.inj heq
      exact h.take hmem (by rw [hw]; rfl) htake
    next => exact absurd hstep (by simp)
  | unlink w =>
    simp only [fqmStep] at hstep
    split at hstep
    next a hw =>
      obtain ⟨-, rfl⟩ := Prod.mk.inj (Option.some.inj hstep)
      have ho : s.hands (.inr w) = some a := congrArg Popper.hand hw
      have hout := (hmem.mine _ a ho).1
      refine h.keep (.inr w) hmem.seg ?_ ?_ ?_
      · rw [hands_setWorker, ho]
        rfl
      · refine hmem.seg.frame fun x hx => Heap.modify_cell_ne ?_ _
        exact fun hxa => hout (hxa ▸ List.mem_map_of_mem hx)
      · exact fun b hb => live_of_jobAt (jobAt_modify s.heap a none) hb
    next => exact absurd hstep (by simp)
  | handle w =>
    simp only [fqmStep] at hstep
    split at hstep
    next a hw =>
      split at hstep
      next => exact absurd hstep (by simp)
      next n hcell =>
        obtain ⟨-, rfl⟩ := Prod.mk.inj (Option.some.inj hstep)
        refine h.keep (.inr w) hmem.seg ?_ hmem.seg fun _ hb => hb
        rw [hands_setWorker, show s.hands (.inr w) = some a from congrArg Popper.hand hw]
        rfl
    next => exact absurd hstep (by simp)
  | finish w =>
    simp only [fqmStep] at hstep
    split at hstep
    next a hw =>
      obtain ⟨-, rfl⟩ := Prod.mk.inj (Option.some.inj hstep)
      have ho : s.hands (.inr w) = some a := congrArg Popper.hand hw
      exact h.free hmem ho rfl rfl (hands_setWorker _ w _)
    next => exact absurd hstep (by simp)

/-- What a run keeps. -/
theorem fqmRuns_noLeak [Nonempty ω] {maxitems : Int} {acts : List (FqmAct π ω)}
    {rcs : List (Option Int)} (hrun : runs fqmStep (fqmStart maxitems) acts = some (rcs, s)) :
    NoLeak s := by
  have hinv : ∃ l, FqmMem s l ∧ NoLeak s := by
    refine runs_invariant (g := fun _ _ => True) (I := fun s => ∃ l, FqmMem s l ∧ NoLeak s)
      ?_ ⟨[], fqmStart_mem maxitems, fun a ha => absurd rfl ha⟩ guarded_true hrun
    intro s act rc s' ⟨l, hmem, h⟩ _ hstep
    obtain ⟨l', hmem', -⟩ := fqmStep_ledger hmem hstep
    exact ⟨l', hmem', fqmStep_noLeak hmem h hstep⟩
  obtain ⟨l, -, h⟩ := hinv
  exact h

end Leaks

/-! ## Working the queue off -/

section Drains

variable [DecidableEq π] [DecidableEq ω] [Fintype ω] {s s' : FqmSys π ω} {l : List (Nat × Job)}

/-- A part of the work is done, and nothing else. -/
structure Advanced (s s' : FqmSys π ω) : Prop where
  work : s'.work + 1 = s.work
  accepted : s'.accepted = s.accepted
  pusher : s'.pusher = s.pusher

omit [DecidableEq π] in
theorem work_goto {w : ω} {x : Popper} (hitems : s'.nitems = s.nitems)
    (hworker : s'.worker = Function.update s.worker w x)
    (hrank : x.rank + 1 = (s.worker w).rank) : s'.work + 1 = s.work := by
  have hmove := total_update Popper.rank s.worker w x
  unfold FqmSys.work
  rw [hitems, hworker]
  omega

/-- A worker with a request in its hands goes on with it. -/
theorem holder_advances (h : FqmMem s l) {w : ω} {a : Nat} (hw : (s.worker w).hand = some a) :
    ∃ act s', act.isWorkers = true ∧ fqmStep s act = some (none, s') ∧ Advanced s s' := by
  have hlive : s.heap.cell a ≠ none := (h.mine (.inr w) a hw).2
  obtain ⟨n, hn⟩ := Option.ne_none_iff_exists'.mp hlive
  cases hplace : s.worker w with
  | popped b =>
    have hstep : fqmStep s (.unlink w) = some (none, { s with
        heap := s.heap.modify b fun n => { n with next := none } }.setWorker w (.returned b)) := by
      simp only [fqmStep, hplace]
    have hrank : (Popper.returned b).rank + 1 = (s.worker w).rank := by rw [hplace]; rfl
    exact ⟨_, _, rfl, hstep, ⟨work_goto rfl rfl hrank, rfl, rfl⟩⟩
  | returned b =>
    rw [hplace] at hw
    obtain rfl := Option.some.inj hw
    have hstep : fqmStep s (.handle w)
        = some (none, { s with handed := s.handed ++ [n.ent] }.setWorker w (.busy b)) := by
      simp only [fqmStep, hplace, hn]
    have hrank : (Popper.busy b).rank + 1 = (s.worker w).rank := by rw [hplace]; rfl
    exact ⟨_, _, rfl, hstep, ⟨work_goto rfl rfl hrank, rfl, rfl⟩⟩
  | busy b =>
    have hstep : fqmStep s (.finish w)
        = some (none, { s with heap := s.heap.free b }.setWorker w .ready) := by
      simp only [fqmStep, hplace]
    have hrank : Popper.ready.rank + 1 = (s.worker w).rank := by rw [hplace]; rfl
    exact ⟨_, _, rfl, hstep, ⟨work_goto rfl rfl hrank, rfl, rfl⟩⟩
  | ready => exact absurd hw (by simp [hplace, Popper.hand])
  | asleep => exact absurd hw (by simp [hplace, Popper.hand])
  | woken => exact absurd hw (by simp [hplace, Popper.hand])

omit [DecidableEq π] in
/-- A worker that looks at a queue takes its front. -/
theorem take_advances {w : ω} {x : Nat × Job} {rest : List (Nat × Job)}
    (h : FqmMem s (x :: rest)) (hrank : (s.worker w).rank = 0) :
    ∃ s', fqmTake s w = some s' ∧ Advanced s s' := by
  obtain ⟨hsreq, n, hcell, -⟩ := h.seg
  have hcount := h.count
  rw [List.length_cons] at hcount
  have htake : fqmTake s w = some ({ s with
      sreq := n
      nitems := s.nitems - 1
      returned := s.returned ++ [x.2] }.setWorker w (.popped x.1)) := by
    unfold fqmTake
    rw [hsreq]
    dsimp only
    rw [hcell]
  refine ⟨_, htake, ⟨?_, rfl, rfl⟩⟩
  have hmove := total_update Popper.rank s.worker w (.popped x.1)
  rw [hrank] at hmove
  have hthree : (Popper.popped x.1).rank = 3 := rfl
  show 4 * (s.nitems - 1).toNat + total Popper.rank (Function.update s.worker w (.popped x.1)) + 1
    = 4 * s.nitems.toNat + total Popper.rank s.worker
  omega

/-- **Some worker gets on**, by itself, while there is work. -/
theorem fqm_progress (h : FqmMem s l) (hwork : s.work ≠ 0) :
    ∃ act s', act.isWorkers = true ∧ fqmStep s act = some (none, s') ∧ Advanced s s' := by
  by_cases hbusy : ∃ w a, (s.worker w).hand = some a
  · obtain ⟨w, a, hw⟩ := hbusy
    exact holder_advances h hw
  · have hrank : ∀ w, (s.worker w).rank = 0 := by
      intro w
      rw [rank_eq_zero, Option.eq_none_iff_forall_ne_some]
      exact fun a ha => hbusy ⟨w, a, ha⟩
    have hzero : total Popper.rank s.worker = 0 := total_eq_zero.mpr hrank
    cases l with
    | nil =>
      -- nothing is linked and nobody has begun anything
      have hcount := h.count
      rw [List.length_nil] at hcount
      unfold FqmSys.work at hwork
      omega
    | cons x rest =>
      have hsreq : s.sreq ≠ none := by
        obtain ⟨hx, -⟩ := h.seg
        rw [hx]
        simp
      obtain ⟨w, hw⟩ := h.awake (List.cons_ne_nil x rest)
      obtain ⟨s', htake, hadv⟩ := take_advances h (hrank w)
      cases hplace : s.worker w with
      | ready =>
        refine ⟨.pop w, s', rfl, ?_, hadv⟩
        simp only [fqmStep, hplace, if_neg hsreq, htake]
        rfl
      | woken =>
        refine ⟨.resume w, s', rfl, ?_, hadv⟩
        simp only [fqmStep, hplace, htake]
        rfl
      | asleep => exact absurd hplace hw
      | popped a => exact absurd ⟨w, a, by rw [hplace]; rfl⟩ hbusy
      | returned a => exact absurd ⟨w, a, by rw [hplace]; rfl⟩ hbusy
      | busy a => exact absurd ⟨w, a, by rw [hplace]; rfl⟩ hbusy

/-- The workers' run to the end of the work. -/
theorem fqm_workedOff [Nonempty ω] (hmem : FqmMem s l) (hok : (s.ledger l).Ok) (h : NoLeak s) :
    ∃ acts rcs s' l', (∀ act ∈ acts, act.isWorkers = true) ∧ acts.length = s.work ∧
      runs fqmStep s acts = some (rcs, s') ∧ s'.work = 0 ∧ s'.accepted = s.accepted ∧
      s'.pusher = s.pusher ∧ FqmMem s' l' ∧ (s'.ledger l').Ok ∧ NoLeak s' := by
  induction hn : s.work generalizing s l with
  | zero => exact ⟨[], [], s, l, by simp, rfl, rfl, hn, rfl, rfl, hmem, hok, h⟩
  | succ n ih =>
    obtain ⟨act, s₁, hact, hstep, hadv⟩ := fqm_progress hmem (by omega)
    obtain ⟨l₁, hmem₁, hledger⟩ := fqmStep_ledger hmem hstep
    have hwork := hadv.work
    obtain ⟨acts, rcs, s', l', hacts, hlen, hrun, hend, hacc, hpush, hlast⟩ :=
      ih hmem₁ (hok.step hledger) (fqmStep_noLeak hmem h hstep) (by omega)
    refine ⟨act :: acts, none :: rcs, s', l', ?_, ?_,
      runs_cons.mpr ⟨none, s₁, rcs, hstep, hrun, rfl⟩, hend, hacc.trans hadv.accepted,
      hpush.trans hadv.pusher, hlast⟩
    · intro b hb
      rcases List.mem_cons.mp hb with rfl | hb
      · exact hact
      · exact hacts b hb
    · rw [List.length_cons, hlen]

/-- **The queue can always be worked off.** In every reachable state the workers alone, without
another push and without a wake-up that was not signalled, come in `work` steps to a state
where no request is linked and none is in a worker's hands, every accepted request has
been handed to its handler once, and no request is allocated but those that a pushing
thread has not got accepted or refused yet. -/
theorem fqm_drains [Nonempty ω] {maxitems : Int} {acts : List (FqmAct π ω)}
    {rcs : List (Option Int)} (hrun : runs fqmStep (fqmStart maxitems) acts = some (rcs, s)) :
    ∃ acts' rcs' s', (∀ act ∈ acts', act.isWorkers = true) ∧ acts'.length = s.work ∧
      runs fqmStep s acts' = some (rcs', s') ∧ s'.sreq = none ∧
      (∀ w, (s'.worker w).hand = none) ∧ s'.handed.Perm s.accepted ∧ s'.pusher = s.pusher ∧
      ∀ a, s'.heap.cell a ≠ none ↔ ∃ p, (s.pusher p).hand = some a := by
  obtain ⟨l, hmem, hok⟩ := fqmRuns_ledger hrun
  obtain ⟨acts', rcs', s', l', hacts, hlen, hrun', hwork, hacc, hpush, hmem', hok', hleak⟩ :=
    fqm_workedOff hmem hok (fqmRuns_noLeak hrun)
  have hcount := hmem'.count
  unfold FqmSys.work at hwork
  obtain rfl : l' = [] := List.length_eq_zero_iff.mp (by omega)
  have hidle : ∀ w, (s'.worker w).hand = none := fun w =>
    rank_eq_zero.mp (total_eq_zero.mp (by omega : total Popper.rank s'.worker = 0) w)
  have horder : s'.accepted = s'.returned := by
    have happend : s'.accepted = s'.returned ++ [] := hok'.order
    rwa [List.append_nil] at happend
  have hnodup : s'.accepted.Nodup := hok'.nodup
  have honce : s'.handed.Nodup := hok'.once
  refine ⟨acts', rcs', s', hacts, hlen, hrun', hmem'.seg, hidle, ?_, hpush, fun a => ⟨?_, ?_⟩⟩
  · rw [← hacc, List.perm_ext_iff_of_nodup honce hnodup]
    intro j
    constructor
    · intro hj
      rw [horder]
      exact hok'.handed j hj
    · intro hj
      rw [horder] at hj
      rcases hok'.covered j hj with hh | ⟨w, hw⟩
      · exact hh
      · -- no worker carries anything any more
        obtain ⟨a, ha, -⟩ := Option.bind_eq_some_iff.mp hw
        exact absurd ((hidle w).symm.trans (hand_of_load ha)) (by simp)
  · intro hlive
    rcases hleak a hlive with ⟨l', hl', ha⟩ | ⟨o, ho⟩
    · obtain rfl := hl'.functional hmem'.seg
      exact absurd ha (by simp)
    · cases o with
      | inl p =>
        rw [← hpush]
        exact ⟨p, ho⟩
      | inr w => exact absurd ((hidle w).symm.trans ho) (by simp)
  · intro ⟨p, hp⟩
    rw [← hpush] at hp
    exact (hmem'.mine (.inl p) a hp).2

end Drains

/-- Two requests, one of them begun, and a third that is not pushed yet. -/
theorem fqm_drains_two : ∃ rcs s,
    runs fqmStep (fqmStart (π := Unit) (ω := Fin 1) 10)
      [.pop 0, .new () 0 none ⟨[65], 7, 1⟩, .check (), .push () {0}, .resume 0, .unlink 0,
        .new () 1 none ⟨[66], 7, 2⟩, .check (), .push () ∅,
        .new () 2 none ⟨[67], 7, 3⟩] = some (rcs, s) ∧
    s.work = 6 ∧
    ∃ acts' rcs' s', (∀ act ∈ acts', act.isWorkers = true) ∧ acts'.length = s.work ∧
      runs fqmStep s acts' = some (rcs', s') ∧ s'.handed.Perm s.accepted ∧
      ∀ a, s'.heap.cell a ≠ none ↔ ∃ p, (s.pusher p).hand = some a := by
  have hwork : (runs fqmStep (fqmStart (π := Unit) (ω := Fin 1) 10)
      [.pop 0, .new () 0 none ⟨[65], 7, 1⟩, .check (), .push () {0}, .resume 0, .unlink 0,
        .new () 1 none ⟨[66], 7, 2⟩, .check (), .push () ∅,
        .new () 2 none ⟨[67], 7, 3⟩]).map (fun r => r.2.work) = some 6 := by
    decide
  obtain ⟨⟨rcs, s⟩, hrun, hs⟩ := Option.map_eq_some_iff.mp hwork
  obtain ⟨acts', rcs', s', hacts, hlen, hrun', -, -, hperm, -, hlive⟩ := fqm_drains hrun
  exact ⟨rcs, s, hrun, hs, acts', rcs', s', hacts, hlen, hrun', hperm, hlive⟩

end Nastd.Server
