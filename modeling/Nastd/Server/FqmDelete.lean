import Nastd.Server.FqmPool

/-!
# Shutting down the pool

`fqm_delete` makes one broadcast on `q_cond`, and `fqm_pop` does not look at the `dieflag`
before it waits, so everything depends on where the workers stand at that moment.

* `Pool.Settled`: at the broadcast no thread can come to `cond_wait` late.
* `fqm_delete_wakes_iff`: from there on no thread sleeps and the deletion ends, if and
  only if the pool is settled.
-/

namespace Nastd.Server

open Nastd.Lib

/-! ## After the broadcast -/

/-- The worker may still take a request off the queue. -/
def Popping.Takes : Popping → Prop
  | .ready => True
  | .asleep => True
  | .woken => True
  | _ => False

instance : DecidablePred Popping.Takes := fun x => by
  cases x <;> unfold Popping.Takes <;> infer_instance

/-- No thread is on its way to the lock in `fqm_pop`, or there is a request for each one
that may take one. -/
def Pool.Settled {n : Nat} (s : Pool n) : Prop :=
  (∃ w, s.place w = .ready) → count Popping.Takes s.place ≤ s.fqm.queue.length

/-- Nobody sleeps, and nobody will. -/
structure Pool.Woken {n : Nat} (s : Pool n) : Prop where
  past : s.owner.Past
  up : ∀ w, s.place w ≠ .asleep
  settled : s.Settled

section Steps

variable {n : Nat} {s s' : Pool n} {w : Fin n}

/-- A worker goes on that was not on its way to the lock, nor comes there. -/
theorem Pool.Woken.goto {x : Popping} (h : s.Woken) (hx : ¬ x.Takes) : (s.goto w x).Woken := by
  have hplace : ∀ {u}, u ≠ w → (s.goto w x).place u = s.place u := fun hu =>
    Function.update_of_ne hu _ _
  have hself : (s.goto w x).place w = x := Function.update_self ..
  refine ⟨h.past, ?_, ?_⟩
  · intro u hu
    by_cases huw : u = w
    · subst huw
      rw [hself] at hu
      subst hu
      exact hx trivial
    · rw [hplace huw] at hu
      exact h.up u hu
  · intro ⟨u, hu⟩
    have huw : u ≠ w := by
      rintro rfl
      rw [hself] at hu
      subst hu
      exact hx trivial
    rw [hplace huw] at hu
    have hroom := h.settled ⟨u, hu⟩
    have hmove := count_update (p := Popping.Takes) s.place w x
    rw [if_neg hx] at hmove
    change count Popping.Takes (Function.update s.place w x) ≤ s.fqm.queue.length
    omega

/-- It takes a request, and one that may take one is gone. -/
theorem Pool.Woken.take (h : s.Woken) (hw : (s.place w).Takes) : (s.take w).Woken := by
  unfold Pool.take fqmPop
  cases hq : s.fqm.queue with
  | nil => exact h.goto id
  | cons req rest =>
    dsimp only
    refine ⟨h.past, (h.goto id (w := w) (x := .returned (some req))).up, ?_⟩
    intro ⟨u, hu⟩
    have huw : u ≠ w := by
      rintro rfl
      exact absurd ((Function.update_self ..).symm.trans hu) (by simp)
    have hroom := h.settled ⟨u, (Function.update_of_ne huw ..).symm.trans hu⟩
    have hmove := count_update (p := Popping.Takes) s.place w (.returned (some req))
    rw [if_pos hw, if_neg (show ¬ (Popping.returned (some req)).Takes from id)] at hmove
    rw [hq, List.length_cons] at hroom
    change count Popping.Takes (Function.update s.place w (.returned (some req))) ≤ rest.length
    omega

/-- On its way to the lock it does not find the queue empty. -/
theorem Pool.Woken.queue_ne_nil (h : s.Woken) (hw : s.place w = .ready) : s.fqm.queue ≠ [] := by
  intro hq
  have hroom := h.settled ⟨w, hw⟩
  have hone : 0 < count Popping.Takes s.place := by
    apply count_pos.mpr
    refine ⟨w, ?_⟩
    rw [hw]
    trivial
  rw [hq] at hroom
  exact absurd hone (Nat.not_lt.mpr hroom)

theorem Pool.Woken.mark {st : Status} (h : s.Woken) : (s.mark w st).Woken :=
  ⟨h.past, h.up, h.settled⟩

theorem Pool.Woken.setOwner {x : Owner} (h : s.Woken) (hx : x.Past) :
    Pool.Woken { s with owner := x } := ⟨hx, h.up, h.settled⟩

theorem Pool.Woken.not_owner {x : Owner} (h : s.Woken) (hx : ¬ x.Past) : s.owner ≠ x :=
  fun heq => hx (heq ▸ h.past)

theorem poolStep_woken {act : PoolAct n} {o : Unit} (hok : s.Ok) (h : s.Woken)
    (hstep : poolStep s act = some (o, s')) : s'.Woken := by
  cases act with
  | push req ws =>
    simp only [poolStep] at hstep
    rw [if_neg fun hpush => h.not_owner id hpush.1] at hstep
    exact absurd hstep (by simp)
  | pop w =>
    simp only [poolStep] at hstep
    obtain ⟨hw, hstep⟩ := Option.ite_none_right_eq_some.mp hstep
    rw [if_neg (show (s.mark w .idle).fqm.queue ≠ [] from h.queue_ne_nil hw)] at hstep
    obtain ⟨-, rfl⟩ := Prod.mk.inj (Option.some.inj hstep)
    refine h.mark.take ?_
    rw [show (s.mark w .idle).place w = .ready from hw]
    trivial
  | wakeUp w =>
    simp only [poolStep] at hstep
    rw [if_neg (h.up w)] at hstep
    exact absurd hstep (by simp)
  | resume w =>
    simp only [poolStep] at hstep
    obtain ⟨hw, hstep⟩ := Option.ite_none_right_eq_some.mp hstep
    obtain ⟨-, rfl⟩ := Prod.mk.inj (Option.some.inj hstep)
    refine h.take ?_
    rw [hw]
    trivial
  | test w =>
    simp only [poolStep] at hstep
    split at hstep
    next req hw =>
      rw [if_pos (hok.flagged w (h.past.hasFlagged w))] at hstep
      obtain ⟨-, rfl⟩ := Prod.mk.inj (Option.some.inj hstep)
      exact h.goto id
    next => exact absurd hstep (by simp)
  | finish w =>
    simp only [poolStep] at hstep
    split at hstep
    next req hw => exact absurd h.past (hok.handler w req hw)
    next => exact absurd hstep (by simp)
  | die w =>
    simp only [poolStep] at hstep
    split at hstep
    next =>
      obtain ⟨-, rfl⟩ := Prod.mk.inj (Option.some.inj hstep)
      have hdead : ((s.mark w .noalloc).goto w .dead).Woken := h.mark.goto id
      refine hdead.setOwner ?_
      have hpast := h.past
      revert hpast
      cases s.owner <;> exact id
    next => exact absurd hstep (by simp)
  | delete =>
    simp only [poolStep] at hstep
    rw [if_neg (h.not_owner id)] at hstep
    exact absurd hstep (by simp)
  | flag =>
    simp only [poolStep] at hstep
    split at hstep
    next i hown => exact absurd hown (h.not_owner id)
    next => exact absurd hstep (by simp)
  | verify =>
    simp only [poolStep] at hstep
    rw [if_neg fun hverify => h.not_owner id hverify.1] at hstep
    exact absurd hstep (by simp)
  | broadcast =>
    simp only [poolStep] at hstep
    rw [if_neg fun hcast => h.not_owner id hcast.1] at hstep
    exact absurd hstep (by simp)
  | reap =>
    simp only [poolStep] at hstep
    split at hstep
    next i hown =>
      obtain ⟨-, rfl⟩ := Prod.mk.inj (Option.some.inj hstep)
      refine ⟨?_, h.up, h.settled⟩
      dsimp only
      split
      next => trivial
      next => trivial
    next => exact absurd hstep (by simp)
  | rouse =>
    simp only [poolStep] at hstep
    split at hstep
    next i hown =>
      obtain ⟨-, rfl⟩ := Prod.mk.inj (Option.some.inj hstep)
      exact h.setOwner trivial
    next => exact absurd hstep (by simp)

/-! ## The end of the deletion -/

/-- The steps a worker has ahead. -/
def Popping.ahead : Popping → Nat
  | .ready => 3
  | .asleep => 4
  | .woken => 3
  | .returned _ => 2
  | .busy _ => 4
  | .dying => 1
  | .dead => 0

theorem total_ahead_lt {x : Popping} {place' : Fin n → Popping}
    (heq : place' = Function.update s.place w x) (hlt : x.ahead < (s.place w).ahead) :
    total Popping.ahead place' < total Popping.ahead s.place := by
  have hmove := total_update Popping.ahead s.place w x
  rw [← heq] at hmove
  omega

theorem take_place (s : Pool n) (w : Fin n) :
    ∃ req, (s.take w).place = Function.update s.place w (.returned req) := by
  unfold Pool.take
  split
  next => exact ⟨none, rfl⟩
  next req fqm _ => exact ⟨some req, rfl⟩

/-- Whoever is not dead yet can go on by itself. -/
theorem poolStep_ahead (hok : s.Ok) (h : s.Woken) (hw : s.place w ≠ .dead) :
    ∃ act s', (∀ u, act ≠ .wakeUp u) ∧ poolStep s act = some ((), s') ∧
      total Popping.ahead s'.place < total Popping.ahead s.place := by
  cases hplace : s.place w with
  | ready =>
    refine ⟨.pop w, (s.mark w .idle).take w, by simp, ?_, ?_⟩
    · simp only [poolStep]
      rw [if_pos hplace,
        if_neg (show (s.mark w .idle).fqm.queue ≠ [] from h.queue_ne_nil hplace)]
    · obtain ⟨req, hreq⟩ := take_place (s.mark w .idle) w
      refine total_ahead_lt hreq ?_
      rw [hplace]
      exact Nat.lt_add_one 2
  | asleep => exact absurd hplace (h.up w)
  | woken =>
    refine ⟨.resume w, s.take w, by simp, ?_, ?_⟩
    · simp only [poolStep]
      rw [if_pos hplace]
    · obtain ⟨req, hreq⟩ := take_place s w
      refine total_ahead_lt hreq ?_
      rw [hplace]
      exact Nat.lt_add_one 2
  | returned req =>
    refine ⟨.test w, s.goto w .dying, by simp, ?_, ?_⟩
    · simp only [poolStep]
      rw [hplace]
      dsimp only
      rw [if_pos (hok.flagged w (h.past.hasFlagged w))]
    · refine total_ahead_lt rfl ?_
      rw [hplace]
      exact Nat.lt_add_one 1
  | busy req => exact absurd h.past (hok.handler w req hplace)
  | dying =>
    refine ⟨.die w, { (s.mark w .noalloc).goto w .dead with owner := s.owner.signalled },
      by simp, ?_, ?_⟩
    · simp only [poolStep]
      rw [if_pos hplace]
    · refine total_ahead_lt (w := w) rfl ?_
      rw [hplace]
      exact Nat.lt_add_one 0
  | dead => exact absurd hplace hw

/-- With all workers dead the deleting thread is not asleep. -/
theorem Pool.Ok.not_parked (h : s.Ok) (hall : ∀ w, s.place w = .dead) (i : Nat) :
    s.owner ≠ .parked i := by
  intro hown
  obtain ⟨hlt, hfreed⟩ := h.parked i hown
  have hcount := h.count i (Or.inr hown)
  rw [Finset.filter_true_of_mem fun w _ => hfreed w (hall w), Finset.card_univ,
    Fintype.card_fin] at hcount
  omega

/-- With all workers dead one look is enough. -/
theorem reap_last (hok : s.Ok) {i : Nat} (hown : s.owner = .reaping i)
    (hall : ∀ w, s.place w = .dead) :
    ∃ s', poolStep s .reap = some ((), s') ∧ s'.owner = .done := by
  have hnext := hok.reap hown
  refine ⟨_, by simp only [poolStep, hown]; rfl, ?_⟩
  dsimp only
  split
  next hlt => exact absurd (if_pos hlt) (hnext.not_parked hall _)
  next => rfl

/-- The deletion can end without anybody waking up for no reason. -/
theorem poolRuns_done (m : Nat) : ∀ {s : Pool n}, s.Ok → s.Woken →
    total Popping.ahead s.place = m →
    ∃ acts outs s', (∀ a ∈ acts, ∀ u, a ≠ .wakeUp u) ∧
      runs poolStep s acts = some (outs, s') ∧ s'.owner = .done := by
  induction m using Nat.strong_induction_on with
  | _ m ih =>
    intro s hok h hm
    by_cases hall : ∀ w, s.place w = .dead
    · cases hown : s.owner with
      | serving => exact absurd hown (h.not_owner id)
      | flagging i => exact absurd hown (h.not_owner id)
      | verifying => exact absurd hown (h.not_owner id)
      | reaping i =>
        obtain ⟨s', hstep, hdone⟩ := reap_last hok hown hall
        refine ⟨[.reap], [()], s', ?_, runs_cons.mpr ⟨(), s', [], hstep, rfl, rfl⟩, hdone⟩
        intro a ha u
        rw [List.mem_singleton.mp ha]
        simp
      | parked i => exact absurd hown (hok.not_parked hall i)
      | done => exact ⟨[], [], s, fun a ha => absurd ha List.not_mem_nil, rfl, hown⟩
    · obtain ⟨w, hw⟩ := not_forall.mp hall
      obtain ⟨act, s₁, hact, hstep, hlt⟩ := poolStep_ahead hok h hw
      obtain ⟨acts, outs, s', hacts, hrun, hdone⟩ :=
        ih _ (hm ▸ hlt) (poolStep_ok hok hstep) (poolStep_woken hok h hstep) rfl
      refine ⟨act :: acts, () :: outs, s', ?_, runs_cons.mpr ⟨(), s₁, outs, hstep, hrun, rfl⟩,
        hdone⟩
      exact List.forall_mem_cons.mpr ⟨hact, hacts⟩

/-! ## Who comes late -/

/-- What `fqm_delete` relies on: nobody sleeps, nobody falls asleep, and the deletion can
end without anybody waking up for no reason. -/
structure Pool.Awake (s : Pool n) : Prop where
  up : ∀ w, s.place w ≠ .asleep
  stay : ∀ act s', poolStep s act = some ((), s') → ∀ w, s'.place w ≠ .asleep
  ends : ∃ acts outs s', (∀ a ∈ acts, ∀ u, a ≠ .wakeUp u) ∧
    runs poolStep s acts = some (outs, s') ∧ s'.owner = .done

theorem Pool.Woken.awake (hok : s.Ok) (h : s.Woken) : s.Awake :=
  ⟨h.up, fun _ _ hstep => (poolStep_woken hok h hstep).up, poolRuns_done _ hok h rfl⟩

/-- What the broadcast leaves as it was, and what not. -/
theorem broadcast_step (hcast : poolStep s .broadcast = some ((), s')) :
    s'.owner.Past ∧ (∀ w, s'.place w ≠ .asleep) ∧ s'.fqm = s.fqm ∧
      (∀ w, s'.place w = .ready ↔ s.place w = .ready) ∧
      count Popping.Takes s'.place = count Popping.Takes s.place := by
  simp only [poolStep] at hcast
  split at hcast
  next =>
    obtain ⟨-, rfl⟩ := Prod.mk.inj (Option.some.inj hcast)
    have hcases := wake_cases (Finset.univ.filter fun w => s.place w = .asleep) .woken s.place
    refine ⟨trivial, ?_, rfl, ?_, ?_⟩
    · intro w hw
      rcases hcases w with ⟨-, hnew⟩ | ⟨hout, hold⟩
      · exact absurd (hw.symm.trans hnew) (by simp)
      · exact hout (Finset.mem_filter.mpr ⟨Finset.mem_univ w, hold.symm.trans hw⟩)
    · intro w
      dsimp only
      rcases hcases w with ⟨hmem, hnew⟩ | ⟨-, hold⟩
      · rw [hnew, (Finset.mem_filter.mp hmem).2]
        exact iff_of_false (by simp) (by simp)
      · rw [hold]
    · apply count_wake
      intro w hw
      rw [(Finset.mem_filter.mp hw).2]
      exact Iff.rfl
  next => exact absurd hcast (by simp)

theorem broadcast_settled (hcast : poolStep s .broadcast = some ((), s')) :
    s'.Settled ↔ s.Settled := by
  obtain ⟨-, -, hfqm, hready, hcount⟩ := broadcast_step hcast
  unfold Pool.Settled
  rw [hfqm, hcount, exists_congr hready]

/-- There is another one that may take a request. -/
theorem exists_taker_ne (w : Fin n) (hmany : 1 < count Popping.Takes s.place) :
    ∃ u, u ≠ w ∧ (s.place u).Takes := by
  have hmove := count_update (p := Popping.Takes) s.place w .dead
  rw [if_neg (show ¬ Popping.dead.Takes from id)] at hmove
  have hle : (if (s.place w).Takes then 1 else 0) ≤ 1 := by split <;> omega
  obtain ⟨u, hu⟩ := count_pos.mp
    (show 0 < count Popping.Takes (Function.update s.place w .dead) by omega)
  by_cases huw : u = w
  · rw [huw, Function.update_self] at hu
    exact absurd hu id
  · rw [Function.update_of_ne huw] at hu
    exact ⟨u, huw, hu⟩

/-- It takes one, and the queue is one shorter. -/
theorem taker_takes {req : Request} {rest : List Request} (hw : (s.place w).Takes)
    (hup : s.place w ≠ .asleep) (hq : s.fqm.queue = req :: rest) :
    ∃ act s', poolStep s act = some ((), s') ∧ s'.fqm.queue = rest ∧
      s'.place = Function.update s.place w (.returned (some req)) := by
  cases hplace : s.place w with
  | ready =>
    refine ⟨.pop w, (s.mark w .idle).take w, ?_, ?_, ?_⟩
    · simp only [poolStep]
      rw [if_pos hplace, if_neg (show (s.mark w .idle).fqm.queue ≠ [] by
        change s.fqm.queue ≠ []
        rw [hq]
        exact List.cons_ne_nil req rest)]
    · simp only [Pool.take, Pool.mark, fqmPop, hq, Pool.goto]
    · simp only [Pool.take, Pool.mark, fqmPop, hq, Pool.goto]
  | woken =>
    refine ⟨.resume w, s.take w, ?_, ?_, ?_⟩
    · simp only [poolStep]
      rw [if_pos hplace]
    · simp only [Pool.take, Pool.mark, fqmPop, hq, Pool.goto]
    · simp only [Pool.take, Pool.mark, fqmPop, hq, Pool.goto]
  | asleep => exact absurd hplace hup
  | returned r =>
    rw [hplace] at hw
    exact absurd hw id
  | busy r =>
    rw [hplace] at hw
    exact absurd hw id
  | dying =>
    rw [hplace] at hw
    exact absurd hw id
  | dead =>
    rw [hplace] at hw
    exact absurd hw id

/-- The others take what is on the queue, and the one on its way to the lock finds it
empty. -/
theorem sleeps_late (m : Nat) : ∀ {s : Pool n} {w : Fin n}, s.place w = .ready →
    (∀ u, s.place u ≠ .asleep) → s.fqm.queue.length = m → m < count Popping.Takes s.place →
    ∃ acts outs s', runs poolStep s acts = some (outs, s') ∧ s'.place w = .asleep := by
  induction m with
  | zero =>
    intro s w hw _ hlen _
    have hstep : poolStep s (.pop w) = some ((), (s.mark w .idle).goto w .asleep) := by
      simp only [poolStep]
      rw [if_pos hw, if_pos (show (s.mark w .idle).fqm.queue = [] from
        List.eq_nil_of_length_eq_zero hlen)]
    exact ⟨[.pop w], [()], _, runs_cons.mpr ⟨(), _, [], hstep, rfl, rfl⟩,
      Function.update_self ..⟩
  | succ m ih =>
    intro s w hw hup hlen hmany
    obtain ⟨u, huw, hu⟩ := exists_taker_ne w
      (Nat.lt_of_le_of_lt (Nat.succ_le_succ (Nat.zero_le m)) hmany)
    obtain ⟨req, rest, hq⟩ := List.exists_cons_of_length_eq_add_one hlen
    obtain ⟨act, s₁, hstep, hrest, hplace⟩ := taker_takes hu (hup u) hq
    have hmove := count_update (p := Popping.Takes) s.place u (.returned (some req))
    rw [if_pos hu, if_neg (show ¬ (Popping.returned (some req)).Takes from id), ← hplace] at hmove
    have hother : ∀ {v}, v ≠ u → s₁.place v = s.place v := by
      intro v hv
      rw [hplace, Function.update_of_ne hv]
    have hup₁ : ∀ v, s₁.place v ≠ .asleep := by
      intro v
      by_cases hv : v = u
      · rw [hv, hplace, Function.update_self]
        simp
      · rw [hother hv]
        exact hup v
    obtain ⟨acts, outs, s', hrun, hsleep⟩ := ih ((hother (Ne.symm huw)).trans hw) hup₁
      (by rw [hrest]; rw [hq, List.length_cons] at hlen; omega) (by omega)
    exact ⟨act :: acts, () :: outs, s', runs_cons.mpr ⟨(), s₁, outs, hstep, hrun, rfl⟩, hsleep⟩

/-- For every pool and every run up to the broadcast: nobody sleeps from there on, nobody
falls asleep and the deletion can end, if and only if the pool is settled. -/
theorem fqm_delete_wakes_iff {whole : Bool} {acts : List (PoolAct n)} {outs : List Unit}
    {s s₁ : Pool n} (hrun : runs poolStep (poolStart n whole) acts = some (outs, s))
    (hcast : poolStep s .broadcast = some ((), s₁)) :
    (∀ acts' outs' s', runs poolStep s₁ acts' = some (outs', s') → s'.Awake) ↔ s.Settled := by
  obtain ⟨hpast, hup, -, -, -⟩ := broadcast_step hcast
  constructor
  · intro h
    by_contra hlate
    rw [← broadcast_settled hcast] at hlate
    unfold Pool.Settled at hlate
    obtain ⟨⟨w, hw⟩, hmany⟩ := Classical.not_imp.mp hlate
    obtain ⟨acts', outs', s', hrun', hsleep⟩ := sleeps_late _ hw hup rfl (Nat.not_le.mp hmany)
    exact (h acts' outs' s' hrun').up w hsleep
  · intro hsettled acts' outs' s' hrun'
    have hwoken : s₁.Woken := ⟨hpast, hup, (broadcast_settled hcast).mpr hsettled⟩
    have hboth : s'.Ok ∧ s'.Woken := by
      refine runs_invariant (g := fun _ _ => True) (I := fun s => s.Ok ∧ s.Woken) ?_
        ⟨poolStep_ok (poolRuns_ok hrun) hcast, hwoken⟩ guarded_true hrun'
      intro s act o s' hI _ hstep
      exact ⟨poolStep_ok hI.1 hstep, poolStep_woken hI.1 hI.2 hstep⟩
    exact hboth.2.awake hboth.1

end Steps

/-- One worker, asleep when the flag is set. -/
theorem fqm_delete_wakes_one : ∃ outs s s₁,
    runs poolStep (poolStart 1 true) [.pop 0, .delete, .flag, .flag] = some (outs, s) ∧
    poolStep s .broadcast = some ((), s₁) ∧
    ((∀ acts' outs' s', runs poolStep s₁ acts' = some (outs', s') → s'.Awake) ↔ s.Settled) :=
  ⟨_, _, _, rfl, rfl, fqm_delete_wakes_iff
    (show runs poolStep (poolStart 1 true) [.pop 0, .delete, .flag, .flag] = some (_, _) from rfl)
    rfl⟩

/-- `fqm_new` fails at its second thread. The first comes to its lock after the broadcast
and sleeps. -/
theorem fqm_delete_hangs :
    ¬ ∀ (n : Nat) (whole : Bool) (acts : List (PoolAct n)) (outs : List Unit) (s s₁ : Pool n),
      runs poolStep (poolStart n whole) acts = some (outs, s) →
      poolStep s .broadcast = some ((), s₁) →
      ∀ acts' outs' s', runs poolStep s₁ acts' = some (outs', s') → s'.Awake := by
  intro h
  have hawake := h 1 false [.flag, .flag] _ _ _ rfl rfl [.pop 0] _ _ rfl
  exact hawake.up 0 rfl

end Nastd.Server
