import Nastd.Client.TableHistory
import Mathlib.Data.Finset.Card
import Mathlib.Algebra.Order.Group.Multiset
import Mathlib.Tactic.Abel

/-!
# A handle and its memory

`nast_sphincter_new` and `nast_sphincter_close` of `client/nastapi.c`, and between them the
operations on the response table, now with the blocks that they allocate and free. A step comes
with the addresses that `malloc` gives, and these may have been freed before; it is not possible
if one of them is in use. Its output says that something is freed that is not allocated.

`nast_sphincter_close` clears `nthreads` before it goes through the table by it.

* `HandleRep`, `handleStep_rep`: what is allocated, beside what other code has: the handle, its
  lock, its table, the responses, their buffers, and buffers that are lost, one for every
  response that came while the one before was still there.
* `handle_memory`: so nothing is freed twice, where the table says so, and closing a handle
  leaves its responses and their buffers behind.
-/

namespace Nastd.Client

open Nastd.Lib

/-- A `nast_response` in memory. The pointer may lead nowhere. -/
structure ResponseAt where
  block : Nat
  buffer : Option Nat
  deriving DecidableEq

/-- A `nasth` in memory, with everything that is allocated; `slots` is what `table` leads to. -/
structure HandleMem where
  live : Finset Nat
  self : Nat
  lock : Option Nat
  socket : Int
  table : Option Nat
  nthreads : Nat
  slots : List ResponseAt

/-- `free`, also of NULL. -/
def freed (live : Finset Nat) (p : Option Nat) : Finset Nat :=
  match p with
  | none => live
  | some a => live.erase a

/-- `malloc` of one block after the other. -/
def mallocs : Finset Nat → List Nat → Option (Finset Nat)
  | live, [] => some live
  | live, a :: as => if a ∈ live then none else mallocs (insert a live) as

/-! ## Closing a handle, and opening one -/

/-- The loop of `nast_sphincter_close`. -/
def freeResponses : List ResponseAt → Nat → Finset Nat → Finset Nat
  | r :: rs, n + 1, live => freeResponses rs n ((freed live r.buffer).erase r.block)
  | _, _, live => live

/-- `nast_sphincter_close`: what is still allocated, and the descriptors it closes. -/
def nastSphincterClose (s : HandleMem) : Finset Nat × List Int :=
  let s := { s with nthreads := 0 }
  let live := freed s.live s.lock
  let closed := if s.socket ≠ -1 then [s.socket] else []
  let live :=
    match s.table with
    | none => live
    | some a => (freeResponses s.slots s.nthreads live).erase a
  (live.erase s.self, closed)

/-- The calls of `nast_sphincter_new` that can fail. -/
inductive NewCall where
  | handle
  | lock
  | mutex
  | socket
  | connect
  deriving DecidableEq

/-- How `nast_sphincter_new` ends. -/
inductive NewEnd where
  | opened (s : HandleMem)
  /-- NULL: what is still allocated, and the descriptors that were closed. -/
  | failed (live : Finset Nat) (closed : List Int)

/-- `nast_sphincter_new`, with the addresses it gets, what is in the memory of the handle where
`socket` is, and the descriptor of the socket. -/
def nastSphincterNew (fails : NewCall → Bool) (live : Finset Nat) (self lock : Nat) (junk : Int)
    (fd : Nat) : Option NewEnd :=
  let close := fun s => NewEnd.failed (nastSphincterClose s).1 (nastSphincterClose s).2
  if fails .handle then some (.failed live [])
  else if self ∈ live then none
  else
    let tmpH : HandleMem := ⟨insert self live, self, none, junk, none, 0, []⟩
    if fails .lock then some (close tmpH)
    else if lock ∈ tmpH.live then none
    else
      let tmpH := { tmpH with live := insert lock tmpH.live, lock := some lock }
      if fails .mutex then some (close tmpH)
      else if fails .socket then some (close { tmpH with socket := -1 })
      else
        let tmpH := { tmpH with socket := fd }
        if fails .connect then some (close tmpH) else some (.opened tmpH)

/-! ## The table -/

inductive HandleOp where
  | grow (maxitems : UInt16) (table : Nat) (blocks : List Nat)
  | add (reqid : UInt16) (code : Byte) (body : Bytes) (a : Nat)
  | del (reqid : UInt16)

/-- Without the addresses. -/
def HandleOp.op : HandleOp → TableOp
  | grow maxitems _ _ => .grow maxitems
  | add reqid code body _ => .add reqid code body
  | del reqid => .del reqid

/-- One operation on the table; `true` for what is undefined. -/
def handleStep (s : HandleMem) : HandleOp → Option (Bool × HandleMem)
  | .grow maxitems table blocks =>
    if maxitems.toNat ≤ s.nthreads then some (false, s)
    else if blocks.length ≠ maxitems.toNat - s.nthreads then none
    else
      (mallocs (freed s.live s.table) (table :: blocks)).map fun live =>
        (false,
          { s with
            live := live
            table := some table
            nthreads := maxitems.toNat
            slots := s.slots ++ blocks.map fun b => ⟨b, none⟩ })
  | .add reqid _ _ a =>
    if reqid = 0 then some (true, s)
    else
      match s.slots[reqid.toNat - 1]? with
      | none => some (false, s)
      | some r =>
        if a ∈ s.live then none
        else
          some (false,
            { s with
              live := insert a s.live
              slots := s.slots.set (reqid.toNat - 1) { r with buffer := some a } })
  | .del reqid =>
    if reqid = 0 then some (true, s)
    else
      match s.slots[reqid.toNat - 1]? with
      | none => some (false, s)
      | some r =>
        match r.buffer with
        | none => some (false, s)
        | some a => some (decide (a ∉ s.live), { s with live := s.live.erase a })

/-- A response is there, with its buffer. -/
def holdsData (ar : NastResponse) : Bool :=
  match ar.buffer with
  | .data _ => true
  | _ => false

/-- A response comes for an id whose last one is still there. -/
def Overwrites (t : Nasth) : TableOp → Bool
  | .add reqid _ _ => (t.slot reqid).any holdsData
  | _ => false

/-! ## What is allocated -/

/-- The buffer of a response that is there. -/
def keptAt (p : ResponseAt × NastResponse) : Option Nat :=
  match p.2.buffer with
  | .data _ => p.1.buffer
  | _ => none

/-- The handle, its lock and its table. -/
def HandleMem.own (s : HandleMem) : Multiset Nat :=
  s.self ::ₘ (↑s.lock.toList + ↑s.table.toList)

/-- The slots in memory are those of the table; and everything that is allocated. -/
structure HandleRep (others : Finset Nat) (s : HandleMem) (t : Nasth) (lost : Multiset Nat)
    (ps : List (ResponseAt × NastResponse)) : Prop where
  slots : s.slots = ps.map Prod.fst
  responses : t.responses = ps.map Prod.snd
  nthreads : s.nthreads = ps.length
  same : ∀ p ∈ ps, p.1.buffer = none ↔ p.2.buffer = .null
  live : s.live.val = others.val + s.own + ↑(ps.map fun p => p.1.block) +
    ↑(ps.filterMap keptAt) + lost

theorem mallocs_val : ∀ {as : List Nat} {live live' : Finset Nat}, mallocs live as = some live' →
    live'.val = ↑as + live.val := by
  intro as
  induction as with
  | nil =>
    intro live live' h
    obtain rfl := Option.some.inj h
    exact (zero_add _).symm
  | cons a as ih =>
    intro live live' h
    rw [mallocs] at h
    split at h
    · exact absurd h (by simp)
    · next ha =>
      rw [ih h, Finset.insert_val_of_notMem ha, ← Multiset.cons_coe, ← Multiset.singleton_add,
        ← Multiset.singleton_add]
      abel

theorem freed_val {live : Finset Nat} {p : Option Nat} {rest : Multiset Nat}
    (h : live.val = ↑p.toList + rest) : (freed live p).val = rest := by
  cases p with
  | none => exact h.trans (zero_add _)
  | some a =>
    rw [freed, Finset.erase_val, h]
    exact Multiset.erase_cons_head a rest

/-- A slot that changes, and the others. -/
theorem perm_set {α : Type} {l : List α} {i : Nat} {x y : α} (h : l[i]? = some x) :
    l.Perm (x :: l.eraseIdx i) ∧ (l.set i y).Perm (y :: l.eraseIdx i) := by
  obtain ⟨hi, rfl⟩ := List.getElem?_eq_some_iff.mp h
  have hi' : i < (l.set i y).length := by
    rw [List.length_set]
    exact hi
  refine ⟨(List.getElem_cons_eraseIdx_perm hi).symm, ?_⟩
  have hset := (List.getElem_cons_eraseIdx_perm hi').symm
  rwa [List.getElem_set_self, List.eraseIdx_set_eq] at hset

section Steps

variable {others : Finset Nat} {s s' : HandleMem} {t t' : Nasth} {lost : Multiset Nat}
  {ps : List (ResponseAt × NastResponse)} {reqid : UInt16}

/-- A slot of the handle is one of the table. -/
theorem HandleRep.slot_at (h : HandleRep others s t lost ps) (i : Nat) :
    s.slots[i]? = (ps[i]?).map Prod.fst ∧ t.responses[i]? = (ps[i]?).map Prod.snd := by
  rw [h.slots, h.responses, List.getElem?_map, List.getElem?_map]
  exact ⟨rfl, rfl⟩

/-- A response that is there has a buffer. -/
theorem HandleRep.keptAt_isSome (h : HandleRep others s t lost ps)
    {p : ResponseAt × NastResponse} (hp : p ∈ ps) : (keptAt p).isSome = holdsData p.2 := by
  have hsame := h.same p hp
  unfold keptAt holdsData
  cases hb : p.2.buffer with
  | null => rfl
  | freed => rfl
  | data body =>
    rw [hb] at hsame
    exact Option.isSome_iff_ne_none.mpr fun hnone => absurd (hsame.mp hnone) (by simp)

/-- The slot `i` is given another content, and blocks come and go with it. -/
theorem HandleRep.set (h : HandleRep others s t lost ps) {i : Nat}
    {p q : ResponseAt × NastResponse} (hp : ps[i]? = some p) {lost' : Multiset Nat}
    (hslots : s'.slots = s.slots.set i q.1) (hresponses : t'.responses = t.responses.set i q.2)
    (hnthreads : s'.nthreads = s.nthreads) (hown : s'.own = s.own)
    (hblock : q.1.block = p.1.block) (hsame : q.1.buffer = none ↔ q.2.buffer = .null)
    (hlive : ∀ rest : Multiset Nat, s.live.val = ↑(keptAt p).toList + lost + rest →
      s'.live.val = ↑(keptAt q).toList + lost' + rest) :
    HandleRep others s' t' lost' (ps.set i q) := by
  obtain ⟨hold, hnew⟩ := perm_set (y := q) hp
  have hkept : ∀ r : ResponseAt × NastResponse, ((r :: ps.eraseIdx i).filterMap keptAt : List Nat)
      = (keptAt r).toList ++ (ps.eraseIdx i).filterMap keptAt := by
    intro r
    rw [List.filterMap_cons]
    cases keptAt r with
    | none => rfl
    | some a => rfl
  refine ⟨?_, ?_, ?_, fun r hr => ?_, ?_⟩
  · rw [hslots, h.slots, List.map_set]
  · rw [hresponses, h.responses, List.map_set]
  · rw [hnthreads, h.nthreads, List.length_set]
  · rcases List.mem_or_eq_of_mem_set hr with hr | rfl
    · exact h.same r hr
    · exact hsame
  · have hlive' := h.live
    rw [Multiset.coe_eq_coe.mpr (hold.map fun p => p.1.block),
      Multiset.coe_eq_coe.mpr (hold.filterMap keptAt), hkept, ← Multiset.coe_add] at hlive'
    rw [Multiset.coe_eq_coe.mpr (hnew.map fun p => p.1.block),
      Multiset.coe_eq_coe.mpr (hnew.filterMap keptAt), hkept, ← Multiset.coe_add, hown,
      List.map_cons, hblock,
      hlive (others.val + s.own + ↑((p :: ps.eraseIdx i).map fun p => p.1.block) +
        ↑((ps.eraseIdx i).filterMap keptAt)) (hlive'.trans (by abel)), List.map_cons]
    abel

/-- What `addresponse` does to the table. -/
theorem addresponse_responses {code : Byte} {body : Bytes}
    (h : addresponse t reqid code body = some t') :
    reqid ≠ 0 ∧ t'.responses =
      match t.responses[reqid.toNat - 1]? with
      | none => t.responses
      | some _ =>
        t.responses.set (reqid.toNat - 1) ⟨.data body, body.length, errcodeOf code, reqid⟩ := by
  unfold addresponse nastSetError Nasth.modify at h
  by_cases hr : reqid = 0
  · rw [if_pos hr] at h
    exact absurd h (by simp)
  · refine ⟨hr, ?_⟩
    simp only [if_neg hr] at h
    cases hslot : t.responses[reqid.toNat - 1]? with
    | none =>
      simp only [hslot, Option.bind_some] at h
      exact congrArg Nasth.responses (Option.some.inj h).symm
    | some ar =>
      have hi := (List.getElem?_eq_some_iff.mp hslot).1
      simp only [hslot, Option.map_some, Option.bind_some, List.getElem?_set_self hi,
        List.set_set] at h
      exact congrArg Nasth.responses (Option.some.inj h).symm

/-- What `delresponse` does to the table. -/
theorem delresponse_responses (h : delresponse t reqid = some t') :
    reqid ≠ 0 ∧ (t.responses[reqid.toNat - 1]? = none → t'.responses = t.responses) ∧
      ∀ ar, t.responses[reqid.toNat - 1]? = some ar → ∃ buffer,
        t'.responses = t.responses.set (reqid.toNat - 1)
          { ar with reqid := 0xffff, bufflen := 0, buffer := buffer } ∧
        (ar.buffer = .null ∧ buffer = .null ∨
          (∃ body, ar.buffer = .data body) ∧ buffer = .freed) := by
  unfold delresponse Nasth.modify at h
  by_cases hr : reqid = 0
  · rw [if_pos hr] at h
    exact absurd h (by simp)
  · rw [if_neg hr] at h
    refine ⟨hr, fun hslot => ?_, fun ar hslot => ?_⟩
    · rw [hslot] at h
      exact congrArg Nasth.responses (Option.some.inj h).symm
    · rw [hslot] at h
      obtain ⟨ar', har, rfl⟩ := Option.map_eq_some_iff.mp h
      cases hb : ar.buffer with
      | null =>
        simp only [hb] at har
        obtain rfl := Option.some.inj har
        exact ⟨.null, rfl, Or.inl ⟨rfl, rfl⟩⟩
      | data body =>
        simp only [hb] at har
        obtain rfl := Option.some.inj har
        exact ⟨.freed, rfl, Or.inr ⟨⟨body, rfl⟩, rfl⟩⟩
      | freed =>
        simp only [hb] at har
        exact absurd har (by simp)

/-- Growing the table. -/
theorem HandleRep.grow {maxitems : UInt16} {table : Nat} {blocks : List Nat} {o : Bool}
    (h : HandleRep others s t lost ps)
    (hstep : handleStep s (.grow maxitems table blocks) = some (o, s')) :
    o = false ∧ ∃ ps', HandleRep others s' (growResponses t maxitems) lost ps' := by
  have hlen : t.nthreads = ps.length := by
    unfold Nasth.nthreads
    rw [h.responses, List.length_map]
  have hnthreads := h.nthreads
  rw [handleStep] at hstep
  split at hstep
  next hle =>
    obtain ⟨rfl, rfl⟩ := Prod.mk.inj (Option.some.inj hstep)
    refine ⟨rfl, ps, ?_⟩
    unfold growResponses
    rw [show maxitems.toNat - t.nthreads = 0 by omega, List.replicate_zero, List.append_nil]
    exact h
  next hle =>
    split at hstep
    next => exact absurd hstep (by simp)
    next hblocks =>
      rw [Classical.not_not] at hblocks
      obtain ⟨live, hlive, heq⟩ := Option.map_eq_some_iff.mp hstep
      obtain ⟨rfl, rfl⟩ := Prod.mk.inj heq
      refine ⟨rfl, ps ++ blocks.map fun b => (⟨b, none⟩, responseNew), ?_⟩
      refine ⟨?_, ?_, ?_, fun q hq => ?_, ?_⟩
      · show s.slots ++ _ = _
        rw [h.slots, List.map_append, List.map_map]
        rfl
      · unfold growResponses
        rw [h.responses, show maxitems.toNat - t.nthreads = blocks.length by omega,
          List.map_append, List.map_map]
        exact congrArg (ps.map Prod.snd ++ ·) List.map_const.symm
      · show maxitems.toNat = _
        rw [List.length_append, List.length_map]
        omega
      · rcases List.mem_append.mp hq with hq | hq
        · exact h.same q hq
        · obtain ⟨b, -, rfl⟩ := List.mem_map.mp hq
          exact iff_of_true rfl rfl
      · -- the old table is freed, and the new slots have no buffers yet
        have hkept : (blocks.map fun b => (⟨b, none⟩, responseNew)).filterMap keptAt = [] := by
          rw [List.filterMap_map]
          exact List.filterMap_eq_nil_iff.mpr fun b _ => rfl
        have hblock : blocks.map ((fun p : ResponseAt × NastResponse => p.1.block) ∘
            fun b => (⟨b, none⟩, responseNew)) = blocks := List.map_id _
        have hbefore : s.live.val = ↑s.table.toList + (others.val + (s.self ::ₘ ↑s.lock.toList) +
            ↑(ps.map fun p => p.1.block) + ↑(ps.filterMap keptAt) + lost) := by
          rw [h.live]
          unfold HandleMem.own
          rw [← Multiset.singleton_add, ← Multiset.singleton_add]
          abel
        have hafter := mallocs_val hlive
        rw [freed_val hbefore] at hafter
        show live.val = others.val + (s.self ::ₘ (↑s.lock.toList + {table})) + _ + _ + lost
        rw [hafter, List.map_append, List.filterMap_append, hkept, List.append_nil, List.map_map,
          hblock, ← Multiset.coe_add, ← Multiset.cons_coe, ← Multiset.singleton_add,
          ← Multiset.singleton_add, ← Multiset.singleton_add]
        abel

/-- A response for a slot that is not there changes nothing. -/
theorem HandleRep.congr (h : HandleRep others s t lost ps) (ht : t'.responses = t.responses) :
    HandleRep others s t' lost ps :=
  ⟨h.slots, ht.trans h.responses, h.nthreads, h.same, h.live⟩

/-- A response loses the buffer that it overwrites. -/
theorem HandleRep.add {code : Byte} {body : Bytes} {a : Nat} {o : Bool}
    (h : HandleRep others s t lost ps)
    (hstep : handleStep s (.add reqid code body a) = some (o, s'))
    (htab : addresponse t reqid code body = some t') :
    o = false ∧ ∃ lost' ps', HandleRep others s' t' lost' ps' ∧
      lost'.card = lost.card + if Overwrites t (.add reqid code body) then 1 else 0 := by
  obtain ⟨hr, hresponses⟩ := addresponse_responses htab
  obtain ⟨hslot, hresp⟩ := h.slot_at (reqid.toNat - 1)
  have hover : Overwrites t (.add reqid code body)
      = ((ps[reqid.toNat - 1]?).bind keptAt).isSome := by
    simp only [Overwrites, slot_eq hr, hresp]
    cases hp : ps[reqid.toNat - 1]? with
    | none => rfl
    | some p => exact (h.keptAt_isSome (List.mem_of_getElem? hp)).symm
  rw [hover]
  rw [hresp] at hresponses
  simp only [handleStep, if_neg hr, hslot] at hstep
  cases hp : ps[reqid.toNat - 1]? with
  | none =>
    simp only [hp, Option.map_none] at hstep hresponses
    obtain ⟨rfl, rfl⟩ := Prod.mk.inj (Option.some.inj hstep)
    exact ⟨rfl, lost, ps, h.congr hresponses, rfl⟩
  | some p =>
    simp only [hp, Option.map_some] at hstep hresponses
    split at hstep
    next => exact absurd hstep (by simp)
    next ha =>
      obtain ⟨rfl, rfl⟩ := Prod.mk.inj (Option.some.inj hstep)
      -- the buffer that the pointer led to is nobody's any more
      refine ⟨rfl, ↑(keptAt p).toList + lost, _,
        h.set (q := (⟨p.1.block, some a⟩, ⟨.data body, body.length, errcodeOf code, reqid⟩)) hp rfl
          hresponses rfl rfl rfl (iff_of_false (by simp) (by simp)) fun rest hrest => ?_, ?_⟩
      · show (insert a s.live).val = {a} + (↑(keptAt p).toList + lost) + rest
        rw [Finset.insert_val_of_notMem ha, hrest, ← Multiset.singleton_add]
        abel
      · rw [Option.bind_some, Multiset.card_add, Nat.add_comm]
        cases keptAt p <;> rfl

/-- What `delresponse` frees is allocated. -/
theorem HandleRep.del {o : Bool} (h : HandleRep others s t lost ps)
    (hstep : handleStep s (.del reqid) = some (o, s')) (htab : delresponse t reqid = some t') :
    o = false ∧ ∃ ps', HandleRep others s' t' lost ps' := by
  obtain ⟨hr, hnone, hsome⟩ := delresponse_responses htab
  obtain ⟨hslot, hresp⟩ := h.slot_at (reqid.toNat - 1)
  simp only [handleStep, if_neg hr, hslot] at hstep
  cases hp : ps[reqid.toNat - 1]? with
  | none =>
    rw [hp] at hresp
    simp only [hp, Option.map_none] at hstep
    obtain ⟨rfl, rfl⟩ := Prod.mk.inj (Option.some.inj hstep)
    exact ⟨rfl, ps, h.congr (hnone hresp)⟩
  | some p =>
    rw [hp] at hresp
    have hsame := h.same p (List.mem_of_getElem? hp)
    obtain ⟨buffer, hresponses, hbuffer⟩ := hsome p.2 hresp
    simp only [hp, Option.map_some] at hstep
    cases hb : p.1.buffer with
    | none =>
      -- there never was a response here
      simp only [hb] at hstep
      obtain ⟨rfl, rfl⟩ := Prod.mk.inj (Option.some.inj hstep)
      have hnull := hsame.mp hb
      have hnull' : buffer = .null := by
        rcases hbuffer with ⟨-, hbuffer⟩ | ⟨⟨body, hdata⟩, -⟩
        · exact hbuffer
        · exact absurd (hnull.symm.trans hdata) (by simp)
      have hkept : keptAt p = none := by rw [keptAt, hnull]
      refine ⟨rfl, _, h.set (q := (p.1, _)) hp ?_ hresponses rfl rfl rfl (iff_of_true hb hnull')
        fun rest hrest => ?_⟩
      · rw [hp] at hslot
        obtain ⟨hi, heq⟩ := List.getElem?_eq_some_iff.mp hslot
        rw [← heq, List.set_getElem_self]
      · rw [hkept] at hrest
        rw [hrest, keptAt, hnull']
    | some a =>
      have hdata : (∃ body, p.2.buffer = .data body) ∧ buffer = .freed := by
        rcases hbuffer with ⟨hnull, -⟩ | hdata
        · exact absurd (hb.symm.trans (hsame.mpr hnull)) (by simp)
        · exact hdata
      obtain ⟨⟨body, hdata⟩, hfreed⟩ := hdata
      have hkept : keptAt p = some a := by rw [keptAt, hdata, hb]
      have hmem : a ∈ s.live := by
        rw [← Finset.mem_val, h.live]
        refine Multiset.mem_add.mpr (Or.inl (Multiset.mem_add.mpr (Or.inr ?_)))
        exact List.mem_filterMap.mpr ⟨p, List.mem_of_getElem? hp, hkept⟩
      simp only [hb, hmem, not_true_eq_false, decide_false] at hstep
      obtain ⟨rfl, rfl⟩ := Prod.mk.inj (Option.some.inj hstep)
      refine ⟨rfl, _, h.set (q := (p.1, _)) hp ?_ hresponses rfl rfl rfl
        (iff_of_false (by simp [hb]) (by simp [hfreed])) fun rest hrest => ?_⟩
      · rw [hp] at hslot
        obtain ⟨hi, heq⟩ := List.getElem?_eq_some_iff.mp hslot
        show s.slots = _
        rw [← heq, List.set_getElem_self]
      · show (s.live.erase a).val = _
        rw [hkept] at hrest
        rw [Finset.erase_val, hrest, keptAt, hfreed]
        show (({a} : Multiset Nat) + lost + rest).erase a = 0 + lost + rest
        rw [add_assoc, Multiset.singleton_add, Multiset.erase_cons_head, zero_add]

/-- An operation that the table can take frees nothing that is not allocated, and loses a buffer
if it overwrites one. -/
theorem handleStep_rep {op : HandleOp} {o : Bool} (h : HandleRep others s t lost ps)
    (hstep : handleStep s op = some (o, s')) (htab : tableStep t op.op = some ((), t')) :
    o = false ∧ ∃ lost' ps', HandleRep others s' t' lost' ps' ∧
      lost'.card = lost.card + if Overwrites t op.op then 1 else 0 := by
  cases op with
  | grow maxitems table blocks =>
    obtain rfl : growResponses t maxitems = t' := congrArg Prod.snd (Option.some.inj htab)
    obtain ⟨ho, ps', hps'⟩ := h.grow hstep
    exact ⟨ho, lost, ps', hps', rfl⟩
  | add reqid code body a =>
    obtain ⟨u, hadd, heq⟩ := Option.map_eq_some_iff.mp htab
    obtain rfl : u = t' := congrArg Prod.snd heq
    exact h.add hstep hadd
  | del reqid =>
    obtain ⟨u, hdel, heq⟩ := Option.map_eq_some_iff.mp htab
    obtain rfl : u = t' := congrArg Prod.snd heq
    obtain ⟨ho, ps', hps'⟩ := h.del hstep hdel
    exact ⟨ho, lost, ps', hps', rfl⟩

/-- The handle itself stays. -/
theorem handleStep_frame {op : HandleOp} {o : Bool} (hstep : handleStep s op = some (o, s')) :
    s'.lock = s.lock ∧ s'.socket = s.socket := by
  cases op with
  | grow maxitems table blocks =>
    rw [handleStep] at hstep
    split at hstep
    · obtain ⟨-, rfl⟩ := Prod.mk.inj (Option.some.inj hstep)
      exact ⟨rfl, rfl⟩
    · split at hstep
      · exact absurd hstep (by simp)
      · obtain ⟨live, -, heq⟩ := Option.map_eq_some_iff.mp hstep
        obtain ⟨-, rfl⟩ := Prod.mk.inj heq
        exact ⟨rfl, rfl⟩
  | add reqid code body a =>
    rw [handleStep] at hstep
    split at hstep
    · obtain ⟨-, rfl⟩ := Prod.mk.inj (Option.some.inj hstep)
      exact ⟨rfl, rfl⟩
    · split at hstep
      · obtain ⟨-, rfl⟩ := Prod.mk.inj (Option.some.inj hstep)
        exact ⟨rfl, rfl⟩
      · split at hstep
        · exact absurd hstep (by simp)
        · obtain ⟨-, rfl⟩ := Prod.mk.inj (Option.some.inj hstep)
          exact ⟨rfl, rfl⟩
  | del reqid =>
    rw [handleStep] at hstep
    split at hstep
    · obtain ⟨-, rfl⟩ := Prod.mk.inj (Option.some.inj hstep)
      exact ⟨rfl, rfl⟩
    · split at hstep
      · obtain ⟨-, rfl⟩ := Prod.mk.inj (Option.some.inj hstep)
        exact ⟨rfl, rfl⟩
      · split at hstep
        · obtain ⟨-, rfl⟩ := Prod.mk.inj (Option.some.inj hstep)
          exact ⟨rfl, rfl⟩
        · obtain ⟨-, rfl⟩ := Prod.mk.inj (Option.some.inj hstep)
          exact ⟨rfl, rfl⟩

end Steps

/-! ## From opening to closing -/

section Runs

variable {others : Finset Nat} {s s' : HandleMem} {t t' : Nasth} {lost : Multiset Nat}
  {ps : List (ResponseAt × NastResponse)}

/-- A run that the table can take. -/
theorem handleRuns_rep {ops : List HandleOp} :
    ∀ {s : HandleMem} {t : Nasth} {lost : Multiset Nat} {ps : List (ResponseAt × NastResponse)}
      {outs : List Bool} {us : List Unit}, HandleRep others s t lost ps →
      runs handleStep s ops = some (outs, s') →
      runs tableStep t (ops.map HandleOp.op) = some (us, t') →
      (∀ o ∈ outs, o = false) ∧ s'.lock = s.lock ∧ s'.socket = s.socket ∧
        ∃ lost' ps', HandleRep others s' t' lost' ps' ∧
          lost'.card = lost.card + stepsWith tableStep Overwrites t (ops.map HandleOp.op) := by
  induction ops with
  | nil =>
    intro s t lost ps outs us h hrun htab
    obtain ⟨rfl, rfl⟩ := Prod.mk.inj (Option.some.inj hrun)
    obtain ⟨-, rfl⟩ := Prod.mk.inj (Option.some.inj htab)
    exact ⟨by simp, rfl, rfl, lost, ps, h, rfl⟩
  | cons op ops ih =>
    intro s t lost ps outs us h hrun htab
    obtain ⟨o, s₁, outs', hstep, hrest, rfl⟩ := runs_cons.mp hrun
    obtain ⟨u, t₁, us', htstep, htrest, -⟩ := runs_cons.mp htab
    obtain ⟨ho, lost₁, ps₁, h₁, hlost₁⟩ := handleStep_rep h hstep htstep
    obtain ⟨hlock₁, hsocket₁⟩ := handleStep_frame hstep
    obtain ⟨houts, hlock, hsocket, lost', ps', h', hlost'⟩ := ih h₁ hrest htrest
    refine ⟨fun o' ho' => ?_, hlock.trans hlock₁, hsocket.trans hsocket₁, lost', ps', h', ?_⟩
    · rcases List.mem_cons.mp ho' with rfl | ho'
      · exact ho
      · exact houts o' ho'
    · rw [hlost', hlost₁, List.map_cons, stepsWith, htstep]
      dsimp only
      omega

/-- `nast_sphincter_close` frees the handle, its lock and its table. -/
theorem HandleRep.close (h : HandleRep others s t lost ps) :
    (nastSphincterClose s).1.val = others.val + (↑(ps.map fun p => p.1.block) +
      ↑(ps.filterMap keptAt) + lost) := by
  have hnone : ∀ live, freeResponses s.slots 0 live = live := fun live => by
    cases s.slots <;> rfl
  have hlive : s.live.val = ↑s.lock.toList + (↑s.table.toList + (s.self ::ₘ (others.val +
      (↑(ps.map fun p => p.1.block) + ↑(ps.filterMap keptAt) + lost)))) := by
    rw [h.live]
    unfold HandleMem.own
    rw [← Multiset.singleton_add, ← Multiset.singleton_add]
    abel
  have hlock := freed_val hlive
  have htable : (match s.table with
      | none => freed s.live s.lock
      | some a => (freeResponses s.slots 0 (freed s.live s.lock)).erase a)
        = freed (freed s.live s.lock) s.table := by
    cases s.table with
    | none => rfl
    | some a => exact congrArg (Finset.erase · a) (hnone _)
  show Multiset.erase (Finset.val (match s.table with
    | none => freed s.live s.lock
    | some a => (freeResponses s.slots 0 (freed s.live s.lock)).erase a)) s.self = _
  rw [htable, freed_val hlock, Multiset.erase_cons_head]

/-- How many buffers are there. -/
theorem HandleRep.card_kept (h : HandleRep others s t lost ps) :
    (ps.filterMap keptAt).length = t.responses.countP holdsData := by
  rw [h.responses, List.countP_map, List.length_filterMap_eq_countP]
  exact List.countP_congr fun p hp => by
    rw [h.keptAt_isSome hp]
    rfl

/-- A handle that was opened. -/
theorem nastSphincterNew_opened {fails : NewCall → Bool} {self lock : Nat} {junk : Int} {fd : Nat}
    (h : nastSphincterNew fails others self lock junk fd = some (.opened s)) :
    HandleRep others s tableStart 0 [] ∧ s.socket = fd := by
  unfold nastSphincterNew at h
  dsimp only at h
  split at h
  · exact absurd h (by simp)
  split at h
  · exact absurd h (by simp)
  next hself =>
    split at h
    · exact absurd h (by simp)
    split at h
    · exact absurd h (by simp)
    next hlock =>
      split at h
      · exact absurd h (by simp)
      split at h
      · exact absurd h (by simp)
      split at h
      · exact absurd h (by simp)
      obtain rfl := NewEnd.opened.inj (Option.some.inj h)
      refine ⟨⟨rfl, rfl, rfl, by simp, ?_⟩, rfl⟩
      show (insert lock (insert self others)).val = others.val + (self ::ₘ ({lock} + 0)) + 0 + 0 + 0
      rw [Finset.insert_val_of_notMem hlock, Finset.insert_val_of_notMem hself,
        ← Multiset.singleton_add, ← Multiset.singleton_add, ← Multiset.singleton_add]
      abel

/-- A handle that was not opened leaves nothing behind. But before there is a socket, what is
closed is the descriptor that the memory of the handle happens to hold. -/
theorem nastSphincterNew_failed {fails : NewCall → Bool} {self lock : Nat} {junk : Int} {fd : Nat}
    {live : Finset Nat} {closed : List Int}
    (h : nastSphincterNew fails others self lock junk fd = some (.failed live closed)) :
    live = others ∧ closed =
      if fails .handle then []
      else if fails .lock ∨ fails .mutex then if junk ≠ -1 then [junk] else []
      else if fails .socket then []
      else [(fd : Int)] := by
  unfold nastSphincterNew at h
  dsimp only at h
  by_cases hhandle : fails .handle = true
  · rw [if_pos hhandle] at h
    obtain ⟨rfl, rfl⟩ := NewEnd.failed.inj (Option.some.inj h)
    rw [if_pos hhandle]
    exact ⟨rfl, rfl⟩
  rw [if_neg hhandle] at h ⊢
  split at h
  · exact absurd h (by simp)
  next hself =>
    by_cases hlock : fails .lock = true
    · rw [if_pos hlock] at h
      obtain ⟨rfl, rfl⟩ := NewEnd.failed.inj (Option.some.inj h)
      rw [if_pos (Or.inl hlock)]
      exact ⟨Finset.erase_insert hself, rfl⟩
    rw [if_neg hlock] at h
    split at h
    · exact absurd h (by simp)
    next hnew =>
      have hback : ((insert lock (insert self others)).erase lock).erase self = others := by
        rw [Finset.erase_insert hnew, Finset.erase_insert hself]
      by_cases hmutex : fails .mutex = true
      · rw [if_pos hmutex] at h
        obtain ⟨rfl, rfl⟩ := NewEnd.failed.inj (Option.some.inj h)
        rw [if_pos (Or.inr hmutex)]
        exact ⟨hback, rfl⟩
      rw [if_neg hmutex] at h
      rw [if_neg (not_or.mpr ⟨hlock, hmutex⟩)]
      by_cases hsocket : fails .socket = true
      · rw [if_pos hsocket] at h
        obtain ⟨rfl, rfl⟩ := NewEnd.failed.inj (Option.some.inj h)
        rw [if_pos hsocket]
        exact ⟨hback, rfl⟩
      rw [if_neg hsocket] at h ⊢
      split at h
      · obtain ⟨rfl, rfl⟩ := NewEnd.failed.inj (Option.some.inj h)
        have hclosed : (if (fd : Int) ≠ -1 then [(fd : Int)] else []) = [(fd : Int)] :=
          if_pos (by omega)
        exact ⟨hback, hclosed⟩
      · exact absurd h (by simp)

/-- **A handle and its memory.** A handle is opened, any operations on its table follow, none
of which is for id 0 or frees a buffer for the second time, and it is closed. Then nothing was
freed that was not allocated, whatever addresses `malloc` gave. Closing frees the handle, its
lock and its table and closes its socket; but every response it had room for stays allocated,
with the buffers of those that are there and those that were overwritten before they were
deleted. -/
theorem handle_memory {self lock : Nat} {junk : Int} {fd : Nat} {s₀ : HandleMem}
    {ops : List HandleOp} {outs : List Bool} {us : List Unit}
    (hnew : nastSphincterNew (fun _ => false) others self lock junk fd = some (.opened s₀))
    (hrun : runs handleStep s₀ ops = some (outs, s))
    (htable : runs tableStep tableStart (ops.map HandleOp.op) = some (us, t)) :
    (∀ o ∈ outs, o = false) ∧ (nastSphincterClose s).2 = [(fd : Int)] ∧
      ∃ left : Multiset Nat, (nastSphincterClose s).1.val = others.val + left ∧
        s.live.val = others.val + s.own + left ∧
        left.card = t.nthreads + t.responses.countP holdsData +
          stepsWith tableStep Overwrites tableStart (ops.map HandleOp.op) := by
  obtain ⟨h₀, hsocket₀⟩ := nastSphincterNew_opened hnew
  obtain ⟨houts, -, hsocket, lost, ps, h, hlost⟩ := handleRuns_rep h₀ hrun htable
  refine ⟨houts, ?_, _, h.close, ?_, ?_⟩
  · show (if s.socket ≠ -1 then [s.socket] else []) = _
    rw [hsocket, hsocket₀, if_pos (by omega)]
  · rw [h.live]
    abel
  · rw [Multiset.card_add, Multiset.card_add, Multiset.coe_card, Multiset.coe_card, hlost,
      h.card_kept, List.length_map]
    unfold Nasth.nthreads
    rw [h.responses, List.length_map, Multiset.card_zero, Nat.zero_add]

/-- Two responses come for thread 1, and the first is lost. -/
theorem handle_memory_twice :
    ∃ s₀ outs s, nastSphincterNew (fun _ => false) ∅ 0 1 7 3 = some (.opened s₀) ∧
      runs handleStep s₀ [.grow 1 2 [3], .add 1 NASTOK [65] 4, .add 1 NASTOK [66] 5]
        = some (outs, s) ∧ (nastSphincterClose s).1.card = 3 := by
  have hnew : nastSphincterNew (fun _ => false) ∅ 0 1 7 3
      = some (.opened ⟨{1, 0}, 0, some 1, 3, none, 0, []⟩) := rfl
  have hrun : (runs handleStep ⟨{1, 0}, 0, some 1, 3, none, 0, []⟩
      [.grow 1 2 [3], .add 1 NASTOK [65] 4, .add 1 NASTOK [66] 5]).isSome = true := rfl
  have htable : runs tableStep tableStart [.grow 1, .add 1 NASTOK [65], .add 1 NASTOK [66]]
      = some ([(), (), ()], ⟨[⟨.data [66], 1, .NAST_OK, 1⟩]⟩) := rfl
  obtain ⟨⟨outs, s⟩, hrun⟩ := Option.isSome_iff_exists.mp hrun
  obtain ⟨-, -, left, hleft, -, hcard⟩ := handle_memory hnew hrun htable
  refine ⟨_, outs, s, hnew, hrun, ?_⟩
  rw [Finset.card_def, hleft, Multiset.card_add, hcard]
  rfl

end Runs

end Nastd.Client
