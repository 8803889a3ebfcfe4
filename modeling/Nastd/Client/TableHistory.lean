import Nastd.Client.Responses
import Nastd.Lib.Run

/-!
# What the response table remembers

`grow_responses`, `addresponse` and `delresponse` on one handle, in any order. `latest` reads
off the operations what should be stored for an id: the response added last, unless it was
deleted since. The slot of an id is that (`TableInv`), and `checkresponse` says whether
there is one, with these exceptions: there is no slot for id 0; the response of id 65535
looks like none, because its id is the mark of an empty slot; and a second `delresponse`
frees the buffer of the first one again.
-/

namespace Nastd.Client

open Nastd.Lib

inductive TableOp where
  | grow (maxitems : UInt16)
  | add (reqid : UInt16) (code : Byte) (body : Bytes)
  | del (reqid : UInt16)

namespace TableOp

/-- The id an operation is for. -/
def id : TableOp → Option UInt16
  | grow _ => none
  | add reqid _ _ => some reqid
  | del reqid => some reqid

/-- What an operation makes of what is stored for `r`. -/
def store (r : UInt16) (stored : Option (Byte × Bytes)) : TableOp → Option (Byte × Bytes)
  | grow _ => stored
  | add reqid code body => if reqid = r then some (code, body) else stored
  | del reqid => if reqid = r then none else stored

end TableOp

/-- The response for `r` that was added last, if it was not deleted since. -/
def latest (r : UInt16) (ops : List TableOp) : Option (Byte × Bytes) :=
  ops.foldl (fun stored op => op.store r stored) none

/-- A response for `r` was added at some time. -/
def WasAdded (r : UInt16) (ops : List TableOp) : Prop := ∃ code body, TableOp.add r code body ∈ ops

def tableStep (s : Nasth) : TableOp → Option (Unit × Nasth)
  | .grow maxitems => some ((), growResponses s maxitems)
  | .add reqid code body => (addresponse s reqid code body).map fun s' => ((), s')
  | .del reqid => (delresponse s reqid).map fun s' => ((), s')

/-- The handle of `nast_sphincter_new`. -/
def tableStart : Nasth := ⟨[]⟩

/-- The table was grown for the id before, as `sendcmd` does. -/
def GrownFor (done : List TableOp) (op : TableOp) : Prop :=
  ∀ r, op.id = some r → ∃ m, TableOp.grow m ∈ done ∧ r ≤ m

/-- The id is not 0, and a response is there to delete if ever one was. -/
def SafeOp (done : List TableOp) (op : TableOp) : Prop :=
  op.id ≠ some 0 ∧ ∀ r, op = .del r → WasAdded r done → (latest r done).isSome

/-- `checkresponse` says whether a response is stored for `r`, and that is the latest. -/
structure ExactAt (ops : List TableOp) (s : Nasth) (r : UInt16) : Prop where
  check : checkresponse s r = some (if (latest r ops).isSome then 0 else -1)
  stored : ∀ code body, latest r ops = some (code, body) →
    s.slot r = some ⟨.data body, body.length, errcodeOf code, r⟩

/-! ## Histories -/

theorem latest_append (r : UInt16) (done : List TableOp) (op : TableOp) :
    latest r (done ++ [op]) = op.store r (latest r done) := by
  unfold latest
  rw [List.foldl_append]
  rfl

theorem store_other {r : UInt16} {op : TableOp} (h : op.id ≠ some r)
    (stored : Option (Byte × Bytes)) : op.store r stored = stored := by
  cases op with
  | grow m => rfl
  | add reqid code body => exact if_neg fun he => h (congrArg some he)
  | del reqid => exact if_neg fun he => h (congrArg some he)

theorem added_append {r : UInt16} {done : List TableOp} {op : TableOp} :
    WasAdded r (done ++ [op]) ↔ WasAdded r done ∨ ∃ code body, op = .add r code body := by
  constructor
  · intro ⟨code, body, hmem⟩
    rcases List.mem_append.mp hmem with hmem | hmem
    · exact Or.inl ⟨code, body, hmem⟩
    · exact Or.inr ⟨code, body, (List.mem_singleton.mp hmem).symm⟩
  · intro h
    rcases h with ⟨code, body, hmem⟩ | ⟨code, body, rfl⟩
    · exact ⟨code, body, List.mem_append_left _ hmem⟩
    · exact ⟨code, body, List.mem_append_right _ (List.mem_singleton_self _)⟩

theorem added_other {r : UInt16} {done : List TableOp} {op : TableOp} (h : op.id ≠ some r) :
    WasAdded r (done ++ [op]) ↔ WasAdded r done := by
  rw [added_append]
  refine or_iff_left fun ⟨code, body, he⟩ => ?_
  rw [he] at h
  exact h rfl

theorem added_cons {r : UInt16} {op : TableOp} {ops : List TableOp} (h : WasAdded r ops) :
    WasAdded r (op :: ops) := by
  obtain ⟨code, body, hmem⟩ := h
  exact ⟨code, body, List.mem_cons_of_mem _ hmem⟩

/-- What is stored was stored before, or added. -/
theorem added_of_foldl {r : UInt16} {x : Byte × Bytes} (ops : List TableOp) :
    ∀ stored, ops.foldl (fun stored op => op.store r stored) stored = some x →
      stored = some x ∨ WasAdded r ops := by
  induction ops with
  | nil =>
    intro stored h
    exact Or.inl h
  | cons op ops ih =>
    intro stored h
    rcases ih _ h with hstored | hadd
    · cases op with
      | grow m => exact Or.inl hstored
      | add reqid code body =>
        simp only [TableOp.store] at hstored
        split at hstored
        · next he =>
          rw [he]
          exact Or.inr ⟨code, body, List.mem_cons_self ..⟩
        · exact Or.inl hstored
      | del reqid =>
        simp only [TableOp.store] at hstored
        split at hstored
        · exact absurd hstored (by simp)
        · exact Or.inl hstored
    · exact Or.inr (added_cons hadd)

theorem added_of_latest {r : UInt16} {x : Byte × Bytes} {ops : List TableOp}
    (h : latest r ops = some x) : WasAdded r ops :=
  (added_of_foldl ops none h).resolve_left (by simp)

/-- Nothing is stored for an id that no operation was for. -/
theorem latest_of_unused {r : UInt16} {ops : List TableOp} (h : ∀ op ∈ ops, op.id ≠ some r) :
    latest r ops = none ∧ ¬ WasAdded r ops := by
  have hnever : ¬ WasAdded r ops := fun ⟨code, body, hmem⟩ => h _ hmem rfl
  refine ⟨?_, hnever⟩
  cases hlatest : latest r ops with
  | none => rfl
  | some x => exact absurd (added_of_latest hlatest) hnever

/-! ## The slots -/

/-- What the slot of `r` looks like after these operations. -/
def SlotIs (ops : List TableOp) (r : UInt16) (ar : NastResponse) : Prop :=
  match latest r ops with
  | some (code, body) => ar = ⟨.data body, body.length, errcodeOf code, r⟩
  | none => ar.reqid = 0xffff ∧ (WasAdded r ops → ar.buffer = .freed) ∧
      (¬ WasAdded r ops → ar.buffer = .null)

/-- The table after these operations. -/
structure TableInv (ops : List TableOp) (s : Nasth) : Prop where
  grown : ∀ m, TableOp.grow m ∈ ops → m.toNat ≤ s.nthreads
  used : ∀ op ∈ ops, ∀ r, op.id = some r → r ≠ 0 ∧ r.toNat ≤ s.nthreads
  slots : ∀ r ar, s.slot r = some ar → SlotIs ops r ar

section Slots

variable {s s' : Nasth} {r : UInt16} {ops : List TableOp} {op : TableOp}

theorem slotIs_other (h : op.id ≠ some r) {ar : NastResponse} :
    SlotIs (ops ++ [op]) r ar ↔ SlotIs ops r ar := by
  unfold SlotIs
  rw [latest_append, store_other h, added_other h]

theorem modify_defined {f : NastResponse → Option NastResponse} (hr : r ≠ 0)
    (hf : ∀ ar, s.slot r = some ar → (f ar).isSome) : ∃ s', s.modify r f = some s' := by
  unfold Nasth.modify
  rw [if_neg hr]
  cases hslot : s.responses[r.toNat - 1]? with
  | none => exact ⟨s, rfl⟩
  | some ar =>
    obtain ⟨ar', har⟩ := Option.isSome_iff_exists.mp (hf ar ((slot_eq hr).trans hslot))
    simp only [har, Option.map_some]
    exact ⟨_, rfl⟩

theorem modify_nthreads {f : NastResponse → Option NastResponse} (h : s.modify r f = some s') :
    s'.nthreads = s.nthreads := by
  unfold Nasth.modify at h
  split at h
  · exact absurd h (by simp)
  · split at h
    · obtain rfl := Option.some.inj h
      rfl
    · obtain ⟨ar', -, rfl⟩ := Option.map_eq_some_iff.mp h
      exact List.length_set

theorem slot_defined (hr : r ≠ 0) (hle : r.toNat ≤ s.nthreads) : ∃ ar, s.slot r = some ar := by
  have hpos : r.toNat ≠ 0 := fun h => hr (UInt16.toNat_inj.mp h)
  have hlt : r.toNat - 1 < s.responses.length := by
    unfold Nasth.nthreads at hle
    omega
  exact ⟨_, (slot_eq hr).trans (List.getElem?_eq_getElem hlt)⟩

theorem slot_lt {ar : NastResponse} (h : s.slot r = some ar) :
    r ≠ 0 ∧ r.toNat ≤ s.nthreads := by
  unfold Nasth.slot at h
  split at h
  · exact absurd h (by simp)
  · next hr =>
    have hlt := (List.getElem?_eq_some_iff.mp h).1
    refine ⟨hr, ?_⟩
    unfold Nasth.nthreads
    omega

theorem grow_nthreads (m : UInt16) :
    (growResponses s m).nthreads = max s.nthreads m.toNat := by
  unfold growResponses Nasth.nthreads
  rw [List.length_append, List.length_replicate]
  omega

/-- The id of an operation that the table was grown for. -/
theorem TableInv.reach (h : TableInv ops s) (hgrown : GrownFor ops op) (hid : op.id = some r) :
    r.toNat ≤ s.nthreads := by
  obtain ⟨m, hm, hle⟩ := hgrown r hid
  exact Nat.le_trans (UInt16.le_iff_toNat_le.mp hle) (h.grown m hm)

/-- An operation for `r` that leaves the number of slots and the other slots alone. -/
theorem TableInv.at_id (h : TableInv ops s) (hid : op.id = some r) (hr : r ≠ 0)
    (hgrown : GrownFor ops op) (hlen : s'.nthreads = s.nthreads)
    (hother : ∀ r', r' ≠ r → s'.slot r' = s.slot r')
    (hself : ∀ ar, s'.slot r = some ar → SlotIs (ops ++ [op]) r ar) :
    TableInv (ops ++ [op]) s' := by
  refine ⟨fun m hm => ?_, fun op' hop r' hid' => ?_, fun r' ar har => ?_⟩
  · rw [hlen]
    rcases List.mem_append.mp hm with hm | hm
    · exact h.grown m hm
    · rw [← List.mem_singleton.mp hm] at hid
      exact absurd hid (by simp [TableOp.id])
  · rw [hlen]
    rcases List.mem_append.mp hop with hop | hop
    · exact h.used op' hop r' hid'
    · rw [List.mem_singleton.mp hop, hid] at hid'
      obtain rfl := Option.some.inj hid'
      exact ⟨hr, h.reach hgrown hid⟩
  · by_cases hne : r' = r
    · rw [hne] at har ⊢
      exact hself ar har
    · rw [hother r' hne] at har
      apply (slotIs_other ?_).mpr (h.slots r' ar har)
      rw [hid]
      exact fun he => hne (Option.some.inj he).symm

theorem TableInv.grow (h : TableInv ops s) (m : UInt16) :
    TableInv (ops ++ [.grow m]) (growResponses s m) := by
  refine ⟨fun m' hm => ?_, fun op hop r hid => ?_, fun r ar har => ?_⟩
  · rw [grow_nthreads]
    rcases List.mem_append.mp hm with hm | hm
    · exact Nat.le_trans (h.grown m' hm) (Nat.le_max_left _ _)
    · obtain rfl := TableOp.grow.inj (List.mem_singleton.mp hm)
      exact Nat.le_max_right _ _
  · rw [grow_nthreads]
    rcases List.mem_append.mp hop with hop | hop
    · obtain ⟨hr, hle⟩ := h.used op hop r hid
      exact ⟨hr, Nat.le_trans hle (Nat.le_max_left _ _)⟩
    · rw [List.mem_singleton.mp hop] at hid
      exact absurd hid (by simp [TableOp.id])
  · apply (slotIs_other (by simp [TableOp.id])).mpr
    rcases grow_slot (s := s) m r with ⟨-, hsame⟩ | ⟨hnone, hnew⟩
    · exact h.slots r ar (hsame.symm.trans har)
    · -- a new slot: no operation was for its id, because the table was too small
      have hunused : ∀ op ∈ ops, op.id ≠ some r := by
        intro op hop hid
        obtain ⟨hr, hle⟩ := h.used op hop r hid
        obtain ⟨ar', har'⟩ := slot_defined hr hle
        rw [hnone] at har'
        exact absurd har' (by simp)
      obtain ⟨hlatest, hnever⟩ := latest_of_unused hunused
      rw [hnew ar har]
      unfold SlotIs
      rw [hlatest]
      exact ⟨rfl, fun hadd => absurd hadd hnever, fun _ => rfl⟩

theorem TableInv.add (h : TableInv ops s) {code : Byte} {body : Bytes} (hr : r ≠ 0)
    (hgrown : GrownFor ops (.add r code body)) :
    ∃ s', addresponse s r code body = some s' ∧ TableInv (ops ++ [.add r code body]) s' := by
  obtain ⟨s₁, herr⟩ := modify_defined (s := s) (f := fun ar =>
    some { ar with errcode := errcodeOf code }) hr fun _ _ => rfl
  obtain ⟨s', hadd⟩ := modify_defined (s := s₁) (f := fun ar =>
    some { ar with reqid := r, buffer := .data body, bufflen := body.length }) hr fun _ _ => rfl
  have hrun : addresponse s r code body = some s' := Option.bind_eq_some_iff.mpr ⟨s₁, herr, hadd⟩
  obtain ⟨hother, hself⟩ := addresponse_slot hrun
  refine ⟨s', hrun, h.at_id rfl hr hgrown ?_ hother fun ar har => ?_⟩
  · rw [modify_nthreads hadd, modify_nthreads herr]
  · rw [hself] at har
    obtain ⟨ar', -, rfl⟩ := Option.map_eq_some_iff.mp har
    unfold SlotIs
    rw [latest_append]
    simp only [TableOp.store, if_true]

/-- What is in the buffer before a `delresponse`. -/
theorem TableInv.buffer (h : TableInv ops s) {ar : NastResponse} (har : s.slot r = some ar) :
    ar.buffer = .freed ↔ WasAdded r ops ∧ latest r ops = none := by
  have hslot := h.slots r ar har
  unfold SlotIs at hslot
  cases hlatest : latest r ops with
  | some x =>
    rw [hlatest] at hslot
    rw [hslot]
    simp
  | none =>
    rw [hlatest] at hslot
    by_cases hadd : WasAdded r ops
    · exact iff_of_true (hslot.2.1 hadd) ⟨hadd, rfl⟩
    · refine iff_of_false ?_ fun hboth => hadd hboth.1
      rw [hslot.2.2 hadd]
      simp

theorem TableInv.del (h : TableInv ops s) (hr : r ≠ 0) (hgrown : GrownFor ops (.del r))
    (hthere : WasAdded r ops → (latest r ops).isSome) :
    ∃ s', delresponse s r = some s' ∧ TableInv (ops ++ [.del r]) s' := by
  have hbuffer : ∀ ar, s.slot r = some ar → ar.buffer ≠ .freed := by
    intro ar har hfreed
    obtain ⟨hadd, hnone⟩ := (h.buffer har).mp hfreed
    exact absurd (hthere hadd) (by rw [hnone]; simp)
  have hrun : ∃ s', delresponse s r = some s' := by
    apply modify_defined hr
    intro ar har
    have hne := hbuffer ar har
    cases hb : ar.buffer with
    | null => rfl
    | data body => rfl
    | freed => exact absurd hb hne
  obtain ⟨s', hrun⟩ := hrun
  have hself := modify_slot_self hrun
  refine ⟨s', hrun, h.at_id rfl hr hgrown (modify_nthreads hrun)
    (fun r' hne => modify_slot_ne hrun hne) fun ar' har' => ?_⟩
  obtain ⟨ar, har, hdel⟩ := Option.bind_eq_some_iff.mp (hself.symm.trans har')
  have hslot := h.slots r ar har
  unfold SlotIs at hslot ⊢
  have hnoadd : WasAdded r (ops ++ [.del r]) ↔ WasAdded r ops := by
    rw [added_append]
    simp
  rw [latest_append, hnoadd]
  simp only [TableOp.store, if_true]
  cases hlatest : latest r ops with
  | some x =>
    obtain ⟨code, body⟩ := x
    rw [hlatest] at hslot
    rw [hslot] at hdel
    obtain rfl := Option.some.inj hdel
    exact ⟨rfl, fun _ => rfl, fun hnever => absurd (added_of_latest hlatest) hnever⟩
  | none =>
    rw [hlatest] at hslot
    obtain ⟨-, hfreed, hnull⟩ := hslot
    have hnever : ¬ WasAdded r ops := fun hadd => hbuffer ar har (hfreed hadd)
    rw [hnull hnever] at hdel
    obtain rfl := Option.some.inj hdel
    exact ⟨rfl, fun hadd => absurd hadd hnever, fun _ => rfl⟩

/-! ## Steps and runs -/

theorem tableStep_inv (h : TableInv ops s) (hgrown : GrownFor ops op) (hsafe : SafeOp ops op) :
    ∃ o s', tableStep s op = some (o, s') ∧ TableInv (ops ++ [op]) s' := by
  obtain ⟨hid, hdel⟩ := hsafe
  cases op with
  | grow m => exact ⟨(), _, rfl, h.grow m⟩
  | add r code body =>
    obtain ⟨s', hrun, hinv⟩ := h.add (fun hr => hid (congrArg some hr)) hgrown
    exact ⟨(), s', by rw [tableStep, hrun]; rfl, hinv⟩
  | del r =>
    obtain ⟨s', hrun, hinv⟩ := h.del (fun hr => hid (congrArg some hr)) hgrown (hdel r rfl)
    exact ⟨(), s', by rw [tableStep, hrun]; rfl, hinv⟩

theorem tableStep_stuck (h : TableInv ops s) (hgrown : GrownFor ops op)
    (hsafe : ¬ SafeOp ops op) : tableStep s op = none := by
  unfold SafeOp at hsafe
  cases op with
  | grow m => exact absurd ⟨by simp [TableOp.id], fun r he => absurd he (by simp)⟩ hsafe
  | add r code body =>
    have hr : r = 0 := by
      by_contra hr
      apply hsafe
      exact ⟨fun he => hr (Option.some.inj he), fun r' he => absurd he (by simp)⟩
    rw [hr]
    rfl
  | del r =>
    by_cases hr : r = 0
    · rw [hr]
      rfl
    · have hagain : WasAdded r ops ∧ latest r ops = none := by
        by_contra hnot
        apply hsafe
        refine ⟨fun he => hr (Option.some.inj he), fun r' he hadd => ?_⟩
        obtain rfl := TableOp.del.inj he
        rw [Option.isSome_iff_ne_none]
        exact fun hnone => hnot ⟨hadd, hnone⟩
      obtain ⟨ar, har⟩ := slot_defined hr (h.reach hgrown rfl)
      have hfreed := (h.buffer har).mpr hagain
      have hslot := (slot_eq hr).symm.trans har
      unfold tableStep delresponse Nasth.modify
      simp only [if_neg hr, hslot, hfreed]
      rfl

theorem tableStart_inv : TableInv [] tableStart := by
  refine ⟨fun m hm => absurd hm List.not_mem_nil, fun op hop => absurd hop List.not_mem_nil, ?_⟩
  intro r ar har
  obtain ⟨hr, hle⟩ := slot_lt har
  exact absurd (UInt16.toNat_inj.mp (Nat.le_zero.mp hle)) hr

/-- The mark of an empty slot. -/
theorem short_eq_neg_one {n : UInt16} (h : short n = -1) : n = 0xffff := by
  have hlt : n.toNat < 65536 := n.toNat_lt
  apply UInt16.toNat_inj.mp
  show n.toNat = 65535
  unfold short at h
  split at h <;> omega

/-- What the table says about an id, unless it is one of the two extreme ones. -/
theorem TableInv.exactAt_iff (h : TableInv ops s) :
    ExactAt ops s r ↔ r ≠ 0 ∧ (r = 0xffff → latest r ops = none) := by
  constructor
  · intro hexact
    have hr : r ≠ 0 := by
      intro hzero
      have hcheck := hexact.check
      rw [hzero] at hcheck
      exact absurd hcheck (by simp [checkresponse])
    refine ⟨hr, fun hmark => ?_⟩
    cases hlatest : latest r ops with
    | none => rfl
    | some x =>
      obtain ⟨code, body⟩ := x
      have hcheck := hexact.check
      have hhas : s.has r = false := by
        unfold Nasth.has
        rw [hexact.stored code body hlatest, hmark]
        rfl
      unfold checkresponse at hcheck
      rw [if_neg hr, hhas, hlatest] at hcheck
      exact absurd hcheck (by simp)
  · intro ⟨hr, hmark⟩
    cases hlatest : latest r ops with
    | none =>
      have hhas : s.has r = false := by
        unfold Nasth.has
        cases hslot : s.slot r with
        | none => rfl
        | some ar =>
          have har := h.slots r ar hslot
          unfold SlotIs at har
          rw [hlatest] at har
          simp only [har.1]
          rfl
      refine ⟨?_, fun code body he => absurd (hlatest.symm.trans he) (by simp)⟩
      unfold checkresponse
      rw [if_neg hr, hhas, hlatest]
      rfl
    | some x =>
      obtain ⟨code, body⟩ := x
      obtain ⟨code', body', hmem⟩ := added_of_latest hlatest
      obtain ⟨ar, hslot⟩ := slot_defined hr (h.used _ hmem r rfl).2
      have har := h.slots r ar hslot
      unfold SlotIs at har
      rw [hlatest] at har
      rw [har] at hslot
      have hhas : s.has r = true := by
        unfold Nasth.has
        rw [hslot]
        apply decide_eq_true
        intro hshort
        rw [hmark (short_eq_neg_one hshort)] at hlatest
        exact absurd hlatest (by simp)
      refine ⟨?_, ?_⟩
      · unfold checkresponse
        rw [if_neg hr, hhas, hlatest]
        rfl
      · intro code₁ body₁ he
        obtain ⟨rfl, rfl⟩ := Prod.mk.inj (Option.some.inj (hlatest.symm.trans he))
        exact hslot

/-- An operation on one id, and growing the table, leave what is there for the others. -/
theorem tableStep_other (hstep : tableStep s op = some ((), s')) (hid : op.id ≠ some r) :
    s'.has r = s.has r ∧ ((s.slot r).isSome → s'.slot r = s.slot r) := by
  cases op with
  | grow m =>
    obtain ⟨-, rfl⟩ := Prod.mk.inj (Option.some.inj hstep)
    refine ⟨(grow_has m r).1, fun hslot => ?_⟩
    rcases grow_slot (s := s) m r with ⟨-, hsame⟩ | ⟨hnone, -⟩
    · exact hsame
    · rw [hnone] at hslot
      exact absurd hslot (by simp)
  | add reqid code body =>
    obtain ⟨s₁, hrun, heq⟩ := Option.map_eq_some_iff.mp hstep
    obtain ⟨-, rfl⟩ := Prod.mk.inj heq
    have hsame := (addresponse_slot hrun).1 r fun he => hid (congrArg some he.symm)
    exact ⟨has_of_slot hsame, fun _ => hsame⟩
  | del reqid =>
    obtain ⟨s₁, hrun, heq⟩ := Option.map_eq_some_iff.mp hstep
    obtain ⟨-, rfl⟩ := Prod.mk.inj heq
    have hsame := modify_slot_ne hrun fun he => hid (congrArg some he.symm)
    exact ⟨has_of_slot hsame, fun _ => hsame⟩

end Slots

/-- Any operations on one handle, the table grown for each id before, and any id: they can
be done and the table is exact for the id if and only if none is for id 0, no response is
deleted that is not there while one was before, the id is not 0, and it is not 65535 with
a response stored. An operation on one id never changes what is there for another, nor
does growing the table. -/
theorem response_table_iff (ops : List TableOp) (r : UInt16)
    (hgrown : EachAfter GrownFor [] ops) :
    ((∃ os s, runs tableStep tableStart ops = some (os, s) ∧ ExactAt ops s r) ↔
        EachAfter SafeOp [] ops ∧ r ≠ 0 ∧ (r = 0xffff → latest r ops = none)) ∧
      ∀ s op s', tableStep s op = some ((), s') → ∀ r', op.id ≠ some r' →
        s'.has r' = s.has r' ∧ ((s.slot r').isSome → s'.slot r' = s.slot r') := by
  refine ⟨?_, fun s op s' hstep r' hid => tableStep_other hstep hid⟩
  obtain ⟨hrun, hstuck⟩ := @runs_iff_eachAfter _ _ _ tableStep SafeOp GrownFor TableInv
    (fun _ _ _ h hq hp => tableStep_inv h hq hp) (fun _ _ _ h hq hp => tableStep_stuck h hq hp)
    _ _ _ tableStart_inv hgrown
  rw [List.nil_append] at hrun
  by_cases hsafe : EachAfter SafeOp [] ops
  · obtain ⟨os, s, hr, hinv⟩ := hrun hsafe
    rw [and_iff_right hsafe, ← hinv.exactAt_iff]
    constructor
    · intro ⟨os', s', hr', hexact⟩
      obtain ⟨-, rfl⟩ := Prod.mk.inj (Option.some.inj (hr.symm.trans hr'))
      exact hexact
    · intro hexact
      exact ⟨os, s, hr, hexact⟩
  · refine iff_of_false (fun ⟨os, s, hr, _⟩ => ?_) fun h => hsafe h.1
    rw [hstuck hsafe] at hr
    exact absurd hr (by simp)

/-- Two ids, and a second answer for one of them: it is the second that is found. -/
theorem response_table_two : ∃ os s,
    runs tableStep tableStart
        [.grow 9, .del 7, .add 9 NASTOK [66], .add 7 NASTOK [65], .del 7, .add 7 NASTOK [67]]
      = some (os, s) ∧
      ExactAt [.grow 9, .del 7, .add 9 NASTOK [66], .add 7 NASTOK [65], .del 7,
        .add 7 NASTOK [67]] s 7 := by
  have hgrown : EachAfter GrownFor []
      [.grow 9, .del 7, .add 9 NASTOK [66], .add 7 NASTOK [65], .del 7, .add 7 NASTOK [67]] := by
    refine ⟨fun r h => absurd h (by simp [TableOp.id]), ?_, ?_, ?_, ?_, ?_, trivial⟩
    all_goals
      intro r h
      obtain rfl := Option.some.inj h
      exact ⟨9, by simp, by decide⟩
  refine (response_table_iff _ 7 hgrown).1.mpr
    ⟨⟨?_, ?_, ?_, ?_, ?_, ?_, trivial⟩, by decide, by decide⟩
  · exact ⟨by simp [TableOp.id], fun r h => absurd h (by simp)⟩
  · refine ⟨by simp [TableOp.id], fun r _ hadd => ?_⟩
    obtain ⟨code, body, hmem⟩ := hadd
    exact absurd hmem (by simp)
  · exact ⟨by simp [TableOp.id], fun r h => absurd h (by simp)⟩
  · exact ⟨by simp [TableOp.id], fun r h => absurd h (by simp)⟩
  · -- the first answer is there to delete
    refine ⟨by simp [TableOp.id], fun r h _ => ?_⟩
    obtain rfl := TableOp.del.inj h
    decide
  · exact ⟨by simp [TableOp.id], fun r h => absurd h (by simp)⟩

/-- A thread has its answer; its next command is not answered, and the one after that frees
the answer again. -/
theorem answer_freed_twice :
    ¬ ∀ (ops : List TableOp) (r : UInt16), EachAfter GrownFor [] ops →
      ∃ os s, runs tableStep tableStart ops = some (os, s) ∧ ExactAt ops s r := by
  intro h
  have hgrown : EachAfter GrownFor []
      [.grow 7, .del 7, .add 7 NASTOK [65], .del 7, .del 7] := by
    refine ⟨fun r h => absurd h (by simp [TableOp.id]), ?_, ?_, ?_, ?_, trivial⟩
    all_goals
      intro r hid
      obtain rfl := Option.some.inj hid
      exact ⟨7, by simp, by decide⟩
  obtain ⟨os, s, hrun, -⟩ := h _ 7 hgrown
  have hstuck : runs tableStep tableStart
      [.grow 7, .del 7, .add 7 NASTOK [65], .del 7, .del 7] = none := rfl
  rw [hstuck] at hrun
  exact absurd hrun (by simp)

end Nastd.Client
