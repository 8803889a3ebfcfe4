import Nastd.Nastipc

/-!
# The response table

The table of `client/nastapi.c`: the handle has one slot for each request id, and a
request id is the thread id, so all calls of a thread share a slot. A slot holds a
response when its `reqid` is not -1.

The slot of an id is `responses[reqid - 1]`. For id 0 that is in front of the table,
and a buffer that was freed is freed again if the next response did not come in
between; the operations are `none` there, and a run does not go on. Allocations succeed.
-/

namespace Nastd.Client

/-- `errcodes`. -/
inductive Errcode where
  | NAST_OK
  | NAST_SERVER_GONE
  | NAST_NOMEM
  | NAST_UNKNOWN_RESPONSE
  | NAST_TIMEDOUT
  | NAST_UNKNOWN_OPT
  | NAST_SERVER_ERR
  deriving DecidableEq, Repr

/-- The `char *buffer` of a slot. -/
inductive Buffer where
  | null
  | data (bytes : Bytes)
  | freed
  deriving DecidableEq, Repr

/-- `nast_response`. -/
structure NastResponse where
  buffer : Buffer
  bufflen : Nat
  errcode : Errcode
  reqid : UInt16
  deriving DecidableEq, Repr

/-- `nasth`; `nthreads` is the length of the table. -/
structure Nasth where
  responses : List NastResponse
  deriving DecidableEq, Repr

def Nasth.nthreads (s : Nasth) : Nat := s.responses.length

/-- `response_new`. -/
def responseNew : NastResponse := ⟨.null, 0, .NAST_OK, 0xffff⟩

/-- The slot of an id, if there is one. -/
def Nasth.slot (s : Nasth) (reqid : UInt16) : Option NastResponse :=
  if reqid = 0 then none else s.responses[reqid.toNat - 1]?

/-- `getmyresponse`, and a change of what it finds: nothing changes for NULL. `none` in
front of the table, or where the change is undefined. -/
def Nasth.modify (s : Nasth) (reqid : UInt16) (f : NastResponse → Option NastResponse) :
    Option Nasth :=
  if reqid = 0 then none
  else
    match s.responses[reqid.toNat - 1]? with
    | none => some s
    | some ar => (f ar).map fun ar' => ⟨s.responses.set (reqid.toNat - 1) ar'⟩

/-- `nast_set_error`. -/
def nastSetError (s : Nasth) (reqid : UInt16) (code : Errcode) : Option Nasth :=
  s.modify reqid fun ar => some { ar with errcode := code }

/-- `grow_responses`. -/
def growResponses (s : Nasth) (maxitems : UInt16) : Nasth :=
  ⟨s.responses ++ List.replicate (maxitems.toNat - s.nthreads) responseNew⟩

/-- The error code `addresponse` takes from the first byte. -/
def errcodeOf (code : Byte) : Errcode :=
  if code = NASTOK then .NAST_OK
  else if code = NASTERR then .NAST_SERVER_ERR
  else .NAST_UNKNOWN_RESPONSE

/-- `addresponse` of the byte `code` with `body` behind it. -/
def addresponse (s : Nasth) (reqid : UInt16) (code : Byte) (body : Bytes) : Option Nasth :=
  (nastSetError s reqid (errcodeOf code)).bind fun s' =>
    s'.modify reqid fun ar =>
      some { ar with reqid := reqid, buffer := .data body, bufflen := body.length }

/-- `delresponse`. The buffer is freed, but the pointer stays. -/
def delresponse (s : Nasth) (reqid : UInt16) : Option Nasth :=
  s.modify reqid fun ar =>
    match ar.buffer with
    | .null => some { ar with reqid := 0xffff, bufflen := 0 }
    | .data _ => some { ar with reqid := 0xffff, bufflen := 0, buffer := .freed }
    | .freed => none

/-- The slot of the id holds a response. -/
def Nasth.has (s : Nasth) (reqid : UInt16) : Bool :=
  match s.slot reqid with
  | none => false
  | some ar => decide (short ar.reqid ≠ -1)

/-- `checkresponse`. -/
def checkresponse (s : Nasth) (reqid : UInt16) : Option Int :=
  if reqid = 0 then none else some (if s.has reqid then 0 else -1)

/-- The loop of `build_result`: `cur` is what lies between `s_p` and `e_p`. -/
def buildResultLoop : Bytes → Bytes → List Bytes
  | cur, [] => [cur]
  | cur, b :: rest =>
    if b = NASTSEP then cur :: buildResultLoop [] rest else buildResultLoop (cur ++ [b]) rest

/-- `build_result`. -/
def buildResult (buff : Bytes) : List Bytes := buildResultLoop [] buff

/-- The first `bufflen` bytes of the buffer. -/
def NastResponse.bytes (ar : NastResponse) : Option Bytes :=
  match ar.buffer with
  | .data body => if ar.bufflen ≤ body.length then some (body.take ar.bufflen) else none
  | _ => if ar.bufflen = 0 then some [] else none

/-- `nast_get_result`; `some none` for NULL. -/
def nastGetResult (s : Nasth) (reqid : UInt16) : Option (Option (List Bytes)) :=
  if reqid = 0 then none
  else
    match s.slot reqid with
    | none => some none
    | some ar => ar.bytes.map fun buff => some (buildResult buff)

/-! ## What the operations do to the slots -/

section Slots

variable {s s' : Nasth} {r r' : UInt16}

/-- The slot behind an id other than 0. -/
theorem slot_eq (hr : r ≠ 0) : s.slot r = s.responses[r.toNat - 1]? := if_neg hr

theorem index_ne (hr : r ≠ 0) (hr' : r' ≠ 0) (hne : r' ≠ r) : r.toNat - 1 ≠ r'.toNat - 1 := by
  have hpos : r.toNat ≠ 0 := fun h => hr (UInt16.toNat_inj.mp h)
  have hpos' : r'.toNat ≠ 0 := fun h => hr' (UInt16.toNat_inj.mp h)
  have hdiff : r'.toNat ≠ r.toNat := fun h => hne (UInt16.toNat_inj.mp h)
  omega

/-- A change of one slot leaves the others alone. -/
theorem modify_slot_ne {f : NastResponse → Option NastResponse} (h : s.modify r f = some s')
    (hne : r' ≠ r) : s'.slot r' = s.slot r' := by
  unfold Nasth.modify at h
  split at h
  · exact absurd h (by simp)
  · next hr =>
    split at h
    · obtain rfl := Option.some.inj h
      rfl
    · obtain ⟨ar', -, rfl⟩ := Option.map_eq_some_iff.mp h
      by_cases hr' : r' = 0
      · rw [hr']
        rfl
      · rw [slot_eq hr', slot_eq hr', List.getElem?_set_ne (index_ne hr hr' hne)]

/-- And it happens in its own, if that is there. -/
theorem modify_slot_self {f : NastResponse → Option NastResponse} (h : s.modify r f = some s') :
    s'.slot r = (s.slot r).bind f := by
  unfold Nasth.modify at h
  split at h
  · exact absurd h (by simp)
  · next hr =>
    rw [slot_eq hr, slot_eq hr]
    split at h
    · next hnone =>
      obtain rfl := Option.some.inj h
      rw [hnone]
      rfl
    · next ar hsome =>
      obtain ⟨ar', hf, rfl⟩ := Option.map_eq_some_iff.mp h
      have hlt : r.toNat - 1 < s.responses.length := (List.getElem?_eq_some_iff.mp hsome).1
      rw [hsome, List.getElem?_set_self hlt]
      exact hf.symm

theorem has_of_slot (h : s'.slot r = s.slot r) : s'.has r = s.has r := by
  unfold Nasth.has
  rw [h]

theorem checkresponse_has (h : checkresponse s r = some 0) : s.has r = true := by
  unfold checkresponse at h
  split at h
  · exact absurd h (by simp)
  · split at h
    · next hhas => exact hhas
    · exact absurd (Option.some.inj h) (by decide)

/-- Growing keeps the slots that are there, and new ones are empty. -/
theorem grow_slot (m r : UInt16) :
    (s.slot r).isSome ∧ (growResponses s m).slot r = s.slot r ∨
      s.slot r = none ∧ ∀ ar, (growResponses s m).slot r = some ar → ar = responseNew := by
  by_cases hr : r = 0
  · rw [hr]
    exact .inr ⟨rfl, fun ar har => absurd har (by simp [Nasth.slot])⟩
  · rw [slot_eq hr, slot_eq hr]
    unfold growResponses
    dsimp only
    by_cases hlt : r.toNat - 1 < s.responses.length
    · rw [List.getElem?_append_left hlt]
      refine .inl ⟨?_, rfl⟩
      rw [List.getElem?_eq_getElem hlt]
      rfl
    · rw [List.getElem?_append_right (by omega)]
      refine .inr ⟨List.getElem?_eq_none (by omega), fun ar har => ?_⟩
      exact List.eq_of_mem_replicate (List.mem_of_getElem? har)

theorem grow_has (m r : UInt16) :
    (growResponses s m).has r = s.has r ∧
      (s.has r = true → (growResponses s m).slot r = s.slot r) := by
  rcases @grow_slot s m r with ⟨-, hsame⟩ | ⟨hnone, hnew⟩
  · exact ⟨has_of_slot hsame, fun _ => hsame⟩
  · have hold : s.has r = false := by
      unfold Nasth.has
      rw [hnone]
    refine ⟨?_, fun h => absurd (hold.symm.trans h) (by simp)⟩
    rw [hold]
    unfold Nasth.has
    split
    · rfl
    · next ar har =>
      rw [hnew ar har]
      decide

/-- After `delresponse` the slot holds nothing. -/
theorem delresponse_has (h : delresponse s r = some s') : s'.has r = false := by
  unfold delresponse at h
  unfold Nasth.has
  rw [modify_slot_self h]
  cases hslot : s.slot r with
  | none => rfl
  | some ar =>
    rw [Option.bind_some]
    cases hbuf : ar.buffer with
    | null => rfl
    | data body => rfl
    | freed => rfl

/-- What `addresponse` leaves in the slot. -/
theorem addresponse_slot {code : Byte} {body : Bytes} (h : addresponse s r code body = some s') :
    (∀ r', r' ≠ r → s'.slot r' = s.slot r') ∧
      s'.slot r = (s.slot r).map fun _ => ⟨.data body, body.length, errcodeOf code, r⟩ := by
  obtain ⟨s₁, herr, hadd⟩ := Option.bind_eq_some_iff.mp h
  constructor
  · intro r' hne
    rw [modify_slot_ne hadd hne, modify_slot_ne herr hne]
  · rw [modify_slot_self hadd, modify_slot_self herr]
    cases s.slot r with
    | none => rfl
    | some ar => rfl

/-- `nast_set_error` changes nothing but the code. -/
theorem setError_slot {code : Errcode} (h : nastSetError s r code = some s') :
    (∀ r', r' ≠ r → s'.slot r' = s.slot r') ∧
      s'.slot r = (s.slot r).map fun ar => { ar with errcode := code } := by
  refine ⟨fun r' hne => modify_slot_ne h hne, ?_⟩
  rw [modify_slot_self h]
  cases s.slot r with
  | none => rfl
  | some ar => rfl

theorem setError_has {code : Errcode} (h : nastSetError s r code = some s') (r' : UInt16) :
    s'.has r' = s.has r' := by
  obtain ⟨hother, hself⟩ := setError_slot h
  by_cases hr : r' = r
  · rw [hr]
    unfold Nasth.has
    rw [hself]
    cases s.slot r with
    | none => rfl
    | some ar => rfl
  · exact has_of_slot (hother r' hr)

end Slots

end Nastd.Client
