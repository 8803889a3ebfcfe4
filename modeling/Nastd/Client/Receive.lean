import Nastd.Client.Responses
import Nastd.Server.Framing
import Nastd.Server.Response

/-!
# Reading responses

What `getresponse` of `client/nastapi.c` does with what one `recv` brought: the loop over
the frames in its buffer. A frame is put on the table by `addresponse`, which takes the
`len - 1` bytes behind its code; with a length below 5 that is no size `malloc` can
serve. Memory around the received bytes is arbitrary, and the loop may read it.

The server's half is `arrSendResponse` of `Server.Response`.

* `readChunk_frames`: in whole frames the loop finds exactly these.
* `responses_survive`: each id's slot then holds its own response, and `build_result`
  gives back the items that were sent.
-/

namespace Nastd.Client

open Nastd.Server

/-- What the loop hands to `addresponse`. -/
inductive Added where
  | response (reqid : UInt16) (code : Byte) (body : Bytes)
  /-- A frame with no room for its code. -/
  | tooShort (reqid : UInt16) (code : Byte)
  deriving DecidableEq, Repr

/-- `addresponse`, with what becomes of the slot when `malloc` fails. -/
def addOne (s : Nasth) : Added → Option Nasth
  | .response reqid code body => addresponse s reqid code body
  | .tooShort reqid code =>
    (nastSetError s reqid (errcodeOf code)).bind fun s' =>
      s'.modify reqid fun ar =>
        some { ar with reqid := reqid, buffer := .null, errcode := .NAST_NOMEM }

/-- One after the other. -/
def addAll : Nasth → List Added → Option Nasth
  | s, [] => some s
  | s, a :: as => (addOne s a).bind fun s' => addAll s' as

/-- The frame of `bufflen` bytes at `p`. -/
def addedAt (mem : Int → Byte) (p bufflen : Int) : Added :=
  let reqid := ntohs (mem (p + 2)) (mem (p + 3))
  if bufflen < 5 then .tooShort reqid (mem (p + 4))
  else
    .response reqid (mem (p + 4))
      ((List.range (bufflen - 5).toNat).map fun j : Nat => mem (p + 5 + j))

/-- The loop over the frames; `false` when a length makes no sense. It takes a step for each
byte at most. -/
def frameLoop (mem : Int → Byte) (nbytes : Int) : Nat → Int → List Added × Bool
  | 0, _ => ([], true)
  | fuel + 1, p =>
    if p < nbytes then
      let bufflen := short (ntohs (mem p) (mem (p + 1)))
      if bufflen ≤ 0 ∨ bufflen > nbytes then ([], false)
      else
        let r := frameLoop mem nbytes fuel (p + bufflen)
        (addedAt mem p bufflen :: r.1, r.2)
    else ([], true)

/-- What one `recv` of `chunk` adds to the table, and whether the call goes on; when it
does not, it ends in `NAST_UNKNOWN_RESPONSE`. -/
def readChunk (chunk : Bytes) (around : Int → Byte) : List Added × Bool :=
  if chunk.length < 5 then ([], false)
  else frameLoop (bufMem chunk around) chunk.length chunk.length 0

/-- `getresponse` of thread `tid` from its `recv` to the end of the loop. -/
def receive (s : Nasth) (tid : UInt16) (chunk : Bytes) (around : Int → Byte) : Option Nasth :=
  (addAll s (readChunk chunk around).1).bind fun s' =>
    if (readChunk chunk around).2 then some s' else nastSetError s' tid .NAST_UNKNOWN_RESPONSE

/-- One response: what the server calls `arr_send_response` with. -/
structure Reply where
  reqid : UInt16
  rCode : Byte
  aa : List Bytes
  deriving DecidableEq, Repr

/-- Its frame, if it fits. -/
def Reply.frame (r : Reply) : Bytes := responseFrame r.reqid r.rCode r.aa

/-- What the client is to put on the table for it. -/
def Reply.added (r : Reply) : Added := .response r.reqid r.rCode (joinItems r.aa)

theorem Reply.frame_length (r : Reply) : r.frame.length = 5 + (joinItems r.aa).length := by
  unfold Reply.frame responseFrame
  rw [List.length_append, List.length_append, List.length_append]
  rfl

theorem sent_frame {r : Reply} {frame : Bytes}
    (h : arrSendResponse r.reqid r.rCode r.aa = some frame) : Fits r.aa ∧ frame = r.frame := by
  rw [arrSendResponse_eq] at h
  split at h
  next hfits => exact ⟨hfits, (Option.some.inj h).symm⟩
  next => exact absurd h (by simp)

/-- What is sent is the frames. -/
theorem sent_frames :
    ∀ {rs : List Reply} {frames : List Bytes},
      rs.map (fun r => arrSendResponse r.reqid r.rCode r.aa) = frames.map some →
      (∀ r ∈ rs, Fits r.aa) ∧ frames = rs.map Reply.frame := by
  intro rs
  induction rs with
  | nil =>
    intro frames hnil
    obtain rfl := List.map_eq_nil_iff.mp hnil.symm
    exact ⟨fun r hr => absurd hr (by simp), rfl⟩
  | cons r rs ih =>
    intro frames hcons
    cases frames with
    | nil => exact absurd hcons (by simp)
    | cons f frames =>
      obtain ⟨hf, hrest⟩ := List.cons.inj hcons
      obtain ⟨hfits, rfl⟩ := sent_frame hf
      obtain ⟨hfits', rfl⟩ := ih hrest
      refine ⟨fun x hx => ?_, rfl⟩
      rcases List.mem_cons.mp hx with rfl | hx
      · exact hfits
      · exact hfits' x hx

/-! ## The loop over whole frames -/

section Loop

variable {mem : Int → Byte} {nbytes : Int}

/-- One frame. -/
theorem frameLoop_cons {r : Reply} {p : Int} (hat : At mem p r.frame) (hfits : Fits r.aa)
    (hp : p < nbytes) (hlen : r.frame.length ≤ nbytes) (fuel : Nat) :
    frameLoop mem nbytes (fuel + 1) p
      = (r.added :: (frameLoop mem nbytes fuel (p + r.frame.length)).1,
          (frameLoop mem nbytes fuel (p + r.frame.length)).2) := by
  have hsize : 5 + (joinItems r.aa).length < 0x8000 := by
    have hle : 5 + (joinItems r.aa).length ≤ 1024 := hfits
    omega
  have hframe := r.frame_length
  obtain ⟨hhead, hbody⟩ := at_append hat
  have h0 : mem (p + (0 : Nat))
      = UInt8.ofNat ((UInt16.ofNat (5 + (joinItems r.aa).length)).toNat / 256) :=
    hhead 0 (by simp)
  rw [Int.natCast_zero, Int.add_zero] at h0
  have h1 : mem (p + 1)
      = UInt8.ofNat ((UInt16.ofNat (5 + (joinItems r.aa).length)).toNat % 256) :=
    hhead 1 (by simp)
  have h2 : mem (p + 2) = UInt8.ofNat (r.reqid.toNat / 256) := hhead 2 (by simp)
  have h3 : mem (p + 3) = UInt8.ofNat (r.reqid.toNat % 256) := hhead 3 (by simp)
  have h4 : mem (p + 4) = r.rCode := hhead 4 (by simp)
  have hbuf : short (ntohs (mem p) (mem (p + 1))) = (r.frame.length : Int) := by
    rw [h0, h1, ntohs_htons, short_ofNat hsize, hframe]
  have hid : ntohs (mem (p + 2)) (mem (p + 3)) = r.reqid := by
    rw [h2, h3, ntohs_htons]
  have hadded : addedAt mem p r.frame.length = r.added := by
    have hn : ((r.frame.length : Int) - 5).toNat = (joinItems r.aa).length := by omega
    unfold addedAt
    rw [if_neg (by omega), hn, hid, h4]
    exact congrArg (Added.response r.reqid r.rCode) (at_map hbody)
  rw [frameLoop, if_pos hp]
  dsimp only
  rw [hbuf, if_neg (by omega), hadded]

/-- Behind the last frame. -/
theorem frameLoop_end {p : Int} (hp : ¬ p < nbytes) (fuel : Nat) :
    frameLoop mem nbytes fuel p = ([], true) := by
  cases fuel with
  | zero => rfl
  | succ fuel => rw [frameLoop, if_neg hp]

/-- The loop finds every frame, and goes on behind them. -/
theorem frameLoop_append :
    ∀ {rs : List Reply} {p : Int} {k : Nat}, (∀ r ∈ rs, Fits r.aa) →
      At mem p (rs.map Reply.frame).flatten → 0 ≤ p →
      p + (rs.map Reply.frame).flatten.length ≤ nbytes →
      frameLoop mem nbytes (rs.length + k) p
        = (rs.map Reply.added ++
            (frameLoop mem nbytes k (p + (rs.map Reply.frame).flatten.length)).1,
          (frameLoop mem nbytes k (p + (rs.map Reply.frame).flatten.length)).2) := by
  intro rs
  induction rs with
  | nil =>
    intro p k _ _ _ _
    simp
  | cons r rs ih =>
    intro p k hfits hat hpos hend
    rw [List.map_cons, List.flatten_cons] at hat hend
    obtain ⟨hframe, hrest⟩ := at_append hat
    rw [List.length_append, Int.natCast_add] at hend
    have hlen := r.frame_length
    have hnext : p + (((r :: rs).map Reply.frame).flatten.length : Int)
        = p + r.frame.length + (rs.map Reply.frame).flatten.length := by
      rw [List.map_cons, List.flatten_cons, List.length_append, Int.natCast_add, Int.add_assoc]
    rw [List.length_cons, Nat.add_right_comm,
      frameLoop_cons hframe (hfits r List.mem_cons_self) (by omega) (by omega),
      ih (fun x hx => hfits x (List.mem_cons_of_mem _ hx)) hrest (by omega) (by omega),
      hnext]
    rfl

end Loop

theorem length_frames (rs : List Reply) :
    5 * rs.length ≤ (rs.map Reply.frame).flatten.length := by
  induction rs with
  | nil => exact Nat.zero_le _
  | cons r rs ih =>
    rw [List.map_cons, List.flatten_cons, List.length_append, r.frame_length, List.length_cons]
    omega

/-- What `getresponse` finds when whole frames come alone. -/
theorem readChunk_frames {rs : List Reply} (hne : rs ≠ []) (hfits : ∀ r ∈ rs, Fits r.aa)
    (around : Int → Byte) :
    readChunk (rs.map Reply.frame).flatten around = (rs.map Reply.added, true) := by
  have hpos := List.length_pos_of_ne_nil hne
  have hle := length_frames rs
  obtain ⟨k, hk⟩ := Nat.exists_eq_add_of_le (by omega : rs.length ≤
    (rs.map Reply.frame).flatten.length)
  unfold readChunk
  rw [if_neg (by omega)]
  rw [show frameLoop (bufMem (rs.map Reply.frame).flatten around)
      (rs.map Reply.frame).flatten.length (rs.map Reply.frame).flatten.length 0
    = frameLoop (bufMem (rs.map Reply.frame).flatten around)
      (rs.map Reply.frame).flatten.length (rs.length + k) 0 from by rw [← hk],
    frameLoop_append hfits (bufMem_at _ _) (Int.le_refl 0) (by omega),
    frameLoop_end (by omega), List.append_nil]

/-! ## The table after the loop -/

theorem addresponse_some {s : Nasth} {reqid : UInt16} (h : (s.slot reqid).isSome) (code : Byte)
    (body : Bytes) : ∃ s', addresponse s reqid code body = some s' := by
  have hid : reqid ≠ 0 := by
    rintro rfl
    exact absurd h (by simp [Nasth.slot])
  obtain ⟨ar, har⟩ := Option.isSome_iff_exists.mp h
  have hmod : ∀ {s : Nasth} {ar : NastResponse} (f : NastResponse → NastResponse),
      s.slot reqid = some ar → ∃ s', s.modify reqid (fun ar => some (f ar)) = some s' := by
    intro s ar f hslot
    rw [slot_eq hid] at hslot
    unfold Nasth.modify
    rw [if_neg hid, hslot]
    exact ⟨_, rfl⟩
  obtain ⟨s₁, h₁⟩ := hmod (fun ar => { ar with errcode := errcodeOf code }) har
  have hslot₁ := modify_slot_self h₁
  rw [har] at hslot₁
  obtain ⟨s₂, h₂⟩ :=
    hmod (fun ar => { ar with reqid := reqid, buffer := .data body, bufflen := body.length }) hslot₁
  refine ⟨s₂, ?_⟩
  unfold addresponse nastSetError
  rw [h₁]
  exact h₂

/-- Responses under different ids do not touch each other. -/
theorem addAll_slots :
    ∀ {rs : List Reply} {s : Nasth}, (∀ r ∈ rs, (s.slot r.reqid).isSome) →
      (rs.map Reply.reqid).Nodup →
      ∃ s', addAll s (rs.map Reply.added) = some s' ∧
        (∀ id, id ∉ rs.map Reply.reqid → s'.slot id = s.slot id) ∧
        ∀ r ∈ rs, s'.slot r.reqid
          = some ⟨.data (joinItems r.aa), (joinItems r.aa).length, errcodeOf r.rCode, r.reqid⟩ := by
  intro rs
  induction rs with
  | nil =>
    intro s _ _
    exact ⟨s, rfl, fun _ _ => rfl, fun r hr => absurd hr (by simp)⟩
  | cons r rs ih =>
    intro s hslots hnodup
    rw [List.map_cons, List.nodup_cons] at hnodup
    obtain ⟨s₁, h₁⟩ := addresponse_some (hslots r List.mem_cons_self) r.rCode (joinItems r.aa)
    obtain ⟨hother, hself⟩ := addresponse_slot h₁
    have hslots₁ : ∀ x ∈ rs, (s₁.slot x.reqid).isSome := by
      intro x hx
      have hne : x.reqid ≠ r.reqid := fun he => hnodup.1 (he ▸ List.mem_map_of_mem hx)
      rw [hother x.reqid hne]
      exact hslots x (List.mem_cons_of_mem _ hx)
    obtain ⟨s', hall, hkeep, hrest⟩ := ih hslots₁ hnodup.2
    refine ⟨s', ?_, ?_, ?_⟩
    · rw [List.map_cons, addAll]
      show (addresponse s r.reqid r.rCode (joinItems r.aa)).bind _ = _
      rw [h₁]
      exact hall
    · intro id hid
      rw [List.map_cons, List.mem_cons, not_or] at hid
      rw [hkeep id hid.2, hother id hid.1]
    · intro x hx
      rcases List.mem_cons.mp hx with rfl | hx
      · rw [hkeep x.reqid hnodup.1, hself]
        obtain ⟨ar, har⟩ := Option.isSome_iff_exists.mp (hslots x List.mem_cons_self)
        rw [har]
        rfl
      · exact hrest x hx

/-! ## `build_result` -/

/-- Bytes that are no separators join the current item. -/
theorem buildResultLoop_append {v : Bytes} (hv : NASTSEP ∉ v) :
    ∀ {cur rest : Bytes}, buildResultLoop cur (v ++ rest) = buildResultLoop (cur ++ v) rest := by
  induction v with
  | nil =>
    intro cur rest
    rw [List.nil_append, List.append_nil]
  | cons b v ih =>
    intro cur rest
    obtain ⟨hb, hv'⟩ := not_or.mp fun h => hv (List.mem_cons.mpr h)
    rw [List.cons_append, buildResultLoop, if_neg (fun h => hb h.symm), ih hv', List.append_assoc,
      List.singleton_append]

/-- The client's list of items for what the server sent: no items are one empty item. -/
def resultOf (aa : List Bytes) : List Bytes := if aa = [] then [[]] else aa

/-- `build_result` undoes the joining of the items. -/
theorem buildResult_join :
    ∀ {aa : List Bytes}, (∀ v ∈ aa, NASTSEP ∉ v) → buildResult (joinItems aa) = resultOf aa := by
  intro aa
  induction aa with
  | nil => intro _; rfl
  | cons v rest ih =>
    intro hsep
    have hv := hsep v List.mem_cons_self
    cases rest with
    | nil =>
      rw [joinItems_single, buildResult, ← List.append_nil v, buildResultLoop_append hv]
      simp [buildResultLoop, resultOf]
    | cons w rest =>
      have hrest := ih fun x hx => hsep x (List.mem_cons_of_mem _ hx)
      have hcut : joinItems (v :: w :: rest) = v ++ (NASTSEP :: joinItems (w :: rest)) := by
        rw [joinItems_cons, List.append_assoc, List.singleton_append]
      rw [hcut, buildResult, buildResultLoop_append hv, List.nil_append, buildResultLoop,
        if_pos rfl]
      exact congrArg (v :: ·) hrest

theorem resultOf_inj {aa bb : List Bytes} (h : resultOf aa = resultOf bb) :
    aa = bb ∨ aa = [] ∧ bb = [[]] ∨ aa = [[]] ∧ bb = [] := by
  unfold resultOf at h
  split at h
  next ha =>
    split at h
    next hb => exact Or.inl (ha.trans hb.symm)
    next => exact Or.inr (Or.inl ⟨ha, h.symm⟩)
  next =>
    split at h
    next hb => exact Or.inr (Or.inr ⟨h, hb⟩)
    next => exact Or.inl h

/-! ## Responses survive the wire -/

/-- The responses `rs`, one at least, arrive together in one `recv`: each was sent by
`arr_send_response`, their ids are different and have slots, and their frames are what was
received. -/
structure Arrives (s : Nasth) (rs : List Reply) (chunk : Bytes) : Prop where
  nonempty : rs ≠ []
  ids : ∀ r ∈ rs, 1 ≤ r.reqid ∧ r.reqid ≤ 65534 ∧ (s.slot r.reqid).isSome
  codes : ∀ r ∈ rs, r.rCode = NASTOK ∨ r.rCode = NASTERR
  items : ∀ r ∈ rs, ∀ v ∈ r.aa, NASTSEP ∉ v
  differ : (rs.map Reply.reqid).Nodup
  sent : ∃ frames : List Bytes,
    rs.map (fun r => arrSendResponse r.reqid r.rCode r.aa) = frames.map some ∧
    chunk = frames.flatten
  fits : chunk.length ≤ 1024

/-- What arrives is the frames. -/
theorem Arrives.frames {s : Nasth} {rs : List Reply} {chunk : Bytes} (h : Arrives s rs chunk) :
    (∀ r ∈ rs, Fits r.aa) ∧ chunk = (rs.map Reply.frame).flatten := by
  obtain ⟨frames, hsent, rfl⟩ := h.sent
  obtain ⟨hfits, rfl⟩ := sent_frames hsent
  exact ⟨hfits, rfl⟩

/-- What the slots hold after the loop. -/
theorem receive_slots {s : Nasth} {rs : List Reply} {chunk : Bytes} (h : Arrives s rs chunk)
    (tid : UInt16) (around : Int → Byte) :
    ∃ s', receive s tid chunk around = some s' ∧ ∀ r ∈ rs, s'.slot r.reqid
      = some ⟨.data (joinItems r.aa), (joinItems r.aa).length, errcodeOf r.rCode, r.reqid⟩ := by
  obtain ⟨hfits, rfl⟩ := h.frames
  obtain ⟨s', hall, -, hslots⟩ := addAll_slots (fun r hr => (h.ids r hr).2.2) h.differ
  refine ⟨s', ?_, hslots⟩
  unfold receive
  rw [readChunk_frames h.nonempty hfits around, hall]
  rfl

/-- The result of a slot that holds a response. -/
theorem nastGetResult_reply {s : Nasth} {r : Reply} (hid : r.reqid ≠ 0)
    (hsep : ∀ v ∈ r.aa, NASTSEP ∉ v)
    (hslot : s.slot r.reqid
      = some ⟨.data (joinItems r.aa), (joinItems r.aa).length, errcodeOf r.rCode, r.reqid⟩) :
    nastGetResult s r.reqid = some (some (resultOf r.aa)) := by
  unfold nastGetResult
  rw [if_neg hid, hslot]
  simp only [NastResponse.bytes, Nat.le_refl, if_true, List.take_length, Option.map_some]
  rw [buildResult_join hsep]

/-- After the loop every id's slot holds its own response, with `NAST_OK` exactly for
`NASTOK`, and the result of the slot is the list that was sent, or one empty item for no
items. And two lists with one result are equal, or are no items and one empty item. -/
theorem responses_survive :
    (∀ s rs chunk, Arrives s rs chunk → ∀ tid around, ∃ s',
      receive s tid chunk around = some s' ∧ ∀ r ∈ rs,
        (∃ ar, s'.slot r.reqid = some ar ∧ ar.reqid = r.reqid ∧
          (ar.errcode = .NAST_OK ↔ r.rCode = NASTOK)) ∧
        nastGetResult s' r.reqid = some (some (if r.aa = [] then [[]] else r.aa))) ∧
    ∀ s₁ rs₁ chunk₁ tid₁ around₁ s₁' s₂ rs₂ chunk₂ tid₂ around₂ s₂',
      Arrives s₁ rs₁ chunk₁ → receive s₁ tid₁ chunk₁ around₁ = some s₁' →
      Arrives s₂ rs₂ chunk₂ → receive s₂ tid₂ chunk₂ around₂ = some s₂' →
      ∀ r₁ ∈ rs₁, ∀ r₂ ∈ rs₂, nastGetResult s₁' r₁.reqid = nastGetResult s₂' r₂.reqid →
        r₁.aa = r₂.aa ∨ r₁.aa = [] ∧ r₂.aa = [[]] ∨ r₁.aa = [[]] ∧ r₂.aa = [] := by
  have hid : ∀ {s rs chunk}, Arrives s rs chunk → ∀ r ∈ rs, r.reqid ≠ 0 := by
    intro s rs chunk h r hr h0
    have hone := (h.ids r hr).1
    rw [h0] at hone
    exact absurd hone (by decide)
  constructor
  · intro s rs chunk h tid around
    obtain ⟨s', hrec, hslots⟩ := receive_slots h tid around
    refine ⟨s', hrec, fun r hr => ⟨⟨_, hslots r hr, rfl, ?_⟩, ?_⟩⟩
    · rcases h.codes r hr with hc | hc
      · rw [hc]
        exact iff_of_true rfl rfl
      · rw [hc]
        have herr : errcodeOf NASTERR ≠ .NAST_OK := by decide
        exact iff_of_false herr (by decide)
    · exact nastGetResult_reply (hid h r hr) (h.items r hr) (hslots r hr)
  · intro s₁ rs₁ chunk₁ tid₁ around₁ s₁' s₂ rs₂ chunk₂ tid₂ around₂ s₂' h₁ hrec₁ h₂ hrec₂
      r₁ hr₁ r₂ hr₂ hsame
    obtain ⟨t₁, ht₁, hslots₁⟩ := receive_slots h₁ tid₁ around₁
    obtain ⟨t₂, ht₂, hslots₂⟩ := receive_slots h₂ tid₂ around₂
    obtain rfl := Option.some.inj (hrec₁.symm.trans ht₁)
    obtain rfl := Option.some.inj (hrec₂.symm.trans ht₂)
    rw [nastGetResult_reply (hid h₁ r₁ hr₁) (h₁.items r₁ hr₁) (hslots₁ r₁ hr₁),
      nastGetResult_reply (hid h₂ r₂ hr₂) (h₂.items r₂ hr₂) (hslots₂ r₂ hr₂)] at hsame
    exact resultOf_inj (Option.some.inj (Option.some.inj hsame))

/-- A table with slots for the ids 1 and 2, and a record and no items for them. -/
theorem responses_survive_two :
    ∃ s', receive (growResponses ⟨[]⟩ 2) 1
        [0, 10, 0, 2, 0xf1, 97, 0xfc, 0xfc, 98, 99, 0, 5, 0, 1, 0xf2] (fun _ => 0) = some s' ∧
      nastGetResult s' 2 = some (some [[97], [], [98, 99]]) ∧
      nastGetResult s' 1 = some (some [[]]) := by
  have harrives : Arrives (growResponses ⟨[]⟩ 2)
      [⟨2, NASTOK, [[97], [], [98, 99]]⟩, ⟨1, NASTERR, []⟩]
      [0, 10, 0, 2, 0xf1, 97, 0xfc, 0xfc, 98, 99, 0, 5, 0, 1, 0xf2] := by
    refine ⟨by decide, by decide, by decide, by decide, by decide, ?_, by decide⟩
    exact ⟨[[0, 10, 0, 2, 0xf1, 97, 0xfc, 0xfc, 98, 99], [0, 5, 0, 1, 0xf2]],
      by decide, by decide⟩
  obtain ⟨s', hrec, hall⟩ := responses_survive.1 _ _ _ harrives 1 fun _ => 0
  exact ⟨s', hrec, (hall _ List.mem_cons_self).2, (hall ⟨1, NASTERR, []⟩ (by simp)).2⟩

end Nastd.Client
