import Nastd.Client.Receive
import Nastd.Client.KeyRequests
import Nastd.Client.TableHistory
import Nastd.Client.Matching

/-!
# A call of the library

What `client/nastapi.c` does around the wire: the requests that carry no key, the wait in
`getresponse`, and the three ways to look at what came of it (`nast_get_result`,
`nast_geterr`, `nast_errmsg`).

`getresponse` takes the handle's lock, looks at the table and then at the socket, and lets
go of the lock before it does so again, or before it looks at the response it found or sets
its error. Each such turn is `getresponseTurn`; before it and once it has let go of the
lock other threads may have changed the table. It gives up on the 51st turn that brings
nothing for 10 ms.

Other threads read from the same socket, so a response can come by way of one of them.
`getresponse_ends` is that the call ends, and that its answer is the last frame anyone has
read for it.
-/

namespace Nastd.Client

open Nastd.Server

/-- What the socket brings to one turn. -/
inductive Net where
  /-- `select` returns -1. -/
  | selectFailed
  /-- `select` times out. -/
  | quiet
  /-- `recv` returns -1. -/
  | recvFailed
  /-- `recv` returns 0. -/
  | closed
  | chunk (bytes : Bytes) (around : Int → Byte)

/-- The id a frame is put on the table under. -/
def Added.reqid : Added → UInt16
  | response reqid _ _ => reqid
  | tooShort reqid _ => reqid

/-- What other threads do to the table: they put these frames on it, and otherwise leave the slot
of `tid` alone. -/
structure Others (tid : UInt16) where
  act : Nasth → Nasth
  frames : List Added
  ids : ∀ a ∈ frames, a.reqid ≠ 0
  slot : ∀ s s', (s.slot tid).isSome → addAll s frames = some s' → (act s).slot tid = s'.slot tid

/-- Nothing happens. -/
def Others.none {tid : UInt16} : Others tid where
  act := fun s => s
  frames := []
  ids := fun _ h => absurd h List.not_mem_nil
  slot := fun _ _ _ h => congrArg (Nasth.slot · tid) (Option.some.inj h)

/-- Another thread reads these frames from the socket. -/
def Others.reads {tid : UInt16} (frames : List Added) (ids : ∀ a ∈ frames, a.reqid ≠ 0) :
    Others tid where
  act := fun s => (addAll s frames).getD s
  frames := frames
  ids := ids
  slot := fun s s' _ h => by rw [h]; rfl

/-- Another thread begins a call. Nothing of that is in the slot of `tid`. -/
def Others.begins {tid : UInt16} (r : UInt16) (hr : r ≠ tid) : Others tid where
  act := fun s => (sendcmd s r).getD s
  frames := []
  ids := fun _ h => absurd h List.not_mem_nil
  slot := fun s s' hslot h => by
    obtain rfl := Option.some.inj h
    cases hdel : sendcmd s r with
    | none => rfl
    | some s' =>
      rw [Option.getD_some, modify_slot_ne hdel (Ne.symm hr)]
      rcases @grow_slot s r tid with ⟨-, hsame⟩ | ⟨hnone, -⟩
      · exact hsame
      · rw [hnone] at hslot
        exact absurd hslot (by simp)

/-- One turn: what other threads do to the table before it, what the socket brings, and what
they do once the lock is free again. -/
structure Turn (tid : UInt16) where
  before : Others tid
  net : Net
  unlocked : Others tid

/-- A turn in which no other thread does anything. -/
def Turn.alone {tid : UInt16} (net : Net) : Turn tid := ⟨.none, net, .none⟩

/-- How a turn, or a call, ends. -/
inductive TurnEnd where
  | again (ntries : Nat) (s : Nasth)
  | done (rc : Int) (s : Nasth)

/-- `nast_set_error`, and the call returns -1. -/
def giveUp (s : Nasth) (tid : UInt16) (code : Errcode) : Option TurnEnd :=
  (nastSetError s tid code).map (.done (-1))

/-- One turn of `getresponse`, from one `reread` to the next. -/
def getresponseTurn (tid : UInt16) (ntries : Nat) (s : Nasth) (t : Turn tid) : Option TurnEnd :=
  let s := t.before.act s
  match checkresponse s tid with
  | none => none
  | some rc =>
    if rc = 0 then
      let s := t.unlocked.act s
      (s.slot tid).map fun ar => .done (if ar.errcode = .NAST_OK then 0 else -1) s
    else
      match t.net with
      | .selectFailed => giveUp (t.unlocked.act s) tid .NAST_SERVER_GONE
      | .quiet =>
        let s := t.unlocked.act s
        if ntries < 50 then some (.again (ntries + 1) s) else giveUp s tid .NAST_TIMEDOUT
      | .recvFailed => giveUp (t.unlocked.act s) tid .NAST_SERVER_GONE
      | .closed => giveUp (t.unlocked.act s) tid .NAST_SERVER_GONE
      | .chunk bytes around =>
        (addAll s (readChunk bytes around).1).bind fun s' =>
          let s' := t.unlocked.act s'
          if (readChunk bytes around).2 then some (.again ntries s')
          else giveUp s' tid .NAST_UNKNOWN_RESPONSE

/-- `getresponse`, as far as these turns take it. -/
def getresponse (tid : UInt16) : Nat → Nasth → List (Turn tid) → Option TurnEnd
  | ntries, s, [] => some (.again ntries s)
  | ntries, s, t :: ts =>
    match getresponseTurn tid ntries s t with
    | none => none
    | some (.done rc s') => some (.done rc s')
    | some (.again ntries' s') => getresponse tid ntries' s' ts

/-- `nast_geterr`. -/
def nastGeterr (s : Nasth) (tid : UInt16) : Option Errcode :=
  if tid = 0 then none
  else
    match s.slot tid with
    | none => some .NAST_OK
    | some ar => some ar.errcode

/-- A string literal, with its NUL. -/
def literal (text : String) : Bytes := ascii text ++ [0]

/-- `nast_errmsgs`. That of `NAST_SERVER_ERR` is a NULL that nobody looks at. -/
def nastErrmsgs : Errcode → Bytes
  | .NAST_OK => literal "No errors"
  | .NAST_SERVER_GONE => literal "The NASTD server has gone away"
  | .NAST_NOMEM => literal "Couldn't allocate enough memory"
  | .NAST_UNKNOWN_RESPONSE => literal "Server response is unknown"
  | .NAST_TIMEDOUT => literal "Connection to server timed out"
  | .NAST_UNKNOWN_OPT => literal "Unknown option returned"
  | .NAST_SERVER_ERR => []

/-- `nast_errmsg`: all the bytes of the block it returns. The block of the server's text is as
long as the text, so there is no NUL behind it. -/
def nastErrmsg (s : Nasth) (tid : UInt16) : Option Bytes :=
  match nastGeterr s tid with
  | none => none
  | some ec =>
    if ec = .NAST_SERVER_ERR then
      match nastGetResult s tid with
      | none => none
      | some none => some (nastErrmsgs .NAST_UNKNOWN_RESPONSE)
      | some (some []) => some (nastErrmsgs .NAST_UNKNOWN_RESPONSE)
      | some (some (text :: _)) => some text
    else some (nastErrmsgs ec)

/-- The frame of a command without arguments. -/
def plainRequest (tid : UInt16) (cmd : Byte) : Bytes :=
  htons 6 ++ htons tid ++ [NASTCMD, cmd]

/-- What `nast_stats` sends. -/
def nastStats (tid : UInt16) : Bytes := plainRequest tid NASTSTATS

/-- What `nast_options_get` sends. -/
def nastOptionsGet (tid : UInt16) : Bytes := plainRequest tid NASTOPTGET

/-- The option bytes `nast_options_set` writes. -/
def optionBytes (opts : NastOptions) : Bytes :=
  let flag := fun b : Bool => if b then OPTTRUE else OPTFALSE
  [OPTQCACHE, flag opts.useQcache] ++ [OPTLOCALDB, flag opts.useLocaldb] ++
    [OPTFALLASYNC, flag opts.fallthroughAsync] ++ [OPTALWAYSFALL, flag opts.alwaysFallthrough] ++
    [OPTFAILONCE, flag opts.failOnce] ++ [OPTNOFALLTHROUGH, flag opts.noFallthrough]

/-- What `nast_options_set` sends. -/
def nastOptionsSet (tid : UInt16) (opts : NastOptions) : Bytes :=
  htons (UInt16.ofNat (6 + (optionBytes opts).length)) ++ htons tid ++ [NASTCMD, NASTOPTSET] ++
    optionBytes opts

/-- How `nast_options_get` goes on when `getresponse` has returned 0: it takes at most 512
bytes of the one item, and goes through them with the `switch` of `do_opt_set`. `behind`
is what is in its buffer behind an odd number of them. -/
def nastOptionsRead (s : Nasth) (tid : UInt16) (opts : NastOptions) (behind : Byte) :
    Option (Int × Nasth × NastOptions) :=
  match nastGetResult s tid with
  | some (some [item]) =>
    let r := setOpts behind opts (item.take 512)
    if r.2 then some (0, s, r.1)
    else (nastSetError s tid .NAST_UNKNOWN_OPT).map fun s' => (-1, s', r.1)
  | some (some _) => (nastSetError s tid .NAST_UNKNOWN_RESPONSE).map fun s' => (-1, s', opts)
  | _ => none

/-! ## What the calls leave of a slot -/

/-- A turn in which nothing came. -/
def Net.isQuiet : Net → Bool
  | .quiet => true
  | _ => false

/-- The turns that brought nothing. -/
def quiets {tid : UInt16} (turns : List (Turn tid)) : Nat := turns.countP fun t => t.net.isQuiet

/-- The error a call ends with when its last turn brought this. -/
def Net.errcode : Net → Errcode
  | .selectFailed => .NAST_SERVER_GONE
  | .quiet => .NAST_TIMEDOUT
  | .recvFailed => .NAST_SERVER_GONE
  | .closed => .NAST_SERVER_GONE
  | .chunk _ _ => .NAST_UNKNOWN_RESPONSE

/-- The frames a turn puts on the table. -/
def Net.frames : Net → List Added
  | .chunk bytes around => (readChunk bytes around).1
  | _ => []

/-- The frames that come in a turn that does not end the call. -/
def Turn.frames {tid : UInt16} (t : Turn tid) : List Added :=
  t.before.frames ++ t.net.frames ++ t.unlocked.frames

/-- No frame that these turns read has the id 0, for which there is no slot. -/
def NoIdZero {tid : UInt16} (turns : List (Turn tid)) : Prop :=
  ∀ t ∈ turns, ∀ a ∈ t.net.frames, a.reqid ≠ 0

/-- The last of these frames with the id. -/
def lastFor (tid : UInt16) (as : List Added) : Option Added :=
  (as.filter fun a => a.reqid = tid).getLast?

/-- The code that a frame leaves in its slot. -/
def Added.errcode : Added → Errcode
  | response _ code _ => errcodeOf code
  | tooShort _ _ => .NAST_NOMEM

/-- A good response, and what is in it. -/
def Added.isGood : Added → Bool
  | response _ code _ => decide (code = NASTOK)
  | tooShort _ _ => false

/-- The ways the turn `t` ends a call, after `n` turns that brought nothing and after the
frames `seen`. -/
inductive CallEnds (tid : UInt16) (n : Nat) (seen : List Added) (t : Turn tid) (rc : Int)
    (s : Nasth) : Prop where
  /-- There was a frame when the call looked at the table. What it returns is in the last one. -/
  | answered (a : Added) : lastFor tid (seen ++ t.before.frames) ≠ none →
      lastFor tid (seen ++ t.before.frames ++ t.unlocked.frames) = some a →
      rc = (if a.isGood then 0 else -1) → nastGeterr s tid = some a.errcode →
      (∀ code body, a = .response tid code body →
        nastGetResult s tid = some (some (buildResult body))) →
      CallEnds tid n seen t rc s
  /-- There was none. The call fails, and its error is what the socket brought. -/
  | failed : lastFor tid (seen ++ t.before.frames) = none → rc = -1 →
      nastGeterr s tid = some t.net.errcode → (t.net.isQuiet = true → n = 50) →
      CallEnds tid n seen t rc s

theorem geterr_slot {s : Nasth} {tid : UInt16} {ar : NastResponse} (h : s.slot tid = some ar) :
    nastGeterr s tid = some ar.errcode := by
  unfold nastGeterr
  rw [h]
  split
  · next h0 =>
    rw [h0] at h
    exact absurd h (by simp [Nasth.slot])
  · rfl

/-- What `nast_get_result` makes of a slot with a response. -/
theorem nastGetResult_slot {tid : UInt16} {s : Nasth} {ar : NastResponse} {body : Bytes}
    (htid : tid ≠ 0)
    (hslot : s.slot tid = some ar) (hbuf : ar.buffer = .data body)
    (hlen : ar.bufflen = body.length) :
    nastGetResult s tid = some (some (buildResult body)) := by
  unfold nastGetResult
  rw [if_neg htid, hslot]
  simp only [NastResponse.bytes, hbuf, hlen, Nat.le_refl, if_true, List.take_length,
    Option.map_some]

/-- A change that is defined everywhere needs only an id other than 0. -/
theorem modify_total {s : Nasth} {r : UInt16} {f : NastResponse → NastResponse} (hr : r ≠ 0) :
    ∃ s', s.modify r (fun ar => some (f ar)) = some s' :=
  modify_defined hr fun _ _ => rfl

theorem addOne_total {s : Nasth} {a : Added} (hr : a.reqid ≠ 0) : ∃ s', addOne s a = some s' := by
  cases a with
  | response reqid code body =>
    obtain ⟨s₁, h₁⟩ := modify_total (s := s)
      (f := fun ar => { ar with errcode := errcodeOf code }) hr
    obtain ⟨s₂, h₂⟩ := modify_total (s := s₁)
      (f := fun ar => { ar with reqid := reqid, buffer := .data body, bufflen := body.length }) hr
    exact ⟨s₂, Option.bind_eq_some_iff.mpr ⟨s₁, h₁, h₂⟩⟩
  | tooShort reqid code =>
    obtain ⟨s₁, h₁⟩ := modify_total (s := s)
      (f := fun ar => { ar with errcode := errcodeOf code }) hr
    obtain ⟨s₂, h₂⟩ := modify_total (s := s₁)
      (f := fun ar => { ar with reqid := reqid, buffer := .null, errcode := .NAST_NOMEM }) hr
    exact ⟨s₂, Option.bind_eq_some_iff.mpr ⟨s₁, h₁, h₂⟩⟩

theorem addAll_total :
    ∀ {as : List Added} {s : Nasth}, (∀ a ∈ as, a.reqid ≠ 0) → ∃ s', addAll s as = some s' := by
  intro as
  induction as with
  | nil => intro s _; exact ⟨s, rfl⟩
  | cons a as ih =>
    intro s h
    obtain ⟨s₁, h₁⟩ := addOne_total (s := s) (h a List.mem_cons_self)
    obtain ⟨s', h'⟩ := ih (s := s₁) fun x hx => h x (List.mem_cons_of_mem _ hx)
    exact ⟨s', Option.bind_eq_some_iff.mpr ⟨s₁, h₁, h'⟩⟩

/-! ## The slot of a call -/

section Shows

variable {tid : UInt16} {s s' : Nasth}

theorem lastFor_append (as bs : List Added) :
    lastFor tid (as ++ bs) = (lastFor tid bs).or (lastFor tid as) := by
  unfold lastFor
  rw [List.filter_append, List.getLast?_append]

theorem lastFor_singleton (a : Added) :
    lastFor tid [a] = if a.reqid = tid then some a else none := by
  unfold lastFor
  by_cases h : a.reqid = tid
  · rw [List.filter_cons_of_pos (by simpa using h), if_pos h]
    rfl
  · rw [List.filter_cons_of_neg (by simpa using h), if_neg h]
    rfl

theorem reqid_of_lastFor {as : List Added} {a : Added} (h : lastFor tid as = some a) :
    a.reqid = tid := by
  have hmem := List.mem_of_getLast? h
  simpa using (List.mem_filter.mp hmem).2

/-- What a frame makes of its slot. -/
def Added.fill (ar : NastResponse) : Added → NastResponse
  | response reqid code body => ⟨.data body, body.length, errcodeOf code, reqid⟩
  | tooShort reqid _ => ⟨.null, ar.bufflen, .NAST_NOMEM, reqid⟩

/-- The slot of `tid` is there, and shows the last of these frames. -/
def Shows (tid : UInt16) (as : List Added) (s : Nasth) : Prop :=
  match lastFor tid as with
  | none => (s.slot tid).isSome ∧ s.has tid = false
  | some a => ∃ ar, s.slot tid = some (a.fill ar)

theorem Shows.isSome {as : List Added} (h : Shows tid as s) : (s.slot tid).isSome := by
  unfold Shows at h
  split at h
  · exact h.1
  · obtain ⟨ar, har⟩ := h
    rw [har]
    rfl

theorem Shows.congr {as : List Added} (h : Shows tid as s) (hslot : s'.slot tid = s.slot tid) :
    Shows tid as s' := by
  unfold Shows at h ⊢
  rw [hslot, has_of_slot hslot]
  exact h

/-- `checkresponse` finds a frame if there was one; the id 65535 alone looks like none. -/
theorem Shows.has {as : List Added} (h : Shows tid as s) (hff : tid ≠ 0xffff) :
    s.has tid = (lastFor tid as).isSome := by
  unfold Shows at h
  split at h
  · next hnone =>
    rw [hnone]
    exact h.2
  · next a ha =>
    obtain ⟨ar, har⟩ := h
    have hid : (a.fill ar).reqid = tid := by
      rw [← reqid_of_lastFor ha]
      cases a with
      | response reqid code body => rfl
      | tooShort reqid code => rfl
    unfold Nasth.has
    rw [har, ha]
    dsimp only
    rw [hid]
    exact decide_eq_true fun hmark => hff (short_eq_neg_one hmark)

/-- What a frame does to its slot, and to the others. -/
theorem addOne_slot {a : Added} (h : addOne s a = some s') :
    (∀ r, r ≠ a.reqid → s'.slot r = s.slot r) ∧
      s'.slot a.reqid = (s.slot a.reqid).map fun ar => a.fill ar := by
  cases a with
  | response reqid code body => exact addresponse_slot h
  | tooShort reqid code =>
    obtain ⟨s₁, herr, hmod⟩ := Option.bind_eq_some_iff.mp h
    constructor
    · intro r hne
      rw [modify_slot_ne hmod hne, modify_slot_ne herr hne]
    · show s'.slot reqid = (s.slot reqid).map _
      rw [modify_slot_self hmod, modify_slot_self herr]
      cases s.slot reqid with
      | none => rfl
      | some ar => rfl

/-- One frame more. -/
theorem Shows.addOne {as : List Added} {a : Added} (h : Shows tid as s)
    (hadd : addOne s a = some s') : Shows tid (as ++ [a]) s' := by
  obtain ⟨hothers, hself⟩ := addOne_slot hadd
  by_cases ha : a.reqid = tid
  · obtain ⟨ar, har⟩ := Option.isSome_iff_exists.mp h.isSome
    rw [ha, har, Option.map_some] at hself
    unfold Shows
    rw [lastFor_append, lastFor_singleton, if_pos ha, Option.some_or]
    exact ⟨ar, hself⟩
  · have hsame := h.congr (hothers tid (Ne.symm ha))
    unfold Shows at hsame ⊢
    rw [lastFor_append, lastFor_singleton, if_neg ha, Option.none_or]
    exact hsame

theorem Shows.addAll {bs : List Added} :
    ∀ {as : List Added} {s s' : Nasth}, Shows tid as s → addAll s bs = some s' →
      Shows tid (as ++ bs) s' := by
  induction bs with
  | nil =>
    intro as s s' h hadd
    obtain rfl := Option.some.inj hadd
    rw [List.append_nil]
    exact h
  | cons b bs ih =>
    intro as s s' h hadd
    obtain ⟨s₁, hone, hrest⟩ := Option.bind_eq_some_iff.mp hadd
    have hall := ih (h.addOne hone) hrest
    rw [List.append_assoc, List.singleton_append] at hall
    exact hall

/-- What other threads do is the frames they put there. -/
theorem Shows.others {as : List Added} (h : Shows tid as s) (o : Others tid) :
    Shows tid (as ++ o.frames) (o.act s) := by
  obtain ⟨s', hadd⟩ := addAll_total (s := s) o.ids
  exact (h.addAll hadd).congr (o.slot s s' h.isSome hadd)

end Shows

/-! ## How `getresponse` ends -/

section Turns

variable {tid : UInt16} {n : Nat} {seen : List Added} {s : Nasth} {t : Turn tid}

theorem check_eq (htid : tid ≠ 0) : checkresponse s tid = some (if s.has tid then 0 else -1) :=
  if_neg htid

theorem check_found (htid : tid ≠ 0) (hhas : s.has tid = true) :
    checkresponse s tid = some 0 := by
  rw [check_eq htid, if_pos hhas]

theorem check_missing (htid : tid ≠ 0) (hhas : s.has tid = false) :
    checkresponse s tid = some (-1) := by
  rw [check_eq htid, if_neg (by simp [hhas])]

/-- Giving up always works, and leaves the error. -/
theorem giveUp_eq (htid : tid ≠ 0) (hslot : (s.slot tid).isSome) (code : Errcode) :
    ∃ s', giveUp s tid code = some (.done (-1) s') ∧ nastGeterr s' tid = some code := by
  obtain ⟨s', h⟩ := modify_total (s := s) (f := fun ar => { ar with errcode := code }) htid
  obtain ⟨ar, har⟩ := Option.isSome_iff_exists.mp hslot
  have hself := modify_slot_self h
  rw [har] at hself
  refine ⟨s', ?_, geterr_slot hself⟩
  unfold giveUp nastSetError
  rw [h]
  rfl

/-- A response code is NASTOK exactly if the slot says so. -/
theorem errcodeOf_isGood (code : Byte) : errcodeOf code = .NAST_OK ↔ code = NASTOK := by
  refine ⟨errcodeOf_ok, fun h => ?_⟩
  rw [h]
  rfl

theorem fill_errcode (a : Added) (ar : NastResponse) :
    (a.fill ar).errcode = a.errcode ∧ (a.errcode = .NAST_OK ↔ a.isGood = true) := by
  cases a with
  | response reqid code body =>
    refine ⟨rfl, (errcodeOf_isGood code).trans ?_⟩
    exact (decide_eq_true_iff).symm
  | tooShort reqid code =>
    exact ⟨rfl, fun h => Errcode.noConfusion h, fun h => absurd h Bool.false_ne_true⟩

/-- A turn that finds a frame on the table ends the call with the last one. -/
theorem getresponseTurn_found (htid : tid ≠ 0) (hff : tid ≠ 0xffff) (h : Shows tid seen s)
    (hframe : lastFor tid (seen ++ t.before.frames) ≠ none) :
    ∃ rc s', getresponseTurn tid n s t = some (.done rc s') ∧ CallEnds tid n seen t rc s' := by
  have hbefore := h.others t.before
  have hafter := hbefore.others t.unlocked
  have hhas : (t.before.act s).has tid = true := by
    rw [hbefore.has hff]
    exact Option.isSome_iff_ne_none.mpr hframe
  -- what came while the lock was free may have taken its place
  obtain ⟨a, ha⟩ : ∃ a, lastFor tid (seen ++ t.before.frames ++ t.unlocked.frames) = some a := by
    rw [lastFor_append]
    cases lastFor tid t.unlocked.frames with
    | some a => exact ⟨a, rfl⟩
    | none => exact Option.ne_none_iff_exists'.mp hframe
  have hshown := hafter
  unfold Shows at hshown
  rw [ha] at hshown
  obtain ⟨ar, har⟩ := hshown
  obtain ⟨hcode, hgood⟩ := fill_errcode a ar
  unfold getresponseTurn
  dsimp only
  rw [check_found htid hhas]
  dsimp only
  rw [if_pos rfl, har, Option.map_some]
  refine ⟨_, _, rfl, .answered a hframe ha ?_ ?_ ?_⟩
  · rw [hcode]
    by_cases hg : a.isGood = true
    · rw [if_pos hg, if_pos (hgood.mpr hg)]
    · rw [if_neg hg, if_neg fun hok => hg (hgood.mp hok)]
  · rw [geterr_slot har, hcode]
  · rintro code body rfl
    exact nastGetResult_slot htid har rfl rfl

/-- What one turn does: it ends the call, or goes on with its frames in the slot, and counts
whether nothing came. -/
theorem getresponseTurn_ends (htid : tid ≠ 0) (hff : tid ≠ 0xffff) (h : Shows tid seen s)
    (hn : n ≤ 50) (hzero : ∀ a ∈ t.net.frames, a.reqid ≠ 0) :
    (∃ rc s', getresponseTurn tid n s t = some (.done rc s') ∧ CallEnds tid n seen t rc s') ∨
      ∃ s', getresponseTurn tid n s t = some (.again (n + if t.net.isQuiet then 1 else 0) s') ∧
        Shows tid (seen ++ t.frames) s' ∧ (n + if t.net.isQuiet then 1 else 0) ≤ 50 := by
  by_cases hframe : lastFor tid (seen ++ t.before.frames) ≠ none
  · exact Or.inl (getresponseTurn_found htid hff h hframe)
  rw [not_not] at hframe
  have hbefore := h.others t.before
  have hhas : (t.before.act s).has tid = false := by
    rw [hbefore.has hff, hframe]
    rfl
  -- the ways to end without a frame
  have hfail : ∀ {s₁ : Nasth} {code : Errcode}, (s₁.slot tid).isSome → t.net.errcode = code →
      (t.net.isQuiet = true → n = 50) →
      ∃ rc s', giveUp s₁ tid code = some (.done rc s') ∧ CallEnds tid n seen t rc s' := by
    intro s₁ code hslot hcode hlast
    obtain ⟨s', hgive, herr⟩ := giveUp_eq htid hslot code
    exact ⟨-1, s', hgive, .failed hframe rfl (hcode ▸ herr) hlast⟩
  obtain ⟨before, net, unlocked⟩ := t
  dsimp only at hzero hframe hbefore hhas hfail ⊢
  have hslot : ((unlocked.act (before.act s)).slot tid).isSome := (hbefore.others unlocked).isSome
  unfold getresponseTurn
  dsimp only
  rw [check_missing htid hhas]
  dsimp only
  rw [if_neg (by decide)]
  cases net with
  | selectFailed => exact Or.inl (hfail hslot rfl fun h => absurd h (by decide))
  | recvFailed => exact Or.inl (hfail hslot rfl fun h => absurd h (by decide))
  | closed => exact Or.inl (hfail hslot rfl fun h => absurd h (by decide))
  | quiet =>
    dsimp only
    by_cases hmore : n < 50
    · rw [if_pos hmore]
      refine Or.inr ⟨_, rfl, ?_, hmore⟩
      have hnext := hbefore.others unlocked
      unfold Turn.frames Net.frames
      rw [List.append_nil, ← List.append_assoc]
      exact hnext
    · rw [if_neg hmore]
      exact Or.inl (hfail hslot rfl fun _ => by omega)
  | chunk bytes around =>
    dsimp only
    -- the frames are added, and the turn after looks whether one was for this thread
    obtain ⟨s₁, hadd⟩ := addAll_total (s := before.act s) hzero
    have hnext := (hbefore.addAll hadd).others unlocked
    have hsame : (readChunk bytes around).1 = (Net.chunk bytes around).frames := rfl
    rw [hsame, hadd, Option.bind_some]
    by_cases hgo : (readChunk bytes around).2 = true
    · rw [if_pos hgo]
      refine Or.inr ⟨_, rfl, ?_, hn⟩
      unfold Turn.frames
      rw [← List.append_assoc, ← List.append_assoc]
      exact hnext
    · rw [if_neg hgo]
      exact Or.inl (hfail hnext.isSome rfl fun h => absurd h Bool.false_ne_true)

end Turns

/-- The same of any number of turns, after `n` that brought nothing. -/
theorem getresponse_turns {tid : UInt16} (htid : tid ≠ 0) (hff : tid ≠ 0xffff) :
    ∀ {turns : List (Turn tid)} {n : Nat} {seen : List Added} {s : Nasth}, Shows tid seen s →
      n ≤ 50 → NoIdZero turns →
      (∃ s', getresponse tid n s turns = some (.again (n + quiets turns) s') ∧
          n + quiets turns ≤ 50) ∨
        ∃ rc s' used last rest, getresponse tid n s turns = some (.done rc s') ∧
          turns = used ++ last :: rest ∧ n + quiets used ≤ 50 ∧
          CallEnds tid (n + quiets used) (seen ++ used.flatMap Turn.frames) last rc s' := by
  intro turns
  induction turns with
  | nil =>
    intro n seen s _ hn _
    exact Or.inl ⟨s, rfl, hn⟩
  | cons t ts ih =>
    intro n seen s h hn hzero
    have hquiets : ∀ used : List (Turn tid),
        quiets (t :: used) = (if t.net.isQuiet then 1 else 0) + quiets used := by
      intro used
      unfold quiets
      rw [List.countP_cons, Nat.add_comm]
    rw [getresponse]
    rcases getresponseTurn_ends htid hff h hn (hzero t List.mem_cons_self) with
      ⟨rc, s', hturn, hends⟩ | ⟨s₁, hturn, hnext, hn₁⟩
    · rw [hturn]
      refine Or.inr ⟨rc, s', [], t, ts, rfl, rfl, hn, ?_⟩
      rw [List.flatMap_nil, List.append_nil]
      exact hends
    · rw [hturn]
      dsimp only
      rcases ih hnext hn₁ (fun x hx => hzero x (List.mem_cons_of_mem _ hx)) with
        ⟨s', hrest, hle⟩ | ⟨rc, s', used, last, rest, hrest, rfl, hle, hends⟩
      · rw [Nat.add_assoc, ← hquiets] at hrest hle
        exact Or.inl ⟨s', hrest, hle⟩
      · rw [Nat.add_assoc, ← hquiets] at hle hends
        rw [List.append_assoc, ← List.flatMap_cons] at hends
        exact Or.inr ⟨rc, s', t :: used, last, rest, hrest, rfl, hle, hends⟩

/-- **`getresponse` ends, with the last response there is.** Whatever the socket brings but a frame
of id 0, and whatever frames other threads put on the table in between, a call whose slot
is empty never waits through more than 50 turns without anything. If there is a frame
for it when it looks, it returns what the last one says: 0 exactly for a response with the
code NASTOK. Otherwise it returns -1 with the error of the turn that ended it. -/
theorem getresponse_ends (tid : UInt16) (s : Nasth) (turns : List (Turn tid)) (htid : tid ≠ 0)
    (hff : tid ≠ 0xffff) (hslot : (s.slot tid).isSome) (hempty : s.has tid = false)
    (hzero : NoIdZero turns) :
    (∃ s', getresponse tid 0 s turns = some (.again (quiets turns) s') ∧ quiets turns ≤ 50) ∨
      ∃ rc s' used last rest, getresponse tid 0 s turns = some (.done rc s') ∧
        turns = used ++ last :: rest ∧ quiets used ≤ 50 ∧
        CallEnds tid (quiets used) (used.flatMap Turn.frames) last rc s' := by
  have hshows : Shows tid [] s := ⟨hslot, hempty⟩
  have h := getresponse_turns htid hff hshows (Nat.zero_le 50) hzero
  simp only [Nat.zero_add, List.nil_append] at h
  exact h

/-- Thread 7 waits while thread 9 begins a call of its own. Each of them then reads the answer of
the other. -/
def sharedTurns : List (Turn 7) :=
  [⟨.begins 9 (by decide), .quiet, .none⟩,
    ⟨.none, .chunk (responseFrame 9 NASTERR [ascii "no"]) (fun _ => 0), .none⟩,
    ⟨.reads [.response 7 NASTOK (ascii "ok")] (by decide), .quiet, .none⟩]

theorem getresponse_ends_shared :
    ∃ s' used last rest, getresponse 7 0 (growResponses ⟨[]⟩ 7) sharedTurns = some (.done 0 s') ∧
      sharedTurns = used ++ last :: rest ∧ quiets used ≤ 50 ∧
      CallEnds 7 (quiets used) (used.flatMap Turn.frames) last 0 s' := by
  have hdone : ∃ s', getresponse 7 0 (growResponses ⟨[]⟩ 7) sharedTurns = some (.done 0 s') :=
    ⟨_, rfl⟩
  obtain ⟨s₀, hdone⟩ := hdone
  have hzero : NoIdZero sharedTurns := by
    unfold NoIdZero sharedTurns
    decide
  rcases getresponse_ends 7 (growResponses ⟨[]⟩ 7) sharedTurns (by decide) (by decide) (by decide)
    (by decide) hzero with ⟨s', hagain, -⟩ | ⟨rc, s', used, last, rest, hrun, hturns, hle, hends⟩
  · rw [hdone] at hagain
    exact absurd hagain (by simp)
  · rw [hdone] at hrun
    obtain ⟨rfl, rfl⟩ := TurnEnd.done.inj (Option.some.inj hrun)
    exact ⟨s₀, used, last, rest, hdone, hturns, hle, hends⟩

/-! ## A call that is answered -/

section Answered

variable {tid : UInt16} {s : Nasth}

/-- Turns without anything change nothing. -/
theorem getresponse_quiet (htid : tid ≠ 0) (hhas : s.has tid = false) (rest : List (Turn tid)) :
    ∀ {k n : Nat}, n + k ≤ 50 →
      getresponse tid n s (List.replicate k (.alone .quiet) ++ rest)
        = getresponse tid (n + k) s rest := by
  intro k
  induction k with
  | zero => intro n _; rfl
  | succ k ih =>
    intro n hle
    have hturn : getresponseTurn tid n s (.alone .quiet) = some (.again (n + 1) s) := by
      unfold getresponseTurn Turn.alone Others.none
      dsimp only
      rw [check_missing htid hhas]
      dsimp only
      rw [if_neg (by decide), if_pos (by omega)]
    rw [List.replicate_succ, List.cons_append, getresponse, hturn]
    dsimp only
    rw [ih (by omega)]
    congr 1
    omega

/-- The response is put on the table in one turn and found in the next. -/
theorem getresponse_reply (htid : tid ≠ 0) (hff : tid ≠ 0xffff) (hslot : (s.slot tid).isSome)
    (hhas : s.has tid = false) {quiet : Nat} (hquiet : quiet ≤ 50) (code : Byte) {aa : List Bytes}
    (hfits : Fits aa) (around : Int → Byte) :
    ∃ s', getresponse tid 0 s (List.replicate quiet (.alone .quiet) ++
          [.alone (.chunk (responseFrame tid code aa) around), .alone .quiet])
        = some (.done (if errcodeOf code = .NAST_OK then 0 else -1) s') ∧
      s'.slot tid = some ⟨.data (joinItems aa), (joinItems aa).length, errcodeOf code, tid⟩ ∧
      ∀ r, r ≠ tid → s'.slot r = s.slot r := by
  obtain ⟨s', hadd, hother, hself⟩ := @addAll_slots [⟨tid, code, aa⟩] s
    (fun r hr => by rw [List.mem_singleton.mp hr]; exact hslot) (by simp)
  have hslot' := hself ⟨tid, code, aa⟩ List.mem_cons_self
  have hread := @readChunk_frames [⟨tid, code, aa⟩] (by simp)
    (fun r hr => by rw [List.mem_singleton.mp hr]; exact hfits) around
  have hchunk : ([⟨tid, code, aa⟩].map Reply.frame).flatten = responseFrame tid code aa := by
    simp [Reply.frame]
  rw [hchunk] at hread
  have hhas' : s'.has tid = true := by
    unfold Nasth.has
    rw [hslot']
    have hne : short tid ≠ -1 := fun h => hff (short_eq_neg_one h)
    simpa using hne
  refine ⟨s', ?_, hslot', fun r hr => hother r (by simpa using hr)⟩
  rw [getresponse_quiet htid hhas _ (by omega), getresponse]
  have hturn : getresponseTurn tid (0 + quiet) s
      (.alone (.chunk (responseFrame tid code aa) around)) = some (.again (0 + quiet) s') := by
    unfold getresponseTurn Turn.alone Others.none
    dsimp only
    rw [check_missing htid hhas]
    dsimp only
    rw [if_neg (by decide), hread, hadd]
    rfl
  rw [hturn]
  dsimp only
  rw [getresponse]
  have hdone : getresponseTurn tid (0 + quiet) s' (.alone .quiet)
      = some (.done (if errcodeOf code = .NAST_OK then 0 else -1) s') := by
    unfold getresponseTurn Turn.alone Others.none
    dsimp only
    rw [check_found htid hhas']
    dsimp only
    rw [if_pos rfl, hslot']
    rfl
  rw [hdone]

/-- Nothing comes at all: the error is put on the slot. -/
theorem getresponse_silence (htid : tid ≠ 0) (hhas : s.has tid = false) {ar : NastResponse}
    (hslot : s.slot tid = some ar) :
    ∃ s', getresponse tid 0 s (List.replicate 51 (.alone .quiet)) = some (.done (-1) s') ∧
      s'.slot tid = some { ar with errcode := .NAST_TIMEDOUT } ∧
      ∀ r, r ≠ tid → s'.slot r = s.slot r := by
  obtain ⟨s', herr⟩ := modify_total (s := s)
    (f := fun ar => { ar with errcode := .NAST_TIMEDOUT }) htid
  have hself := modify_slot_self herr
  rw [hslot, Option.bind_some] at hself
  refine ⟨s', ?_, hself, fun r hr => modify_slot_ne herr hr⟩
  rw [show List.replicate 51 (.alone .quiet : Turn tid)
      = List.replicate 50 (.alone .quiet) ++ [.alone .quiet] from List.replicate_succ',
    getresponse_quiet htid hhas _ (by omega), getresponse]
  have hlast : getresponseTurn tid (0 + 50) s (.alone .quiet) = some (.done (-1) s') := by
    unfold getresponseTurn Turn.alone Others.none
    dsimp only
    rw [check_missing htid hhas]
    dsimp only
    rw [if_neg (by decide), if_neg (by omega)]
    unfold giveUp nastSetError
    rw [herr]
    rfl
  rw [hlast]

end Answered

end Nastd.Client
