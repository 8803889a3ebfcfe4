import Nastd.Client.Responses
import Nastd.Lib.Names
import Nastd.Lib.Run
import Mathlib.Data.List.Perm.Basic

/-!
# Answers and calls

Many threads on one handle. Each call sends a request under the id of its thread and
waits until the slot of that id holds a response; whichever waiting thread gets the
lock reads the socket for all. After 51 fruitless `select`s a call gives up with
`NAST_TIMEDOUT`, but the request is still out: its answer comes later, under the id
that the next call of this thread uses too. `sendcmd` clears the slot ("make sure we
get rid of old data"), which helps only against what has arrived by then.

`answers_match`: if nobody calls while a request under the same id is unanswered, or
its answer unread, and while another thread of that id is in a call, then what a
successful call lets `nast_get_result` read is the server's answer to that call.
`late_answer_taken` is the run in which it is the answer to the one before.

A frame is received whole. `sendcmd`, the answers and each frame put on the table are
steps of their own; a check with the `select` behind it is one, under the lock.
-/

namespace Nastd.Client

open Nastd.Lib

/-- `thread_id`, from `pthread_self` and `getpid`. Threads may well share one. -/
def threadId (self : UInt64) (pid : UInt32) : UInt16 :=
  (self &&& 0xff).toUInt16 ||| (pid <<< 8).toUInt16

/-- A request the server has not answered. Calls are numbered as they are made. -/
structure Sent where
  call : Nat
  reqid : UInt16
  deriving DecidableEq

/-- An answer on its way; `call` is the call it answers, which no byte of it says. -/
structure Frame where
  call : Nat
  reqid : UInt16
  code : Byte
  body : Bytes
  deriving DecidableEq

/-- Where a thread is. -/
inductive Phase where
  | idle
  /-- In `getresponse`. -/
  | waiting (call ntries : Nat)
  /-- `checkresponse` has returned 0, `errcode` is not read yet. -/
  | found (call : Nat)
  /-- The call has returned 0. -/
  | returned (call : Nat)
  deriving DecidableEq

/-- The call a thread is in, or has the result of. -/
def Phase.call : Phase → Option Nat
  | idle => none
  | waiting call _ => some call
  | found call => some call
  | returned call => some call

/-- A handle, its threads and its connection. `latest` and `answers` only keep track:
the last call made under each id, and what the server has answered to which call. -/
structure Sphincter (θ : Type) where
  handle : Nasth
  phase : θ → Phase
  calls : Nat
  latest : Names UInt16 Nat
  pending : List Sent
  wire : List Frame
  /-- Received and not yet on the table; somebody has the lock while there are any. -/
  got : List Frame
  answers : List (Nat × Byte × Bytes)

inductive Act (θ : Type) where
  /-- A call up to the end of `sendcmd`; the `write` may fail, which no caller looks at. -/
  | call (t : θ) (written : Bool)
  /-- `nast_die`, which waits for nothing. -/
  | die (t : θ)
  /-- The server answers a request. -/
  | answer (k : Nat) (code : Byte) (body : Bytes)
  /-- `recv` gets `k` frames. -/
  | recv (t : θ) (k : Nat)
  /-- `addresponse` of the next of them. -/
  | add
  /-- `select` times out. -/
  | timeout (t : θ)
  /-- `select` or `recv` fails, or what came is too short. -/
  | fail (t : θ) (tooShort : Bool)
  | check (t : θ)
  | finish (t : θ)
  /-- `nast_get_result`. -/
  | result (t : θ)
  /-- The caller is done with the result. -/
  | leave (t : θ)

/-- What `nast_get_result` returned after this call, and what the server has answered
to it. -/
structure Reading where
  call : Nat
  items : List Bytes
  answers : List (Byte × Bytes)
  deriving DecidableEq

/-- The table part of `sendcmd`. -/
def sendcmd (s : Nasth) (reqid : UInt16) : Option Nasth := delresponse (growResponses s reqid) reqid

/-- A new handle. -/
def clientStart {θ : Type} : Sphincter θ where
  handle := ⟨[]⟩
  phase := fun _ => .idle
  calls := 0
  latest := fun _ => none
  pending := []
  wire := []
  got := []
  answers := []

/-- What was read is a response with which the server answered this very call. -/
def Reading.Own (r : Reading) : Prop :=
  ∃ body, (NASTOK, body) ∈ r.answers ∧ r.items = buildResult body

/-- Every result that was read answers its call. -/
def AllOwn (outs : List (List Reading)) : Prop := ∀ out ∈ outs, ∀ r ∈ out, r.Own

section Steps

variable {θ : Type} [DecidableEq θ] (tid : θ → UInt16)

def Sphincter.setPhase (s : Sphincter θ) (t : θ) (phase : Phase) : Sphincter θ :=
  { s with phase := Function.update s.phase t phase }

/-- A new call is out. -/
def Sphincter.called (s : Sphincter θ) (t : θ) (written : Bool) : Sphincter θ :=
  { s.setPhase t (.waiting s.calls 0) with
    calls := s.calls + 1
    latest := s.latest.bind (tid t) s.calls
    pending := if written then s.pending ++ [⟨s.calls, tid t⟩] else s.pending }

/-- The lock is free, and the slot of the thread empty. -/
def Sphincter.absent (s : Sphincter θ) (t : θ) : Prop :=
  s.got = [] ∧ checkresponse s.handle (tid t) = some (-1)

instance (s : Sphincter θ) (t : θ) : Decidable (s.absent tid t) :=
  inferInstanceAs (Decidable (_ ∧ _))

/-- The call gives up with this error. -/
def Sphincter.giveUp (s : Sphincter θ) (t : θ) (code : Errcode) : Option (Sphincter θ) :=
  (nastSetError s.handle (tid t) code).map
    fun handle => { s with handle := handle }.setPhase t .idle

/-- One step of a thread or the server. -/
def clientStep (s : Sphincter θ) : Act θ → Option (List Reading × Sphincter θ)
  | .call t written =>
    match s.phase t with
    | .idle =>
      (sendcmd s.handle (tid t)).bind fun handle =>
        let s' := { s with handle := handle }.called tid t written
        if written then some ([], s')
        else (nastSetError s'.handle (tid t) .NAST_SERVER_GONE).map
          fun handle' => ([], { s' with handle := handle' })
    | _ => none
  | .die t =>
    match s.phase t with
    | .idle => (sendcmd s.handle (tid t)).map fun handle => ([], { s with handle := handle })
    | _ => none
  | .answer k code body =>
    match s.pending[k]? with
    | none => none
    | some p =>
      some ([], { s with
        pending := s.pending.eraseIdx k
        wire := s.wire ++ [⟨p.call, p.reqid, code, body⟩]
        answers := s.answers ++ [(p.call, code, body)] })
  | .recv t k =>
    match s.phase t with
    | .waiting _ _ =>
      if s.absent tid t ∧ 0 < k ∧ k ≤ s.wire.length then
        some ([], { s with got := s.wire.take k, wire := s.wire.drop k })
      else none
    | _ => none
  | .add =>
    match s.got with
    | [] => none
    | f :: rest =>
      (addresponse s.handle f.reqid f.code f.body).map
        fun handle => ([], { s with handle := handle, got := rest })
  | .timeout t =>
    match s.phase t with
    | .waiting call ntries =>
      if s.absent tid t then
        if ntries < 50 then some ([], s.setPhase t (.waiting call (ntries + 1)))
        else (s.giveUp tid t .NAST_TIMEDOUT).map fun s' => ([], s')
      else none
    | _ => none
  | .fail t tooShort =>
    match s.phase t with
    | .waiting _ _ =>
      if s.absent tid t then
        (s.giveUp tid t (if tooShort then .NAST_UNKNOWN_RESPONSE else .NAST_SERVER_GONE)).map
          fun s' => ([], s')
      else none
    | _ => none
  | .check t =>
    match s.phase t with
    | .waiting call _ =>
      if s.got = [] ∧ checkresponse s.handle (tid t) = some 0 then
        some ([], s.setPhase t (.found call))
      else none
    | _ => none
  | .finish t =>
    match s.phase t, s.handle.slot (tid t) with
    | .found call, some ar =>
      some ([], s.setPhase t (if ar.errcode = .NAST_OK then .returned call else .idle))
    | _, _ => none
  | .result t =>
    match s.phase t, nastGetResult s.handle (tid t) with
    | .returned call, some (some items) =>
      some ([⟨call, items, (s.answers.filter (·.1 = call)).map Prod.snd⟩], s)
    | _, _ => none
  | .leave t =>
    match s.phase t with
    | .returned _ => some ([], s.setPhase t .idle)
    | _ => none

end Steps

section Invariant

variable {θ : Type} (tid : θ → UInt16)

/-- No other thread with the id of `t` is in a call, or has a result to read. -/
def Alone (s : Sphincter θ) (t : θ) : Prop :=
  ∀ t', t' ≠ t → tid t' = tid t → s.phase t' = .idle

/-- A call starts when nothing is left of earlier ones under its id. -/
def Settled (s : Sphincter θ) : Act θ → Prop
  | .call t _ =>
    (∀ p ∈ s.pending, p.reqid ≠ tid t) ∧ (∀ f ∈ s.wire ++ s.got, f.reqid ≠ tid t) ∧ Alone tid s t
  | .die t => Alone tid s t
  | _ => True

/-! ## The invariant -/

/-- The slot holds this response. -/
def NastResponse.Stores (ar : NastResponse) (code : Byte) (body : Bytes) : Prop :=
  ar.buffer = .data body ∧ ar.bufflen = body.length ∧ (ar.errcode = .NAST_OK → code = NASTOK)

/-- The requests, frames and stored responses under an id. -/
def Sphincter.load (s : Sphincter θ) (r : UInt16) : Nat :=
  (s.pending.map Sent.reqid).count r + ((s.wire ++ s.got).map Frame.reqid).count r
    + (s.handle.has r).toNat

/-- A call adds at most its own request. -/
theorem Sphincter.load_called [DecidableEq θ] (s : Sphincter θ) (t : θ) (written : Bool)
    (r : UInt16) : (s.called tid t written).load r ≤ s.load r + [tid t].count r := by
  unfold Sphincter.load
  cases written with
  | false => exact Nat.le_add_right _ _
  | true =>
    have hsent : ((s.called tid t true).pending.map Sent.reqid).count r
        = (s.pending.map Sent.reqid).count r + [tid t].count r := by
      show ((s.pending ++ [(⟨s.calls, tid t⟩ : Sent)]).map Sent.reqid).count r = _
      rw [List.map_append, List.count_append]
      rfl
    show ((s.called tid t true).pending.map Sent.reqid).count r
      + ((s.wire ++ s.got).map Frame.reqid).count r + (s.handle.has r).toNat ≤ _
    omega

theorem Sphincter.load_eq_zero {s : Sphincter θ} {r : UInt16}
    (hpending : ∀ p ∈ s.pending, p.reqid ≠ r) (htransit : ∀ f ∈ s.wire ++ s.got, f.reqid ≠ r)
    (hempty : s.handle.has r = false) : s.load r = 0 := by
  unfold Sphincter.load
  rw [hempty, List.count_eq_zero.mpr fun hmem => ?_, List.count_eq_zero.mpr fun hmem => ?_]
  · rfl
  · obtain ⟨f, hf, heq⟩ := List.mem_map.mp hmem
    exact htransit f hf heq
  · obtain ⟨p, hp, heq⟩ := List.mem_map.mp hmem
    exact hpending p hp heq

/-- Everything under an id belongs to the last call made under it. -/
structure Matched (s : Sphincter θ) : Prop where
  pending : ∀ p ∈ s.pending, s.latest p.reqid = some p.call
  transit : ∀ f ∈ s.wire ++ s.got,
    s.latest f.reqid = some f.call ∧ (f.call, f.code, f.body) ∈ s.answers
  /-- One request is answered once and stored once. -/
  once : ∀ r, s.load r ≤ 1
  stored : ∀ r ar, s.handle.slot r = some ar → s.handle.has r = true →
    ∃ n code body, s.latest r = some n ∧ (n, code, body) ∈ s.answers ∧ ar.Stores code body
  busy : ∀ t n, (s.phase t).call = some n → s.latest (tid t) = some n
  apart : ∀ t t', s.phase t ≠ .idle → s.phase t' ≠ .idle → tid t = tid t' → t = t'
  found : ∀ t n, s.phase t = .found n → s.handle.has (tid t) = true
  returned : ∀ t n, s.phase t = .returned n → s.handle.has (tid t) = true ∧
    ∀ ar, s.handle.slot (tid t) = some ar → ar.errcode = .NAST_OK

theorem matched_start : Matched tid (clientStart : Sphincter θ) where
  pending := fun _ h => absurd h List.not_mem_nil
  transit := fun _ h => absurd h List.not_mem_nil
  once := by
    intro r
    have hempty : (clientStart : Sphincter θ).handle.has r = false := by
      unfold Nasth.has Nasth.slot clientStart
      split
      · rfl
      · next h =>
        split at h
        · exact absurd h (by simp)
        · exact absurd h (by simp)
    show 0 + 0 + ((clientStart : Sphincter θ).handle.has r).toNat ≤ 1
    rw [hempty]
    decide
  stored := by
    intro r ar h
    unfold Nasth.slot clientStart at h
    split at h
    · exact absurd h (by simp)
    · exact absurd h (by simp)
  busy := fun _ _ h => absurd h (by simp [clientStart, Phase.call])
  apart := fun _ _ h => absurd rfl h
  found := fun _ _ h => absurd h (by simp [clientStart])
  returned := fun _ _ h => absurd h (by simp [clientStart])

end Invariant

theorem Phase.call_idle {ph : Phase} : ph.call = none ↔ ph = .idle := by
  cases ph with
  | idle => exact ⟨fun _ => rfl, fun _ => rfl⟩
  | waiting call ntries => simp [Phase.call]
  | found call => simp [Phase.call]
  | returned call => simp [Phase.call]

/-- `sendcmd` leaves the slot of its id empty, and touches no response of another. -/
theorem sendcmd_slot {s s' : Nasth} {r : UInt16} (h : sendcmd s r = some s') :
    s'.has r = false ∧
      ∀ r', r' ≠ r → s'.has r' = s.has r' ∧ (s.has r' = true → s'.slot r' = s.slot r') := by
  refine ⟨delresponse_has h, fun r' hne => ?_⟩
  have hdel := modify_slot_ne h hne
  obtain ⟨hhas, hslot⟩ := @grow_has s r r'
  exact ⟨(has_of_slot hdel).trans hhas, fun hold => hdel.trans (hslot hold)⟩

theorem errcodeOf_ok {code : Byte} (h : errcodeOf code = .NAST_OK) : code = NASTOK := by
  unfold errcodeOf at h
  split at h
  · next hok => exact hok
  · split at h
    · exact absurd h (by decide)
    · exact absurd h (by decide)

section Keeps

variable {θ : Type} {tid : θ → UInt16} {s : Sphincter θ} (h : Matched tid s)

include h

/-- A thread in `getresponse` spoils the error code of nobody else. -/
theorem Matched.setError {t : θ} {call ntries : Nat} {code : Errcode} {handle : Nasth}
    (ht : s.phase t = .waiting call ntries) (hcode : code ≠ .NAST_OK)
    (herr : nastSetError s.handle (tid t) code = some handle) :
    Matched tid { s with handle := handle } where
  pending := h.pending
  transit := h.transit
  once := by
    intro r
    show _ + _ + (handle.has r).toNat ≤ 1
    rw [setError_has herr r]
    exact h.once r
  stored := by
    intro r ar hslot hhas
    obtain ⟨hother, hself⟩ := setError_slot herr
    have hhas' : handle.has r = true := hhas
    rw [setError_has herr r] at hhas'
    by_cases hr : r = tid t
    · have hslot' : handle.slot r = some ar := hslot
      rw [hr, hself] at hslot'
      obtain ⟨ar₀, har₀, rfl⟩ := Option.map_eq_some_iff.mp hslot'
      rw [← hr] at har₀
      obtain ⟨n, c, body, hn, hmem, hbuf, hlen, -⟩ := h.stored r ar₀ har₀ hhas'
      exact ⟨n, c, body, hn, hmem, hbuf, hlen, fun hok => absurd hok hcode⟩
    · have hslot' : handle.slot r = some ar := hslot
      rw [hother r hr] at hslot'
      exact h.stored r ar hslot' hhas'
  busy := h.busy
  apart := h.apart
  found := by
    intro t' n hn
    show handle.has (tid t') = true
    rw [setError_has herr]
    exact h.found t' n hn
  returned := by
    intro t' n hn
    obtain ⟨hother, -⟩ := setError_slot herr
    obtain ⟨hhas, hok⟩ := h.returned t' n hn
    -- `t` is still waiting, and only one thread at a time is busy under an id
    have hne : tid t' ≠ tid t := by
      intro heq
      have hn' : s.phase t' = .returned n := hn
      have hsame := h.apart t' t (by rw [hn']; simp) (by rw [ht]; simp) heq
      rw [hsame, ht] at hn'
      exact absurd hn' (by simp)
    refine ⟨?_, fun ar har => ?_⟩
    · show handle.has (tid t') = true
      rw [setError_has herr]
      exact hhas
    · have har' : handle.slot (tid t') = some ar := har
      rw [hother _ hne] at har'
      exact hok ar har'

/-- A thread that is alone under its id may clear the slot. -/
theorem Matched.sendcmd {t : θ} {handle : Nasth} (hidle : s.phase t = .idle)
    (halone : Alone tid s t) (hsend : sendcmd s.handle (tid t) = some handle) :
    Matched tid { s with handle := handle } := by
  obtain ⟨hempty, hother⟩ := sendcmd_slot hsend
  have hne : ∀ t', s.phase t' ≠ .idle → tid t' ≠ tid t := by
    intro t' hbusy heq
    by_cases ht : t' = t
    · exact hbusy (ht ▸ hidle)
    · exact hbusy (halone t' ht heq)
  refine ⟨h.pending, h.transit, ?_, ?_, h.busy, h.apart, ?_, ?_⟩
  · intro r
    have hle : (handle.has r).toNat ≤ (s.handle.has r).toNat := by
      by_cases hr : r = tid t
      · rw [hr, hempty]
        exact Nat.zero_le _
      · exact Nat.le_of_eq (congrArg Bool.toNat (hother r hr).1)
    have honce := h.once r
    unfold Sphincter.load at honce
    show (s.pending.map Sent.reqid).count r + ((s.wire ++ s.got).map Frame.reqid).count r
      + (handle.has r).toNat ≤ 1
    omega
  · intro r ar hslot hhas
    have hr : r ≠ tid t := by
      intro he
      have hhas' : handle.has r = true := hhas
      rw [he, hempty] at hhas'
      exact absurd hhas' (by simp)
    have hold : s.handle.has r = true := (hother r hr).1.symm.trans hhas
    exact h.stored r ar (((hother r hr).2 hold).symm.trans hslot) hold
  · intro t' n hn
    have hn' : s.phase t' = .found n := hn
    have hr := hne t' (by rw [hn']; simp)
    exact (hother _ hr).1.trans (h.found t' n hn')
  · intro t' n hn
    have hn' : s.phase t' = .returned n := hn
    have hr := hne t' (by rw [hn']; simp)
    obtain ⟨hhas, hok⟩ := h.returned t' n hn'
    exact ⟨(hother _ hr).1.trans hhas,
      fun ar har => hok ar (((hother _ hr).2 hhas).symm.trans har)⟩

/-- The server answers. -/
theorem Matched.answer {k : Nat} {p : Sent} (hk : s.pending[k]? = some p) (code : Byte)
    (body : Bytes) :
    Matched tid { s with
      pending := s.pending.eraseIdx k
      wire := s.wire ++ [⟨p.call, p.reqid, code, body⟩]
      answers := s.answers ++ [(p.call, code, body)] } := by
  have hlt : k < s.pending.length := (List.getElem?_eq_some_iff.mp hk).1
  have hp : s.pending[k] = p := (List.getElem?_eq_some_iff.mp hk).2
  have hperm : (p :: s.pending.eraseIdx k).Perm s.pending := by
    rw [← hp]
    exact List.getElem_cons_eraseIdx_perm hlt
  refine ⟨fun q hq => h.pending q (List.mem_of_mem_eraseIdx hq), ?_, ?_, ?_, h.busy, h.apart,
    h.found, h.returned⟩
  · intro f hf
    have hf' : f ∈ (s.wire ++ [⟨p.call, p.reqid, code, body⟩]) ++ s.got := hf
    have hcases : f ∈ s.wire ++ s.got ∨ f = ⟨p.call, p.reqid, code, body⟩ := by
      rcases List.mem_append.mp hf' with hw | hgot
      · rcases List.mem_append.mp hw with hw | hnew
        · exact .inl (List.mem_append_left _ hw)
        · exact .inr (List.mem_singleton.mp hnew)
      · exact .inl (List.mem_append_right _ hgot)
    rcases hcases with hold | hnew
    · obtain ⟨hlatest, hans⟩ := h.transit f hold
      exact ⟨hlatest, List.mem_append_left _ hans⟩
    · rw [hnew]
      exact ⟨h.pending p (List.mem_of_getElem? hk),
        List.mem_append_right _ (List.mem_singleton_self _)⟩
  · intro r
    have hcount := (hperm.map Sent.reqid).count_eq r
    rw [List.map_cons, List.count_cons] at hcount
    have honce := h.once r
    unfold Sphincter.load at honce ⊢
    dsimp only
    simp only [List.map_append, List.count_append, List.map_cons, List.map_nil, List.count_cons,
      List.count_nil] at honce hcount ⊢
    omega
  · intro r ar hslot hhas
    obtain ⟨n, c, b, hlatest, hans, hstores⟩ := h.stored r ar hslot hhas
    exact ⟨n, c, b, hlatest, List.mem_append_left _ hans, hstores⟩

/-- Frames move from the socket into a buffer. -/
theorem Matched.transit_perm {wire got : List Frame}
    (hperm : (wire ++ got).Perm (s.wire ++ s.got)) :
    Matched tid { s with wire := wire, got := got } := by
  refine ⟨h.pending, fun f hf => h.transit f (hperm.mem_iff.mp hf), ?_, h.stored, h.busy, h.apart,
    h.found, h.returned⟩
  intro r
  have hcount := (hperm.map Frame.reqid).count_eq r
  have honce := h.once r
  unfold Sphincter.load at honce ⊢
  dsimp only
  rw [hcount]
  exact honce

/-- A frame is put on the table. -/
theorem Matched.add {f : Frame} {rest : List Frame} {handle : Nasth} (hgot : s.got = f :: rest)
    (hadd : addresponse s.handle f.reqid f.code f.body = some handle) :
    Matched tid { s with handle := handle, got := rest } := by
  obtain ⟨hother, hself⟩ := addresponse_slot hadd
  have hperm : (s.wire ++ s.got).Perm (f :: (s.wire ++ rest)) := by
    rw [hgot]
    exact List.perm_middle
  obtain ⟨hlatest, hans⟩ := h.transit f (hperm.mem_iff.mpr (List.mem_cons_self ..))
  have hload : ∀ r, s.load r = (s.pending.map Sent.reqid).count r
      + ([f.reqid].count r + ((s.wire ++ rest).map Frame.reqid).count r)
      + (s.handle.has r).toNat := by
    intro r
    unfold Sphincter.load
    rw [(hperm.map Frame.reqid).count_eq r, List.map_cons, ← List.singleton_append,
      List.count_append]
  have hfself : [f.reqid].count f.reqid = 1 := List.count_singleton_self ..
  -- the frame counts for its id already, so the slot was empty
  have hempty : s.handle.has f.reqid = false := by
    cases hhas : s.handle.has f.reqid with
    | false => rfl
    | true =>
      have honce := h.once f.reqid
      rw [hload, hhas, hfself, Bool.toNat_true] at honce
      omega
  have hne : ∀ t', s.handle.has (tid t') = true → tid t' ≠ f.reqid := by
    intro t' hhas heq
    rw [heq, hempty] at hhas
    exact absurd hhas (by simp)
  refine ⟨h.pending, fun g hg => h.transit g ?_, ?_, ?_, h.busy, h.apart, ?_, ?_⟩
  · exact hperm.mem_iff.mpr (List.mem_cons_of_mem _ hg)
  · intro r
    have honce := h.once r
    rw [hload] at honce
    show (s.pending.map Sent.reqid).count r + ((s.wire ++ rest).map Frame.reqid).count r
      + (handle.has r).toNat ≤ 1
    by_cases hr : r = f.reqid
    · have hle : (handle.has r).toNat ≤ 1 := Bool.toNat_le _
      rw [hr, hfself] at honce
      rw [hr] at hle ⊢
      omega
    · rw [has_of_slot (hother r hr)]
      omega
  · intro r ar hslot hhas
    by_cases hr : r = f.reqid
    · have hslot' : handle.slot r = some ar := hslot
      rw [hr, hself] at hslot'
      obtain ⟨ar₀, -, rfl⟩ := Option.map_eq_some_iff.mp hslot'
      rw [hr]
      exact ⟨f.call, f.code, f.body, hlatest, hans, rfl, rfl, errcodeOf_ok⟩
    · exact h.stored r ar ((hother r hr).symm.trans hslot)
        ((has_of_slot (hother r hr)).symm.trans hhas)
  · intro t' n hn
    have hhas := h.found t' n hn
    exact (has_of_slot (hother _ (hne t' hhas))).trans hhas
  · intro t' n hn
    obtain ⟨hhas, hok⟩ := h.returned t' n hn
    have hsame := hother _ (hne t' hhas)
    exact ⟨(has_of_slot hsame).trans hhas, fun ar har => hok ar (hsame.symm.trans har)⟩

/-- What is read behind a call that returned 0. -/
theorem Matched.result {t : θ} {n : Nat} {items : List Bytes} (ht : s.phase t = .returned n)
    (hread : nastGetResult s.handle (tid t) = some (some items)) :
    ∃ body, (n, NASTOK, body) ∈ s.answers ∧ items = buildResult body := by
  obtain ⟨hhas, hok⟩ := h.returned t n ht
  unfold nastGetResult at hread
  split at hread
  · exact absurd hread (by simp)
  · split at hread
    · exact absurd hread (by simp)
    · next ar hslot =>
      obtain ⟨m, code, body, hlatest, hans, hbuf, hlen, hcode⟩ := h.stored _ ar hslot hhas
      obtain rfl : m = n := by
        have hbusy := h.busy t n (by rw [ht]; rfl)
        exact Option.some.inj (hlatest.symm.trans hbusy)
      obtain ⟨buff, hbytes, heq⟩ := Option.map_eq_some_iff.mp hread
      have hall : ar.bytes = some body := by
        unfold NastResponse.bytes
        rw [hbuf, hlen]
        simp
      rw [hcode (hok ar hslot)] at hans
      refine ⟨body, hans, ?_⟩
      rw [← Option.some.inj heq, Option.some.inj (hbytes.symm.trans hall)]

section Phases

variable [DecidableEq θ]

/-- A thread moves on within its call, or out of it. -/
theorem Matched.setPhase {t : θ} {ph : Phase}
    (hcall : ∀ n, ph.call = some n → (s.phase t).call = some n)
    (hfound : ∀ n, ph = .found n → s.handle.has (tid t) = true)
    (hret : ∀ n, ph = .returned n → s.handle.has (tid t) = true ∧
      ∀ ar, s.handle.slot (tid t) = some ar → ar.errcode = .NAST_OK) :
    Matched tid (s.setPhase t ph) where
  pending := h.pending
  transit := h.transit
  once := h.once
  stored := h.stored
  busy := by
    intro t' n hn
    have hupd : (Function.update s.phase t ph t').call = some n := hn
    by_cases ht : t' = t
    · rw [ht, Function.update_self] at hupd
      rw [ht]
      exact h.busy t n (hcall n hupd)
    · rw [Function.update_of_ne ht] at hupd
      exact h.busy t' n hupd
  apart := by
    have hbusy : ∀ t', Function.update s.phase t ph t' ≠ .idle → s.phase t' ≠ .idle := by
      intro t' hne hidle
      by_cases ht : t' = t
      · subst ht
        rw [Function.update_self] at hne
        cases hph : ph.call with
        | none => exact hne (Phase.call_idle.mp hph)
        | some n =>
          have hold := hcall n hph
          rw [hidle] at hold
          exact absurd hold (by simp [Phase.call])
      · rw [Function.update_of_ne ht] at hne
        exact hne hidle
    exact fun t₁ t₂ h₁ h₂ heq => h.apart t₁ t₂ (hbusy t₁ h₁) (hbusy t₂ h₂) heq
  found := by
    intro t' n hn
    have hupd : Function.update s.phase t ph t' = .found n := hn
    by_cases ht : t' = t
    · rw [ht, Function.update_self] at hupd
      rw [ht]
      exact hfound n hupd
    · rw [Function.update_of_ne ht] at hupd
      exact h.found t' n hupd
  returned := by
    intro t' n hn
    have hupd : Function.update s.phase t ph t' = .returned n := hn
    by_cases ht : t' = t
    · rw [ht, Function.update_self] at hupd
      rw [ht]
      exact hret n hupd
    · rw [Function.update_of_ne ht] at hupd
      exact h.returned t' n hupd

/-- A call may start when nothing is left under its id. -/
theorem Matched.called {t : θ} (written : Bool) (hg : Settled tid s (.call t written))
    (hempty : s.handle.has (tid t) = false) :
    Matched tid (s.called tid t written) := by
  obtain ⟨hpending, htransit, halone⟩ := hg
  have hphase : ∀ t', t' ≠ t → (s.called tid t written).phase t' = s.phase t' :=
    fun t' ht => Function.update_of_ne ht ..
  have hself : (s.called tid t written).phase t = .waiting s.calls 0 := Function.update_self ..
  have hmem : ∀ p ∈ (s.called tid t written).pending,
      p ∈ s.pending ∨ p = ⟨s.calls, tid t⟩ := by
    intro p hp
    cases written with
    | false => exact .inl hp
    | true =>
      rcases List.mem_append.mp hp with hp | hp
      · exact .inl hp
      · exact .inr (List.mem_singleton.mp hp)
  refine ⟨?_, ?_, ?_, ?_, ?_, ?_, ?_, ?_⟩
  · intro p hp
    show s.latest.bind (tid t) s.calls p.reqid = some p.call
    rcases hmem p hp with hold | hnew
    · rw [Names.bind_ne (hpending p hold), h.pending p hold]
    · rw [hnew, Names.bind_self]
  · intro f hf
    obtain ⟨hlatest, hans⟩ := h.transit f hf
    refine ⟨?_, hans⟩
    show s.latest.bind (tid t) s.calls f.reqid = some f.call
    rw [Names.bind_ne (htransit f hf), hlatest]
  · intro r
    have hload := s.load_called tid t written r
    have honce := h.once r
    by_cases hr : r = tid t
    · -- nothing is left under the id, so the new request is the only one
      have hnone : s.load r = 0 := by
        rw [hr]
        exact Sphincter.load_eq_zero hpending htransit hempty
      have hself : [tid t].count r = 1 := by rw [hr, List.count_singleton_self]
      omega
    · have hother : [tid t].count r = 0 := by
        rw [List.count_eq_zero, List.mem_singleton]
        exact hr
      omega
  · intro r ar hslot hhas
    have hr : r ≠ tid t := by
      intro he
      have hhas' : s.handle.has r = true := hhas
      rw [he, hempty] at hhas'
      exact absurd hhas' (by simp)
    obtain ⟨n, code, body, hlatest, hrest⟩ := h.stored r ar hslot hhas
    refine ⟨n, code, body, ?_, hrest⟩
    show s.latest.bind (tid t) s.calls r = some n
    rw [Names.bind_ne hr, hlatest]
  · intro t' n hn
    show s.latest.bind (tid t) s.calls (tid t') = some n
    by_cases ht : t' = t
    · rw [ht, hself] at hn
      rw [ht, Names.bind_self]
      exact hn
    · rw [hphase t' ht] at hn
      have hr : tid t' ≠ tid t := by
        intro heq
        rw [halone t' ht heq] at hn
        exact absurd hn (by simp [Phase.call])
      rw [Names.bind_ne hr, h.busy t' n hn]
  · intro t₁ t₂ h₁ h₂ heq
    -- a thread with the caller's id other than the caller is idle
    by_cases ht₁ : t₁ = t
    · by_cases ht₂ : t₂ = t
      · rw [ht₁, ht₂]
      · rw [hphase t₂ ht₂, halone t₂ ht₂ (heq.symm.trans (congrArg tid ht₁))] at h₂
        exact absurd rfl h₂
    · rw [hphase t₁ ht₁] at h₁
      by_cases ht₂ : t₂ = t
      · rw [halone t₁ ht₁ (heq.trans (congrArg tid ht₂))] at h₁
        exact absurd rfl h₁
      · rw [hphase t₂ ht₂] at h₂
        exact h.apart t₁ t₂ h₁ h₂ heq
  · intro t' n hn
    by_cases ht : t' = t
    · rw [ht, hself] at hn
      exact absurd hn (by simp)
    · rw [hphase t' ht] at hn
      exact h.found t' n hn
  · intro t' n hn
    by_cases ht : t' = t
    · rw [ht, hself] at hn
      exact absurd hn (by simp)
    · rw [hphase t' ht] at hn
      exact h.returned t' n hn

/-- A thread leaves its call, or the caller drops its result. -/
theorem Matched.leave (t : θ) : Matched tid (s.setPhase t .idle) := by
  apply h.setPhase
  · exact fun n hn => absurd hn (by simp [Phase.call])
  · exact fun n hn => absurd hn (by simp)
  · exact fun n hn => absurd hn (by simp)

/-- A call that gives up. -/
theorem Matched.giveUp {t : θ} {call ntries : Nat} {code : Errcode} {s' : Sphincter θ}
    (ht : s.phase t = .waiting call ntries) (hcode : code ≠ .NAST_OK)
    (hgive : s.giveUp tid t code = some s') : Matched tid s' := by
  obtain ⟨handle, herr, rfl⟩ := Option.map_eq_some_iff.mp hgive
  exact (h.setError ht hcode herr).leave t

/-- One step: what it reads is the answer to its call, and the invariant stays. -/
theorem Matched.step {act : Act θ} {out : List Reading} {s' : Sphincter θ}
    (hg : Settled tid s act) (hstep : clientStep tid s act = some (out, s')) :
    (∀ r ∈ out, r.Own) ∧ Matched tid s' := by
  have hquiet : ∀ r ∈ ([] : List Reading), r.Own := fun r hr => absurd hr List.not_mem_nil
  cases act with
  | call t written =>
    simp only [clientStep] at hstep
    split at hstep
    · next hidle =>
      obtain ⟨handle, hsend, hrest⟩ := Option.bind_eq_some_iff.mp hstep
      have hcalled : Matched tid
          (({ s with handle := handle } : Sphincter θ).called tid t written) :=
        (h.sendcmd hidle hg.2.2 hsend).called written hg (sendcmd_slot hsend).1
      split at hrest
      · obtain ⟨rfl, rfl⟩ := Prod.mk.inj (Option.some.inj hrest)
        exact ⟨hquiet, hcalled⟩
      · -- `send` failed: the error goes into the slot just emptied, no request is out
        obtain ⟨handle', herr, heq⟩ := Option.map_eq_some_iff.mp hrest
        obtain ⟨rfl, rfl⟩ := Prod.mk.inj heq
        exact ⟨hquiet, hcalled.setError (Function.update_self ..) (by decide) herr⟩
    · exact absurd hstep (by simp)
  | die t =>
    simp only [clientStep] at hstep
    split at hstep
    · next hidle =>
      obtain ⟨handle, hsend, heq⟩ := Option.map_eq_some_iff.mp hstep
      obtain ⟨rfl, rfl⟩ := Prod.mk.inj heq
      exact ⟨hquiet, h.sendcmd hidle hg hsend⟩
    · exact absurd hstep (by simp)
  | answer k code body =>
    simp only [clientStep] at hstep
    split at hstep
    · exact absurd hstep (by simp)
    · next p hp =>
      obtain ⟨rfl, rfl⟩ := Prod.mk.inj (Option.some.inj hstep)
      exact ⟨hquiet, h.answer hp code body⟩
  | recv t k =>
    simp only [clientStep] at hstep
    split at hstep
    · split at hstep
      · next hgot =>
        obtain ⟨rfl, rfl⟩ := Prod.mk.inj (Option.some.inj hstep)
        refine ⟨hquiet, h.transit_perm ?_⟩
        -- more is read only when the buffer is empty, so no frame is dropped
        have hempty : s.got = [] := hgot.1.1
        rw [hempty, List.append_nil]
        exact List.perm_append_comm.trans (List.Perm.of_eq (List.take_append_drop k s.wire))
      · exact absurd hstep (by simp)
    · exact absurd hstep (by simp)
  | add =>
    simp only [clientStep] at hstep
    split at hstep
    · exact absurd hstep (by simp)
    · next f rest hgot =>
      obtain ⟨handle, hadd, heq⟩ := Option.map_eq_some_iff.mp hstep
      obtain ⟨rfl, rfl⟩ := Prod.mk.inj heq
      exact ⟨hquiet, h.add hgot hadd⟩
  | timeout t =>
    simp only [clientStep] at hstep
    split at hstep
    · next call ntries ht =>
      split at hstep
      · split at hstep
        · obtain ⟨rfl, rfl⟩ := Prod.mk.inj (Option.some.inj hstep)
          refine ⟨hquiet, h.setPhase ?_ ?_ ?_⟩
          · intro n hn
            rw [ht]
            exact hn
          · exact fun n hn => absurd hn (by simp)
          · exact fun n hn => absurd hn (by simp)
        · obtain ⟨s₁, hgive, heq⟩ := Option.map_eq_some_iff.mp hstep
          obtain ⟨rfl, rfl⟩ := Prod.mk.inj heq
          exact ⟨hquiet, h.giveUp ht (by decide) hgive⟩
      · exact absurd hstep (by simp)
    · exact absurd hstep (by simp)
  | fail t tooShort =>
    simp only [clientStep] at hstep
    split at hstep
    · next call ntries ht =>
      split at hstep
      · obtain ⟨s₁, hgive, heq⟩ := Option.map_eq_some_iff.mp hstep
        obtain ⟨rfl, rfl⟩ := Prod.mk.inj heq
        refine ⟨hquiet, h.giveUp ht ?_ hgive⟩
        split
        · decide
        · decide
      · exact absurd hstep (by simp)
    · exact absurd hstep (by simp)
  | check t =>
    simp only [clientStep] at hstep
    split at hstep
    · next call ntries ht =>
      split at hstep
      · next hcheck =>
        -- `checkresponse` found the slot full, which is what `found` records
        obtain ⟨rfl, rfl⟩ := Prod.mk.inj (Option.some.inj hstep)
        refine ⟨hquiet, h.setPhase ?_ ?_ ?_⟩
        · intro n hn
          rw [ht]
          exact hn
        · exact fun n _ => checkresponse_has hcheck.2
        · exact fun n hn => absurd hn (by simp)
      · exact absurd hstep (by simp)
    · exact absurd hstep (by simp)
  | finish t =>
    simp only [clientStep] at hstep
    split at hstep
    · next call ar ht har =>
      obtain ⟨rfl, rfl⟩ := Prod.mk.inj (Option.some.inj hstep)
      refine ⟨hquiet, h.setPhase ?_ ?_ ?_⟩
      · intro n hn
        rw [ht]
        split at hn
        · exact hn
        · exact absurd hn (by simp [Phase.call])
      · intro n hn
        split at hn
        · exact absurd hn (by simp)
        · exact absurd hn (by simp)
      · intro n hn
        split at hn
        · next hok =>
          refine ⟨h.found t call ht, fun ar' har' => ?_⟩
          rw [Option.some.inj (har'.symm.trans har)]
          exact hok
        · exact absurd hn (by simp)
    · exact absurd hstep (by simp)
  | result t =>
    simp only [clientStep] at hstep
    split at hstep
    · next call items ht hread =>
      obtain ⟨rfl, rfl⟩ := Prod.mk.inj (Option.some.inj hstep)
      refine ⟨fun r hr => ?_, h⟩
      obtain rfl := List.mem_singleton.mp hr
      obtain ⟨body, hans, hitems⟩ := h.result ht hread
      refine ⟨body, ?_, hitems⟩
      exact List.mem_map.mpr ⟨_, List.mem_filter.mpr ⟨hans, by simp⟩, rfl⟩
    · exact absurd hstep (by simp)
  | leave t =>
    simp only [clientStep] at hstep
    split at hstep
    · obtain ⟨rfl, rfl⟩ := Prod.mk.inj (Option.some.inj hstep)
      exact ⟨hquiet, h.leave t⟩
    · exact absurd hstep (by simp)

end Phases

end Keeps

/-- **When a result is the answer to its call**: in every run in which no call starts
while something is left of an earlier one under its id. -/
theorem answers_match {θ : Type} [DecidableEq θ] (tid : θ → UInt16) (acts : List (Act θ))
    (outs : List (List Reading)) (s : Sphincter θ)
    (hrun : runs (clientStep tid) clientStart acts = some (outs, s))
    (hsettled : Guarded (clientStep tid) (Settled tid) clientStart acts) : AllOwn outs :=
  runs_forall_outputs (I := Matched tid) (fun _ _ _ _ hI hg hstep => hI.step hg hstep)
    (matched_start tid) hsettled hrun

/-- Two threads call, the answers come in the other order and one thread reads both; when it
has its own it calls again, with the answer of the other still unread. -/
def twoThreads : List (Act Bool) :=
  [.call true true, .call false true, .answer 1 NASTOK [0x62], .answer 0 NASTOK [0x61],
    .recv true 2, .add, .add, .check true, .finish true, .result true, .leave true,
    .call true true, .answer 0 NASTOK [0x63], .check false, .finish false, .result false,
    .recv true 1, .add, .check true, .finish true, .result true]

theorem answers_match_two :
    AllOwn [[], [], [], [], [], [], [], [], [], [⟨0, [[0x61]], [(NASTOK, [0x61])]⟩], [], [], [], [],
      [], [⟨1, [[0x62]], [(NASTOK, [0x62])]⟩], [], [], [], [],
      [⟨2, [[0x63]], [(NASTOK, [0x63])]⟩]] := by
  have hids : ∀ t t' : Bool, (if t' then (7 : UInt16) else 9) = (if t then 7 else 9) → t' = t := by
    decide
  have halone : ∀ s t, Alone (fun t : Bool => if t then 7 else 9) s t :=
    fun _ t t' hne hid => absurd (hids t t' hid) hne
  have hsettled : Guarded (clientStep fun t : Bool => if t then 7 else 9)
      (Settled fun t : Bool => if t then 7 else 9) clientStart twoThreads := by
    -- nothing is left of the first call when the second one starts
    refine guarded_cons ⟨by decide, by decide, halone _ _⟩ rfl
      (guarded_cons ⟨by decide, by decide, halone _ _⟩ rfl
        (guarded_cons trivial rfl (guarded_cons trivial rfl (guarded_cons trivial rfl
          (guarded_cons trivial rfl (guarded_cons trivial rfl (guarded_cons trivial rfl
            (guarded_cons trivial rfl (guarded_cons trivial rfl (guarded_cons trivial rfl
              (guarded_cons ⟨by decide, by decide, halone _ _⟩ rfl ?_)))))))))))
    exact guarded_cons trivial rfl (guarded_cons trivial rfl (guarded_cons trivial rfl
      (guarded_cons trivial rfl (guarded_cons trivial rfl (guarded_cons trivial rfl
        (guarded_cons trivial rfl (guarded_cons trivial rfl
          (guarded_cons trivial rfl trivial))))))))
  exact answers_match (fun t : Bool => if t then 7 else 9) twoThreads _ _ rfl hsettled

/-- A call times out, the thread calls again, and now the first answer comes: the second
call returns 0 with it. -/
theorem late_answer_taken :
    ¬ ∀ (θ : Type) (_ : DecidableEq θ) (tid : θ → UInt16) (acts : List (Act θ))
      (outs : List (List Reading)) (s : Sphincter θ),
      runs (clientStep tid) clientStart acts = some (outs, s) → AllOwn outs := by
  intro h
  have hown := h Unit inferInstance (fun _ => threadId 0x7f0000000740 256)
    ([.call () true] ++ List.replicate 51 (.timeout ()) ++
      [.call () true, .answer 0 NASTOK [0x61], .recv () 1, .add, .check (), .finish (),
        .result ()])
    (List.replicate 58 [] ++ [[⟨1, [[0x61]], []⟩]]) _ rfl [⟨1, [[0x61]], []⟩] (by decide)
    ⟨1, [[0x61]], []⟩ (List.mem_singleton_self _)
  obtain ⟨body, hbody, -⟩ := hown
  exact absurd hbody List.not_mem_nil

end Nastd.Client
