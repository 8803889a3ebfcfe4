import Mathlib.Data.List.Perm.Basic
import Mathlib.Logic.Function.Basic
import Nastd.Lib.Ledger
import Nastd.Lib.Run
import Nastd.Server.Response

/-!
# Threads that send on one connection

`arr_send_response` of `server/nastdio.c` and `sendcmd` of `client/nastapi.c` end in the same
loop around `write`, which takes as much of the frame as it likes. On the server the thread of a
connection and the workers run it on one socket, on the client the threads that share a handle.
Neither side holds a lock there, although `getresponse` takes one to read.

* `sendStep`: one step of one of the threads; it puts out the bytes that are written.
* `frames_untorn`: as long as no `write` comes between two of another thread's frame, the
  stream is the frames, one behind the other.
-/

namespace Nastd

open Nastd.Lib

/-- A thread in the loop: `wrote` bytes of `buffer` are written. -/
structure Sending where
  buffer : Bytes
  wrote : Nat
  deriving DecidableEq, Repr

/-- Still in the loop. -/
def Sending.Unsent (w : Sending) : Prop := w.wrote < w.buffer.length

/-- In the middle of its frame. -/
def Sending.Partly (w : Sending) : Prop := 0 < w.wrote ∧ w.wrote < w.buffer.length

instance (w : Sending) : Decidable w.Unsent := inferInstanceAs (Decidable (_ < _))

instance (w : Sending) : Decidable w.Partly := inferInstanceAs (Decidable (_ ∧ _))

/-- The threads of one connection; `none` for one that sends nothing. -/
abbrev Senders (θ : Type) : Type := θ → Option Sending

inductive SendAct (θ : Type) where
  /-- A thread gets to the loop with a frame. -/
  | call (t : θ) (frame : Bytes)
  /-- Its `write` takes so many bytes, or returns -1 for `EINTR` or `EAGAIN`. -/
  | write (t : θ) (n : Option Nat)
  /-- It leaves the loop. -/
  | finish (t : θ)

variable {θ : Type}

/-- One step of one thread, and the bytes it adds to the stream. -/
def sendStep [DecidableEq θ] (s : Senders θ) : SendAct θ → Option (Bytes × Senders θ)
  | .call t frame =>
    match s t with
    | some _ => none
    | none => some ([], Function.update s t (some ⟨frame, 0⟩))
  | .write t n =>
    match s t with
    | none => none
    | some w =>
      if w.Unsent then
        match n with
        | none => some ([], s)
        | some n =>
          if 0 < n ∧ n ≤ w.buffer.length - w.wrote then
            some ((w.buffer.drop w.wrote).take n,
              Function.update s t (some ⟨w.buffer, w.wrote + n⟩))
          else none
      else none
  | .finish t =>
    match s t with
    | none => none
    | some w => if w.Unsent then none else some ([], Function.update s t none)

/-- Nobody sends. -/
def nobody : Senders θ := fun _ => none

/-- The frames that are sent in a run. -/
def framesOf : List (SendAct θ) → List Bytes
  | [] => []
  | .call _ frame :: acts => frame :: framesOf acts
  | _ :: acts => framesOf acts

theorem framesOf_cons (act : SendAct θ) (acts : List (SendAct θ)) :
    framesOf (act :: acts) = framesOf [act] ++ framesOf acts := by
  cases act with
  | call t frame => rfl
  | write t n => rfl
  | finish t => rfl

/-- The stream is these frames, each once, one behind the other. -/
def Untorn (frames : List Bytes) (stream : Bytes) : Prop :=
  ∃ order : List Bytes, order.Perm frames ∧ stream = order.flatten

/-- No `write` while another thread is in the middle of its frame. -/
def TakesTurns (s : Senders θ) : SendAct θ → Prop
  | .write t _ => ∀ t' w, t' ≠ t → s t' = some w → ¬ w.Partly
  | _ => True

/-! ## What the stream is at any time -/

/-- The stream so far: `whole` frames, and the beginning of one that is being sent. `pending`
are the frames that are not out yet, with their threads. -/
structure Accounted (frames : List Bytes) (stream : Bytes) (s : Senders θ) (whole : List Bytes)
    (pending : List (θ × Bytes)) (part : Bytes) : Prop where
  frames : (whole ++ pending.map Prod.snd).Perm frames
  stream : stream = whole.flatten ++ part
  nodup : pending.Nodup
  pending : ∀ t b, (t, b) ∈ pending ↔ ∃ w, s t = some w ∧ w.Unsent ∧ w.buffer = b
  bound : ∀ t w, s t = some w → w.wrote ≤ w.buffer.length
  part : (part = [] ∧ ∀ t w, s t = some w → ¬ w.Partly) ∨
    ∃ t w, s t = some w ∧ w.Partly ∧ part = w.buffer.take w.wrote ∧
      ∀ t' w', t' ≠ t → s t' = some w' → ¬ w'.Partly

/-- What is sent so far can be accounted for. -/
def Orderly (frames : List Bytes) (stream : Bytes) (s : Senders θ) : Prop :=
  ∃ whole pending part, Accounted frames stream s whole pending part

theorem orderly_nobody : Orderly [] [] (nobody : Senders θ) := by
  refine ⟨[], [], [], List.Perm.refl _, rfl, List.nodup_nil, ?_, ?_, Or.inl ⟨rfl, ?_⟩⟩
  · intro t b
    constructor
    · intro h
      exact absurd h (by simp)
    · intro ⟨w, hw, _⟩
      exact absurd hw (by simp [nobody])
  · intro t w hw
    exact absurd hw (by simp [nobody])
  · intro t w hw
    exact absurd hw (by simp [nobody])

/-- When all loops have written their frames, the stream is the frames. -/
theorem Orderly.untorn {frames : List Bytes} {stream : Bytes} {s : Senders θ}
    (h : Orderly frames stream s) (hdone : ∀ t w, s t = some w → ¬ w.Unsent) :
    Untorn frames stream := by
  obtain ⟨whole, pending, part, h⟩ := h
  have hpending : pending = [] := by
    cases pending with
    | nil => rfl
    | cons x pending =>
      obtain ⟨t, b⟩ := x
      obtain ⟨w, hw, hunsent, -⟩ := (h.pending t b).mp List.mem_cons_self
      exact absurd hunsent (hdone t w hw)
  have hpart : part = [] := by
    rcases h.part with ⟨hnil, -⟩ | ⟨t, w, hw, hpartly, -⟩
    · exact hnil
    · exact absurd hpartly.2 (hdone t w hw)
  have hperm := h.frames
  rw [hpending, List.map_nil, List.append_nil] at hperm
  refine ⟨whole, hperm, ?_⟩
  rw [h.stream, hpart, List.append_nil]

/-- Before that, the stream ends in the beginning of a frame at worst. -/
theorem Orderly.beginning {frames : List Bytes} {stream : Bytes} {s : Senders θ}
    (h : Orderly frames stream s) :
    ∃ (whole : List Bytes) (part : Bytes), (∀ f ∈ whole, f ∈ frames) ∧
      (part = [] ∨ ∃ f ∈ frames, part <+: f) ∧ stream = whole.flatten ++ part := by
  obtain ⟨whole, pending, part, h⟩ := h
  refine ⟨whole, part, fun f hf => h.frames.mem_iff.mp (List.mem_append_left _ hf), ?_, h.stream⟩
  rcases h.part with ⟨hnil, -⟩ | ⟨t, w, hw, hpartly, hpart, -⟩
  · exact Or.inl hnil
  · have hmem := (h.pending t w.buffer).mpr ⟨w, hw, hpartly.2, rfl⟩
    refine Or.inr ⟨w.buffer, h.frames.mem_iff.mp (List.mem_append_right _ ?_), ?_⟩
    · exact List.mem_map.mpr ⟨_, hmem, rfl⟩
    · rw [hpart]
      exact List.take_prefix ..

section Steps

variable [DecidableEq θ] {s : Senders θ} {t : θ} {frames : List Bytes} {stream : Bytes}

/-- What a step can do. -/
inductive Sends (s : Senders θ) : SendAct θ → Bytes → Senders θ → Prop where
  | call {t : θ} {frame : Bytes} : s t = none →
      Sends s (.call t frame) [] (Function.update s t (some ⟨frame, 0⟩))
  | again {t : θ} : Sends s (.write t none) [] s
  | wrote {t : θ} {n : Nat} {w : Sending} : s t = some w → w.Unsent → 0 < n →
      n ≤ w.buffer.length - w.wrote →
      Sends s (.write t (some n)) ((w.buffer.drop w.wrote).take n)
        (Function.update s t (some ⟨w.buffer, w.wrote + n⟩))
  | finish {t : θ} {w : Sending} : s t = some w → ¬ w.Unsent →
      Sends s (.finish t) [] (Function.update s t none)

theorem sends_of_step {s' : Senders θ} {act : SendAct θ} {bytes : Bytes}
    (hstep : sendStep s act = some (bytes, s')) : Sends s act bytes s' := by
  cases act with
  | call t frame =>
    rw [sendStep] at hstep
    split at hstep
    next => exact absurd hstep (by simp)
    next hfree =>
      obtain ⟨rfl, rfl⟩ := Prod.mk.inj (Option.some.inj hstep)
      exact .call hfree
  | write t n =>
    rw [sendStep] at hstep
    split at hstep
    next => exact absurd hstep (by simp)
    next w hw =>
      split at hstep
      next hunsent =>
        cases n with
        | none =>
          obtain ⟨rfl, rfl⟩ := Prod.mk.inj (Option.some.inj hstep)
          exact .again
        | some n =>
          dsimp only at hstep
          split at hstep
          next hn =>
            obtain ⟨rfl, rfl⟩ := Prod.mk.inj (Option.some.inj hstep)
            exact .wrote hw hunsent hn.1 hn.2
          next => exact absurd hstep (by simp)
      next => exact absurd hstep (by simp)
  | finish t =>
    rw [sendStep] at hstep
    split at hstep
    next => exact absurd hstep (by simp)
    next w hw =>
      split at hstep
      next => exact absurd hstep (by simp)
      next hsent =>
        obtain ⟨rfl, rfl⟩ := Prod.mk.inj (Option.some.inj hstep)
        exact .finish hw hsent

/-! A thread's entry changes to `x`: what is left to show of each field. -/

theorem Accounted.pending_update {whole : List Bytes} {pending pending' : List (θ × Bytes)}
    {part : Bytes} (h : Accounted frames stream s whole pending part) {x : Option Sending}
    (hothers : ∀ u b, u ≠ t → ((u, b) ∈ pending' ↔ (u, b) ∈ pending))
    (hmine : ∀ b, (t, b) ∈ pending' ↔ ∃ w, x = some w ∧ w.Unsent ∧ w.buffer = b)
    (u : θ) (b : Bytes) :
    (u, b) ∈ pending' ↔ ∃ w, Function.update s t x u = some w ∧ w.Unsent ∧ w.buffer = b := by
  by_cases hu : u = t
  · rw [hu, Function.update_self]
    exact hmine b
  · rw [Function.update_of_ne hu]
    exact (hothers u b hu).trans (h.pending u b)

theorem Accounted.bound_update {whole : List Bytes} {pending : List (θ × Bytes)} {part : Bytes}
    (h : Accounted frames stream s whole pending part) {x : Option Sending}
    (hx : ∀ w, x = some w → w.wrote ≤ w.buffer.length) (u : θ) (w : Sending)
    (hw : Function.update s t x u = some w) : w.wrote ≤ w.buffer.length := by
  rcases update_some_cases hw with ⟨-, heq⟩ | ⟨-, hw⟩
  · exact hx w heq
  · exact h.bound u w hw

/-- Whoever is in the middle of a frame stays there. -/
theorem Accounted.part_update {whole : List Bytes} {pending : List (θ × Bytes)} {part : Bytes}
    (h : Accounted frames stream s whole pending part) {x : Option Sending}
    (hold : ∀ w, s t = some w → ¬ w.Partly) (hnew : ∀ w, x = some w → ¬ w.Partly) :
    (part = [] ∧ ∀ u w, Function.update s t x u = some w → ¬ w.Partly) ∨
      ∃ u w, Function.update s t x u = some w ∧ w.Partly ∧ part = w.buffer.take w.wrote ∧
        ∀ u' w', u' ≠ u → Function.update s t x u' = some w' → ¬ w'.Partly := by
  have hkeep : ∀ u w, Function.update s t x u = some w → w.Partly → s u = some w := by
    intro u w hw hpartly
    rcases update_some_cases hw with ⟨-, heq⟩ | ⟨-, hw⟩
    · exact absurd hpartly (hnew w heq)
    · exact hw
  rcases h.part with ⟨hnil, hno⟩ | ⟨u, w, hw, hpartly, hpart, hno⟩
  · exact Or.inl ⟨hnil, fun u w hw hp => hno u w (hkeep u w hw hp) hp⟩
  · have hne : u ≠ t := by
      intro hu
      rw [hu] at hw
      exact hold w hw hpartly
    exact Or.inr ⟨u, w, by rw [Function.update_of_ne hne]; exact hw, hpartly, hpart,
      fun u' w' hu hw' hp => hno u' w' hu (hkeep u' w' hw' hp) hp⟩

theorem orderly_call (h : Orderly frames stream s) (hfree : s t = none) (frame : Bytes) :
    Orderly (frames ++ [frame]) stream (Function.update s t (some ⟨frame, 0⟩)) := by
  obtain ⟨whole, pending, part, h⟩ := h
  have hbound := h.bound_update (t := t) (x := some ⟨frame, 0⟩) fun w hw => by
    obtain rfl := Option.some.inj hw
    exact Nat.zero_le _
  have hpart := h.part_update (t := t) (x := some ⟨frame, 0⟩)
    (fun w hw => absurd (hfree.symm.trans hw) (by simp))
    fun w hw hpartly => by
      obtain rfl := Option.some.inj hw
      exact Nat.lt_irrefl 0 hpartly.1
  have hnew : ∀ b, (t, b) ∉ pending := by
    intro b hmem
    obtain ⟨w, hw, -⟩ := (h.pending t b).mp hmem
    exact absurd (hfree.symm.trans hw) (by simp)
  by_cases hempty : frame = []
  · -- nothing to write: it is out at once
    subst hempty
    refine ⟨whole ++ [[]], pending, part, ?_, ?_, h.nodup,
      h.pending_update (fun _ _ _ => Iff.rfl) fun b => ?_, hbound, hpart⟩
    · have hmid : (whole ++ [[]] ++ pending.map Prod.snd).Perm
          (whole ++ pending.map Prod.snd ++ [[]]) := by
        rw [List.append_assoc, List.append_assoc]
        exact List.Perm.append_left whole List.perm_append_comm
      exact hmid.trans (h.frames.append_right [[]])
    · rw [h.stream, List.flatten_append]
      simp
    · refine iff_of_false (hnew b) ?_
      intro ⟨w, hw, hunsent, _⟩
      obtain rfl := Option.some.inj hw
      exact Nat.lt_irrefl 0 hunsent
  · refine ⟨whole, (t, frame) :: pending, part, ?_, h.stream,
      List.nodup_cons.mpr ⟨hnew frame, h.nodup⟩,
      h.pending_update (fun u b hu => ?_) fun b => ?_, hbound, hpart⟩
    · rw [List.map_cons]
      have hmid : (whole ++ frame :: pending.map Prod.snd).Perm
          (whole ++ pending.map Prod.snd ++ [frame]) := by
        rw [List.append_assoc]
        exact List.Perm.append_left whole (List.perm_append_singleton _ _).symm
      exact hmid.trans (h.frames.append_right [frame])
    · rw [List.mem_cons, or_iff_right fun heq => hu (Prod.mk.inj heq).1]
    · rw [List.mem_cons, or_iff_left (hnew b)]
      constructor
      · intro heq
        exact ⟨_, rfl, List.length_pos_of_ne_nil hempty, (Prod.mk.inj heq).2.symm⟩
      · rintro ⟨w, hw, -, rfl⟩
        obtain rfl := Option.some.inj hw
        rfl

/-- The thread that writes is the one in the middle of its frame, or there is none. -/
theorem Accounted.part_of_turn {whole : List Bytes} {pending : List (θ × Bytes)} {part : Bytes}
    (h : Accounted frames stream s whole pending part) {w : Sending} (hw : s t = some w)
    (hunsent : w.Unsent) (hturn : ∀ t' w, t' ≠ t → s t' = some w → ¬ w.Partly) :
    part = w.buffer.take w.wrote := by
  rcases h.part with ⟨hnil, hno⟩ | ⟨t', w', hw', hpartly, hpart, -⟩
  · have hzero : w.wrote = 0 := by
      by_contra hne
      exact hno t w hw ⟨by omega, hunsent⟩
    rw [hnil, hzero, List.take_zero]
  · by_cases ht : t' = t
    · subst ht
      obtain rfl := Option.some.inj (hw.symm.trans hw')
      exact hpart
    · exact absurd hpartly (hturn t' w' ht hw')

theorem orderly_write (h : Orderly frames stream s) {w : Sending} (hw : s t = some w)
    (hunsent : w.Unsent) (hturn : ∀ t' w, t' ≠ t → s t' = some w → ¬ w.Partly) {n : Nat}
    (hn : 0 < n) (hle : n ≤ w.buffer.length - w.wrote) :
    Orderly frames (stream ++ (w.buffer.drop w.wrote).take n)
      (Function.update s t (some ⟨w.buffer, w.wrote + n⟩)) := by
  obtain ⟨whole, pending, part, h⟩ := h
  have hunsent' : w.wrote < w.buffer.length := hunsent
  have hpart := h.part_of_turn hw hunsent hturn
  have hstream : stream ++ (w.buffer.drop w.wrote).take n
      = whole.flatten ++ w.buffer.take (w.wrote + n) := by
    rw [h.stream, hpart, List.append_assoc, ← List.take_add]
  have hbound := h.bound_update (t := t) (x := some ⟨w.buffer, w.wrote + n⟩) fun w' hw' => by
    obtain rfl := Option.some.inj hw'
    show w.wrote + n ≤ w.buffer.length
    omega
  have hothers : ∀ t' w', t' ≠ t →
      Function.update s t (some ⟨w.buffer, w.wrote + n⟩) t' = some w' → ¬ w'.Partly := by
    intro t' w' hne hw'
    rw [Function.update_of_ne hne] at hw'
    exact hturn t' w' hne hw'
  have hmem : (t, w.buffer) ∈ pending := (h.pending t w.buffer).mpr ⟨w, hw, hunsent, rfl⟩
  by_cases hall : w.wrote + n = w.buffer.length
  · -- the frame is out
    refine ⟨whole ++ [w.buffer], pending.erase (t, w.buffer), [], ?_, ?_, h.nodup.erase _,
      h.pending_update (fun u b hu => ?_) fun b => ?_, hbound, Or.inl ⟨rfl, ?_⟩⟩
    · have hout : (w.buffer :: (pending.erase (t, w.buffer)).map Prod.snd).Perm
          (pending.map Prod.snd) := ((List.perm_cons_erase hmem).map Prod.snd).symm
      rw [List.append_assoc, List.singleton_append]
      exact (List.Perm.append_left whole hout).trans h.frames
    · rw [hstream, hall, List.take_length, List.flatten_append]
      simp
    · rw [h.nodup.mem_erase_iff, and_iff_right fun heq => hu (Prod.mk.inj heq).1]
    · rw [h.nodup.mem_erase_iff, h.pending]
      constructor
      · intro ⟨hne, w', hw', _, hb⟩
        obtain rfl := Option.some.inj (hw.symm.trans hw')
        exact absurd (by rw [hb]) hne
      · intro ⟨w', hw', hunsent', _⟩
        obtain rfl := Option.some.inj hw'
        have hlt : w.wrote + n < w.buffer.length := hunsent'
        omega
    · intro t' w' hw' hpartly
      by_cases ht : t' = t
      · subst ht
        rw [Function.update_self] at hw'
        obtain rfl := Option.some.inj hw'
        have hlt : w.wrote + n < w.buffer.length := hpartly.2
        omega
      · exact hothers t' w' ht hw' hpartly
  · have hlt : w.wrote + n < w.buffer.length := by omega
    refine ⟨whole, pending, w.buffer.take (w.wrote + n), h.frames, hstream, h.nodup,
      h.pending_update (fun _ _ _ => Iff.rfl) fun b => ?_, hbound,
      Or.inr ⟨t, _, Function.update_self .., ⟨Nat.lt_of_lt_of_le hn (Nat.le_add_left n _), hlt⟩,
        rfl, hothers⟩⟩
    rw [h.pending, hw]
    constructor
    · intro ⟨w', hw', _, hb⟩
      obtain rfl := Option.some.inj hw'
      exact ⟨_, rfl, hlt, hb⟩
    · intro ⟨w', hw', _, hb⟩
      obtain rfl := Option.some.inj hw'
      exact ⟨w, rfl, hunsent, hb⟩

theorem orderly_finish (h : Orderly frames stream s) {w : Sending} (hw : s t = some w)
    (hsent : ¬ w.Unsent) : Orderly frames stream (Function.update s t none) := by
  obtain ⟨whole, pending, part, h⟩ := h
  have hmine : ∀ w', s t = some w' → ¬ w'.Unsent := by
    intro w' hw'
    obtain rfl := Option.some.inj (hw.symm.trans hw')
    exact hsent
  refine ⟨whole, pending, part, h.frames, h.stream, h.nodup,
    h.pending_update (fun _ _ _ => Iff.rfl) fun b => ?_,
    h.bound_update fun w' hw' => absurd hw' (by simp),
    h.part_update (fun w' hw' hpartly => hmine w' hw' hpartly.2)
      fun w' hw' => absurd hw' (by simp)⟩
  rw [h.pending]
  constructor
  · intro ⟨w', hw', hunsent, _⟩
    exact absurd hunsent (hmine w' hw')
  · intro ⟨w', hw', _⟩
    exact absurd hw' (by simp)

theorem orderly_step {s' : Senders θ} {act : SendAct θ} {bytes : Bytes}
    (h : Orderly frames stream s) (hturn : TakesTurns s act)
    (hstep : sendStep s act = some (bytes, s')) :
    Orderly (frames ++ framesOf [act]) (stream ++ bytes) s' := by
  cases sends_of_step hstep with
  | @call t frame hfree =>
    rw [List.append_nil]
    exact orderly_call h hfree frame
  | again =>
    show Orderly (frames ++ []) _ _
    rw [List.append_nil, List.append_nil]
    exact h
  | wrote hw hunsent hn hle =>
    show Orderly (frames ++ []) _ _
    rw [List.append_nil]
    exact orderly_write h hw hunsent hturn hn hle
  | finish hw hsent =>
    show Orderly (frames ++ []) _ _
    rw [List.append_nil, List.append_nil]
    exact orderly_finish h hw hsent

theorem orderly_run :
    ∀ {acts : List (SendAct θ)} {s : Senders θ} {frames : List Bytes} {stream : Bytes}
      {outs : List Bytes} {s' : Senders θ}, Orderly frames stream s →
      Guarded sendStep TakesTurns s acts → runs sendStep s acts = some (outs, s') →
      Orderly (frames ++ framesOf acts) (stream ++ outs.flatten) s' := by
  intro acts
  induction acts with
  | nil =>
    intro s frames stream outs s' h _ hrun
    obtain ⟨rfl, rfl⟩ := Prod.mk.inj (Option.some.inj hrun)
    show Orderly (frames ++ []) (stream ++ []) s
    rw [List.append_nil, List.append_nil]
    exact h
  | cons act acts ih =>
    intro s frames stream outs s' h hg hrun
    obtain ⟨bytes, s₁, outs', hstep, hrun', rfl⟩ := runs_cons.mp hrun
    rw [framesOf_cons, List.flatten_cons, ← List.append_assoc, ← List.append_assoc]
    exact ih (orderly_step h hg.1 hstep) (hg.2 bytes s₁ hstep) hrun'

/-- A `write` that takes all there is. -/
def TakesAll (s : Senders θ) : SendAct θ → Prop
  | .write t (some n) => ∀ w, s t = some w → w.wrote + n = w.buffer.length
  | _ => True

/-- Threads whose `write`s always take all there is take turns. -/
theorem turns_of_takes_all :
    ∀ {acts : List (SendAct θ)} {s : Senders θ}, (∀ t w, s t = some w → ¬ w.Partly) →
      Guarded sendStep TakesAll s acts → Guarded sendStep TakesTurns s acts := by
  intro acts
  induction acts with
  | nil => exact fun _ _ => trivial
  | cons act acts ih =>
    intro s hno hg
    refine ⟨?_, fun bytes s' hstep => ih ?_ (hg.2 bytes s' hstep)⟩
    · cases act with
      | call t frame => trivial
      | write t n => exact fun t' w _ hw => hno t' w hw
      | finish t => trivial
    · intro t' w' hw' hpartly
      have hturn := hg.1
      cases sends_of_step hstep with
      | call =>
        rcases update_some_cases hw' with ⟨-, heq⟩ | ⟨-, hw'⟩
        · obtain rfl := Option.some.inj heq
          exact absurd hpartly.1 (Nat.lt_irrefl 0)
        · exact hno t' w' hw' hpartly
      | again => exact hno t' w' hw' hpartly
      | @wrote t n w hw =>
        rcases update_some_cases hw' with ⟨-, heq⟩ | ⟨-, hw'⟩
        · obtain rfl := Option.some.inj heq
          have hall : w.wrote + n = w.buffer.length := hturn w hw
          exact Nat.lt_irrefl _ (hall ▸ hpartly.2)
        · exact hno t' w' hw' hpartly
      | finish =>
        rcases update_some_cases hw' with ⟨-, heq⟩ | ⟨-, hw'⟩
        · exact absurd heq (by simp)
        · exact hno t' w' hw' hpartly

end Steps

/-- **When no frame is torn.** In a run in which no thread writes while another is in the middle
of its frame, the stream is at any time whole frames and then the beginning of one at most, and
when all loops have written their frames it is these, each once. -/
theorem frames_untorn {θ : Type} [DecidableEq θ] {acts : List (SendAct θ)} {outs : List Bytes}
    {s : Senders θ} (hrun : runs sendStep nobody acts = some (outs, s))
    (hturns : Guarded sendStep TakesTurns nobody acts) :
    (∃ (whole : List Bytes) (part : Bytes), (∀ f ∈ whole, f ∈ framesOf acts) ∧
      (part = [] ∨ ∃ f ∈ framesOf acts, part <+: f) ∧ outs.flatten = whole.flatten ++ part) ∧
    ((∀ t w, s t = some w → ¬ w.Unsent) → Untorn (framesOf acts) outs.flatten) := by
  have h := orderly_run orderly_nobody hturns hrun
  rw [List.nil_append, List.nil_append] at h
  exact ⟨h.beginning, h.untorn⟩

/-- A connection's thread and a worker that take turns, the first with a short `write`. -/
theorem frames_untorn_turns :
    Untorn [[0, 5, 0, 1, 0xf1], [0, 5, 0, 2, 0xf1]]
      [0, 5, 0, 1, 0xf1, 0, 5, 0, 2, 0xf1] := by
  have hrun : runs sendStep (nobody : Senders Bool)
      [.call true [0, 5, 0, 1, 0xf1], .call false [0, 5, 0, 2, 0xf1], .write true (some 3),
        .write true (some 2), .write false (some 5)]
      = some ([[], [], [0, 5, 0], [1, 0xf1], [0, 5, 0, 2, 0xf1]], _) := rfl
  have hfalse : ∀ {s : Senders Bool} {n : Option Nat} {w : Sending}, s false = some w →
      ¬ w.Partly → TakesTurns s (.write true n) := by
    intro s n w hw hno t' w' ht hw'
    obtain rfl : t' = false := by simpa using ht
    obtain rfl := Option.some.inj (hw.symm.trans hw')
    exact hno
  have htrue : ∀ {s : Senders Bool} {n : Option Nat} {w : Sending}, s true = some w →
      ¬ w.Partly → TakesTurns s (.write false n) := by
    intro s n w hw hno t' w' ht hw'
    obtain rfl : t' = true := by simpa using ht
    obtain rfl := Option.some.inj (hw.symm.trans hw')
    exact hno
  refine (frames_untorn hrun ?_).2 ?_
  · refine guarded_cons trivial rfl (guarded_cons trivial rfl (guarded_cons ?_ rfl
      (guarded_cons ?_ rfl (guarded_cons ?_ rfl trivial))))
    · exact hfalse (w := ⟨[0, 5, 0, 2, 0xf1], 0⟩) rfl (by decide)
    · exact hfalse (w := ⟨[0, 5, 0, 2, 0xf1], 0⟩) rfl (by decide)
    · exact htrue (w := ⟨[0, 5, 0, 1, 0xf1], 5⟩) rfl (by decide)
  · intro t w hw
    cases t with
    | false =>
      obtain rfl : (⟨[0, 5, 0, 2, 0xf1], 5⟩ : Sending) = w := Option.some.inj hw
      decide
    | true =>
      obtain rfl : (⟨[0, 5, 0, 1, 0xf1], 5⟩ : Sending) = w := Option.some.inj hw
      decide

/-- They do not take turns: the worker's frame comes in the middle of the other. -/
theorem torn_frame :
    Server.arrSendResponse 1 NASTOK [] = some [0, 5, 0, 1, 0xf1] ∧
      Server.arrSendResponse 2 NASTOK [] = some [0, 5, 0, 2, 0xf1] ∧
      ∃ (outs : List Bytes) (s : Senders Bool),
        runs sendStep nobody
          [.call true [0, 5, 0, 1, 0xf1], .call false [0, 5, 0, 2, 0xf1], .write true (some 3),
            .write false (some 5), .write true (some 2), .finish true, .finish false]
          = some (outs, s) ∧ (∀ t, s t = none) ∧
        ¬ Untorn [[0, 5, 0, 1, 0xf1], [0, 5, 0, 2, 0xf1]] outs.flatten := by
  refine ⟨by decide, by decide, [[], [], [0, 5, 0], [0, 5, 0, 2, 0xf1], [1, 0xf1], [], []], _,
    rfl, ?_, ?_⟩
  · intro t
    cases t with
    | false => rfl
    | true => rfl
  · intro ⟨order, hperm, hstream⟩
    cases order with
    | nil => exact absurd hstream (by decide)
    | cons f order =>
      have hf : f = [0, 5, 0, 1, 0xf1] ∨ f = [0, 5, 0, 2, 0xf1] := by
        simpa using hperm.mem_iff.mp List.mem_cons_self
      -- the fourth byte belongs to neither frame
      rcases hf with rfl | rfl
      · have hfour : some (0 : Byte) = some 1 := congrArg (fun l : Bytes => l[3]?) hstream
        exact absurd hfour (by decide)
      · have hfour : some (0 : Byte) = some 2 := congrArg (fun l : Bytes => l[3]?) hstream
        exact absurd hfour (by decide)

end Nastd
