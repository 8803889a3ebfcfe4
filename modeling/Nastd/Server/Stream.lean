import Nastd.Lib.Cuts
import Nastd.Server.OneResponse

/-!
# A connection's stream of requests

`io_looper` of `server/nastdio.c` over everything a connection brings: one `process_cmd` for
each `recv`, until a handler returns 1. What is recorded are the commands that `process_cmd`
gets to its `switch` with. A `recv` that fills the buffer makes `io_looper` write behind it
(`none`). Behind the received bytes are a NUL and whatever was in memory before.

* `serve`: what becomes of requests that are in memory one behind the other.
* `dispatchLoop_serve`: that is what the loop does on them.
* `own_dispatches`: when each request comes alone all are dispatched, up to the first DIE.
-/

namespace Nastd.Server

open Nastd.Lib

/-- The loop of `process_cmd`, with the commands it dispatched. -/
def dispatchLoop (env : Nat → Shared → Shared) (mem : Int → Byte) (sock : Nat) (bufflen : Int) :
    Nat → Int → Nat → NastOptions → Shared →
      Option (List Cmd × Outcome × NastOptions × Shared)
  | 0, p, _, opts, srv => if p < bufflen then none else some ([], .idle 0, opts, srv)
  | fuel + 1, p, i, opts, srv =>
    if p < bufflen then
      let len := short (ntohs (mem p) (mem (p + 1)))
      let reqid := ntohs (mem (p + 2)) (mem (p + 3))
      let cmd := mem (p + 5)
      if mem (p + 4) ≠ NASTCMD then some ([], .idle (-1), opts, env i srv)
      else if len < 6 ∧ readsArgs cmd = true then none
      else
        let args := (List.range (len - 6).toNat).map fun j : Nat => mem (p + 6 + j)
        let r := handleCmd sock reqid cmd args (fun j : Nat => mem (p + len + j)) opts (env i srv)
        if r.1.rc = -1 ∨ r.1.rc = 1 then some ([⟨reqid, cmd, args⟩], r)
        else
          (dispatchLoop env mem sock bufflen fuel (p + len) (i + 1) r.2.1 r.2.2).map
            fun x => (⟨reqid, cmd, args⟩ :: x.1, r.1.andThen x.2.1, x.2.2)
    else some ([], .idle 0, opts, srv)

/-- `process_cmd`, with the commands it dispatched. -/
def dispatchCmd (env : Nat → Shared → Shared) (mem : Int → Byte) (sock bufflen fuel : Nat)
    (opts : NastOptions) (srv : Shared) : Option (List Cmd × Outcome × NastOptions × Shared) :=
  if bufflen < 6 then some ([], .idle (-1), opts, srv)
  else dispatchLoop env mem sock bufflen fuel 0 0 opts srv

/-- One `recv` of `io_looper`: its bytes, and what other threads do to the shared state before
each of its commands. -/
structure Arrival where
  chunk : Bytes
  env : Nat → Shared → Shared

/-- And what was in memory around the buffer. -/
structure Read extends Arrival where
  around : Int → Byte

/-- The buffer with `buffer[nbytes] = '\0'`. -/
def Read.mem (r : Read) : Int → Byte := bufMem (r.chunk ++ [0]) r.around

/-- `io_looper`: the commands that are dispatched for these reads. -/
def ioLooper (sock fuel : Nat) : List Read → NastOptions → Shared → Option (List Cmd)
  | [], _, _ => some []
  | r :: reads, opts, srv =>
    if r.chunk.length ≥ 1024 then none
    else
      (dispatchCmd r.env r.mem sock r.chunk.length fuel opts srv).bind fun x =>
        if x.2.1.rc = 1 then some x.1
        else (ioLooper sock fuel reads x.2.2.1 x.2.2.2).map fun ds => x.1 ++ ds

/-- These are dispatched, and every `process_cmd` ends. -/
def Dispatches (sock : Nat) (reads : List Read) (opts : NastOptions) (srv : Shared)
    (ds : List Cmd) : Prop :=
  ∃ fuel, ioLooper sock fuel reads opts srv = some ds

/-! ## The record changes nothing -/

section Loop

variable {env : Nat → Shared → Shared} {mem : Int → Byte} {sock : Nat}

theorem dispatchLoop_process {bufflen : Int} :
    ∀ (fuel i : Nat) (p : Int) (opts : NastOptions) (srv : Shared),
      (dispatchLoop env mem sock bufflen fuel p i opts srv).map Prod.snd
        = processLoop env mem sock bufflen fuel p i opts srv := by
  intro fuel
  induction fuel with
  | zero =>
    intro i p opts srv
    rw [dispatchLoop, processLoop]
    split
    · rfl
    · rfl
  | succ fuel ih =>
    intro i p opts srv
    rw [dispatchLoop, processLoop]
    dsimp only
    split
    · split
      · rfl
      split
      · rfl
      split
      · rfl
      · rw [← ih, Option.map_map, Option.map_map]
        rfl
    · rfl

/-- With its record or without, it is `process_cmd`. -/
theorem dispatchCmd_process (bufflen fuel : Nat) (opts : NastOptions) (srv : Shared) :
    (dispatchCmd env mem sock bufflen fuel opts srv).map Prod.snd
      = processCmd env mem sock bufflen fuel opts srv := by
  unfold dispatchCmd processCmd
  split
  · rfl
  · exact dispatchLoop_process fuel 0 0 opts srv

/-- More fuel does not matter. -/
theorem dispatchLoop_mono {bufflen : Int} (k : Nat) :
    ∀ {fuel i : Nat} {p : Int} {opts : NastOptions} {srv : Shared}
      {x : List Cmd × Outcome × NastOptions × Shared},
      dispatchLoop env mem sock bufflen fuel p i opts srv = some x →
      dispatchLoop env mem sock bufflen (fuel + k) p i opts srv = some x := by
  intro fuel
  induction fuel with
  | zero =>
    intro i p opts srv x h
    rw [dispatchLoop] at h
    split at h
    next => exact absurd h (by simp)
    next hp =>
      rw [← h, Nat.zero_add]
      cases k with
      | zero => rw [dispatchLoop, if_neg hp]
      | succ k => rw [dispatchLoop, if_neg hp]
  | succ fuel ih =>
    intro i p opts srv x h
    rw [Nat.add_right_comm]
    rw [dispatchLoop] at h ⊢
    dsimp only at h ⊢
    split at h
    next hp =>
      rw [if_pos hp]
      split at h
      next hmark => rw [if_pos hmark, h]
      next hmark =>
        rw [if_neg hmark]
        split at h
        next => exact absurd h (by simp)
        next hargs =>
          rw [if_neg hargs]
          split at h
          next hstop => rw [if_pos hstop, h]
          next hstop =>
            obtain ⟨y, hy, hx⟩ := Option.map_eq_some_iff.mp h
            rw [if_neg hstop, ih hy, ← hx]
            rfl
    next hp => rw [if_neg hp, h]

theorem dispatchCmd_mono (k : Nat) {bufflen fuel : Nat} {opts : NastOptions} {srv : Shared}
    {x : List Cmd × Outcome × NastOptions × Shared}
    (h : dispatchCmd env mem sock bufflen fuel opts srv = some x) :
    dispatchCmd env mem sock bufflen (fuel + k) opts srv = some x := by
  unfold dispatchCmd at h ⊢
  split at h
  next hshort => rw [if_pos hshort, h]
  next hshort =>
    rw [if_neg hshort]
    exact dispatchLoop_mono k h

/-- Behind the buffer. -/
theorem dispatchLoop_end {bufflen p : Int} (hp : ¬ p < bufflen) (fuel i : Nat)
    (opts : NastOptions) (srv : Shared) :
    dispatchLoop env mem sock bufflen fuel p i opts srv = some ([], .idle 0, opts, srv) := by
  cases fuel with
  | zero => rw [dispatchLoop, if_neg hp]
  | succ fuel => rw [dispatchLoop, if_neg hp]

/-! ## Requests one behind the other -/

/-- Which of these requests are served, from position `p` on, and how that ends: none behind
the first whose handler returns -1 or 1. -/
def serve (env : Nat → Shared → Shared) (mem : Int → Byte) (sock : Nat) :
    List Cmd → Int → Nat → NastOptions → Shared → List Cmd × Outcome × NastOptions × Shared
  | [], _, _, opts, srv => ([], .idle 0, opts, srv)
  | c :: cs, p, i, opts, srv =>
    let r := handleCmd sock c.reqid c.cmd c.args (fun j => mem (p + c.size + j)) opts (env i srv)
    if r.1.rc = -1 ∨ r.1.rc = 1 then ([c], r)
    else
      let x := serve env mem sock cs (p + c.size) (i + 1) r.2.1 r.2.2
      (c :: x.1, r.1.andThen x.2.1, x.2.2)

/-- One request that is in memory whole. -/
theorem dispatchLoop_cmd {bufflen : Int} {c : Cmd} {p : Int} (hat : At mem p c.frame)
    (hc : c.Framed) (hp : p < bufflen) (fuel i : Nat) (opts : NastOptions) (srv : Shared) :
    dispatchLoop env mem sock bufflen (fuel + 1) p i opts srv
      = (let r := handleCmd sock c.reqid c.cmd c.args (fun j => mem (p + c.size + j)) opts
          (env i srv)
        if r.1.rc = -1 ∨ r.1.rc = 1 then some ([c], r)
        else (dispatchLoop env mem sock bufflen fuel (p + c.size) (i + 1) r.2.1 r.2.2).map
          fun x => (c :: x.1, r.1.andThen x.2.1, x.2.2)) := by
  obtain ⟨hlen, hid, hmark⟩ := Cmd.read_head (at_append (c.frame_eq ▸ hat)).1 hc
  obtain ⟨hcmd, hargs⟩ := Cmd.read_rest hat
  have h6 : ¬ (c.size : Int) < 6 := by
    unfold Cmd.size
    omega
  rw [dispatchLoop, if_pos hp]
  simp only [hlen, hid, hmark, hcmd, hargs, h6, false_and, if_false, ne_eq, not_true_eq_false]

theorem wire_cons (c : Cmd) (cs : List Cmd) : wire (c :: cs) = c.frame ++ wire cs :=
  List.flatMap_cons ..

theorem wire_append (g h : List Cmd) : wire (g ++ h) = wire g ++ wire h :=
  List.flatMap_append

/-- The loop serves the requests, and goes on behind them if it was not stopped. All of the last
one but its start may be behind the received bytes. -/
theorem dispatchLoop_serve {bufflen : Int} :
    ∀ {g : List Cmd} {p : Int} {i : Nat} {opts : NastOptions} {srv : Shared} (k : Nat),
      (∀ c ∈ g, c.Framed) → At mem p (wire g) → p + (wire g).length < bufflen + 6 →
      dispatchLoop env mem sock bufflen (g.length + k) p i opts srv
        = (let x := serve env mem sock g p i opts srv
          if x.2.1.rc = -1 ∨ x.2.1.rc = 1 then some x
          else (dispatchLoop env mem sock bufflen k (p + (wire g).length) (i + g.length)
            x.2.2.1 x.2.2.2).map fun y => (x.1 ++ y.1, x.2.1.andThen y.2.1, y.2.2)) := by
  intro g
  induction g with
  | nil =>
    intro p i opts srv k _ _ _
    have hwire : ((wire []).length : Int) = 0 := rfl
    have hrc : ¬ ((0 : Int) = -1 ∨ (0 : Int) = 1) := by decide
    show _ = if (0 : Int) = -1 ∨ (0 : Int) = 1 then _ else _
    rw [if_neg hrc, hwire, Int.add_zero, List.length_nil, Nat.zero_add, Nat.add_zero]
    exact Option.map_id'.symm
  | cons c g ih =>
    intro p i opts srv k hframed hat hend
    rw [wire_cons] at hat hend
    obtain ⟨hat₁, hat₂⟩ := at_append hat
    rw [Cmd.frame_length] at hat₂
    rw [List.length_append, Cmd.frame_length] at hend
    have hsize : c.size = 6 + c.args.length := rfl
    have hwire : ((wire (c :: g)).length : Int) = c.size + (wire g).length := by
      rw [wire_cons, List.length_append, Cmd.frame_length]
      exact Int.natCast_add _ _
    rw [List.length_cons, Nat.add_right_comm,
      dispatchLoop_cmd hat₁ (hframed c List.mem_cons_self) (by omega)]
    simp only [serve]
    generalize handleCmd sock c.reqid c.cmd c.args (fun j => mem (p + c.size + j)) opts
      (env i srv) = r
    by_cases hstop : r.1.rc = -1 ∨ r.1.rc = 1
    · simp only [if_pos hstop]
    · have hidx : i + 1 + g.length = i + (g.length + 1) := by omega
      simp only [if_neg hstop]
      rw [ih k (fun d hd => hframed d (List.mem_cons_of_mem _ hd)) hat₂ (by omega), hwire,
        ← Int.add_assoc, hidx]
      generalize serve env mem sock g (p + c.size) (i + 1) r.2.1 r.2.2 = x
      obtain ⟨ds, out, opts', srv'⟩ := x
      -- the code of the whole is that of the last request served
      show Option.map _ (if out.rc = -1 ∨ out.rc = 1 then _ else _)
        = if out.rc = -1 ∨ out.rc = 1 then _ else _
      by_cases hlast : out.rc = -1 ∨ out.rc = 1
      · rw [if_pos hlast, if_pos hlast]
        rfl
      · rw [if_neg hlast, if_neg hlast, Option.map_map]
        congr 1
        funext y
        simp only [Function.comp_apply, Outcome.andThen, List.cons_append, List.append_assoc]

/-! ## Which requests are served -/

/-- The handler of this request returns 0. -/
def Continues (c : Cmd) (after : Nat → Byte) (opts : NastOptions) (srv : Shared) : Prop :=
  c.Known ∧ Answers c after opts srv ∧ GoesOn c after opts srv ∨ c.cmd = NASTADD ∨ c.cmd = NASTDEL

/-- The handlers of all of these but the last return 0. -/
def Follows (env : Nat → Shared → Shared) (mem : Int → Byte) (sock : Nat) :
    List Cmd → Int → Nat → NastOptions → Shared → Prop
  | [], _, _, _, _ => True
  | c :: cs, p, i, opts, srv =>
    let after := fun j : Nat => mem (p + c.size + j)
    let r := handleCmd sock c.reqid c.cmd c.args after opts (env i srv)
    cs ≠ [] → Continues c after opts (env i srv) ∧
      Follows env mem sock cs (p + c.size) (i + 1) r.2.1 r.2.2

end Loop

section Handler

variable {c : Cmd} {after : Nat → Byte} {opts : NastOptions} {srv : Shared}

/-- The commands that have no handler. -/
theorem handleCmd_unknown (hknown : ¬ c.Known) (sock : Nat) :
    (handleCmd sock c.reqid c.cmd c.args after opts srv).1.rc
      = if c.cmd = NASTDIE then 1 else if c.cmd = NASTADD ∨ c.cmd = NASTDEL then 0 else -1 := by
  unfold Cmd.Known at hknown
  rw [not_or, not_or, not_or, not_or] at hknown
  obtain ⟨hget, hupd, hoptget, hoptset, hstats⟩ := hknown
  unfold handleCmd
  rw [if_neg hoptset, if_neg hoptget, if_neg hget, if_neg hupd, if_neg hstats]
  split
  · rfl
  split
  next hadd => rw [if_pos (Or.inl hadd)]; rfl
  next hadd =>
    split
    next hdel => rw [if_pos (Or.inr hdel)]; rfl
    next hdel => rw [if_neg (not_or.mpr ⟨hadd, hdel⟩)]; rfl

/-- What a handler returns. -/
theorem handleCmd_rc (c : Cmd) (after : Nat → Byte) (opts : NastOptions) (srv : Shared)
    (sock : Nat) :
    (handleCmd sock c.reqid c.cmd c.args after opts srv).1.rc = 0 ∧ Continues c after opts srv ∨
      (handleCmd sock c.reqid c.cmd c.args after opts srv).1.rc = 1 ∧ c.cmd = NASTDIE ∧
        ¬ Continues c after opts srv ∨
      (handleCmd sock c.reqid c.cmd c.args after opts srv).1.rc = -1 ∧ c.cmd ≠ NASTDIE ∧
        ¬ Continues c after opts srv := by
  by_cases hknown : c.Known
  · have hno : c.cmd ≠ NASTDIE ∧ c.cmd ≠ NASTADD ∧ c.cmd ≠ NASTDEL := by
      rcases hknown with h | h | h | h | h <;> rw [h] <;> decide
    have hstop : ¬ (Answers c after opts srv ∧ GoesOn c after opts srv) →
        ¬ Continues c after opts srv := by
      rintro hn (⟨-, h⟩ | h | h)
      · exact hn h
      · exact hno.2.1 h
      · exact hno.2.2 h
    have hends : Ends c after opts srv (handleCmd sock c.reqid c.cmd c.args after opts srv).1 :=
      handleCmd_ends hknown sock
    cases hends with
    | replied hans hgo _ hrc => exact Or.inl ⟨hrc, Or.inl ⟨hknown, hans, hgo⟩⟩
    | stopped _ hgo _ hrc => exact Or.inr (Or.inr ⟨hrc, hno.1, hstop fun h => hgo h.2⟩)
    | silent hans _ hrc => exact Or.inr (Or.inr ⟨hrc, hno.1, hstop fun h => hans h.1⟩)
  · rw [handleCmd_unknown hknown]
    by_cases hdie : c.cmd = NASTDIE
    · rw [if_pos hdie]
      refine Or.inr (Or.inl ⟨rfl, hdie, ?_⟩)
      rintro (h | h | h)
      · exact hknown h.1
      · exact absurd (hdie.symm.trans h) (by decide)
      · exact absurd (hdie.symm.trans h) (by decide)
    · rw [if_neg hdie]
      by_cases hlog : c.cmd = NASTADD ∨ c.cmd = NASTDEL
      · rw [if_pos hlog]
        exact Or.inl ⟨rfl, Or.inr hlog⟩
      · rw [if_neg hlog]
        refine Or.inr (Or.inr ⟨rfl, hdie, ?_⟩)
        rintro (h | h)
        · exact hknown h.1
        · exact hlog h

theorem Continues.ne_die (h : Continues c after opts srv) : c.cmd ≠ NASTDIE := by
  rcases h with ⟨hknown, -⟩ | hlog | hlog
  · rcases hknown with h | h | h | h | h <;> rw [h] <;> decide
  · rw [hlog]; decide
  · rw [hlog]; decide

end Handler

section Serve

variable {env : Nat → Shared → Shared} {mem : Int → Byte} {sock : Nat}

/-- One request, and then the others. -/
theorem serve_cons (c : Cmd) (g : List Cmd) (p : Int) (i : Nat) (opts : NastOptions)
    (srv : Shared) :
    (let r := handleCmd sock c.reqid c.cmd c.args (fun j => mem (p + c.size + j)) opts (env i srv)
    r.1.rc = 0 ∧ Continues c (fun j => mem (p + c.size + j)) opts (env i srv) ∧
        (serve env mem sock (c :: g) p i opts srv).1
          = c :: (serve env mem sock g (p + c.size) (i + 1) r.2.1 r.2.2).1 ∧
        (serve env mem sock (c :: g) p i opts srv).2.1.rc
          = (serve env mem sock g (p + c.size) (i + 1) r.2.1 r.2.2).2.1.rc ∨
      ¬ Continues c (fun j => mem (p + c.size + j)) opts (env i srv) ∧
        (serve env mem sock (c :: g) p i opts srv).1 = [c] ∧
        ((serve env mem sock (c :: g) p i opts srv).2.1.rc = 1 ↔ c.cmd = NASTDIE)) := by
  simp only [serve]
  rcases handleCmd_rc c (fun j => mem (p + c.size + j)) opts (env i srv) sock with
    ⟨hrc, hcont⟩ | ⟨hrc, hdie, hcont⟩ | ⟨hrc, hdie, hcont⟩
  · rw [if_neg (by rw [hrc]; decide)]
    exact Or.inl ⟨hrc, hcont, rfl, rfl⟩
  · rw [if_pos (Or.inr hrc)]
    exact Or.inr ⟨hcont, rfl, iff_of_true hrc hdie⟩
  · rw [if_pos (Or.inl hrc)]
    refine Or.inr ⟨hcont, rfl, iff_of_false ?_ hdie⟩
    rw [hrc]
    decide

theorem serve_begins :
    ∀ (g : List Cmd) (p : Int) (i : Nat) (opts : NastOptions) (srv : Shared),
      (serve env mem sock g p i opts srv).1 <+: g := by
  intro g
  induction g with
  | nil => exact fun _ _ _ _ => List.prefix_refl []
  | cons c g ih =>
    intro p i opts srv
    rcases serve_cons c g p i opts srv with ⟨-, -, hds, -⟩ | ⟨-, hds, -⟩
    · rw [hds]
      exact List.cons_prefix_cons.mpr ⟨rfl, ih _ _ _ _⟩
    · rw [hds]
      exact ⟨g, rfl⟩

/-- All are served exactly if all but the last go on. -/
theorem serve_eq_iff :
    ∀ {g : List Cmd} {p : Int} {i : Nat} {opts : NastOptions} {srv : Shared},
      (serve env mem sock g p i opts srv).1 = g ↔ Follows env mem sock g p i opts srv := by
  intro g
  induction g with
  | nil =>
    intro p i opts srv
    exact iff_of_true rfl trivial
  | cons c g ih =>
    intro p i opts srv
    rcases serve_cons c g p i opts srv with ⟨-, hcont, hds, -⟩ | ⟨hcont, hds, -⟩
    · rw [hds, List.cons_inj_right, ih]
      constructor
      · exact fun h _ => ⟨hcont, h⟩
      · intro h
        cases g with
        | nil => trivial
        | cons d g => exact (h (List.cons_ne_nil d g)).2
    · rw [hds, List.cons_inj_right]
      constructor
      · exact fun h hne => absurd h.symm hne
      · intro h
        by_contra hne
        exact hcont (h (Ne.symm hne)).1

/-- `io_looper` ends exactly if a DIE was served. -/
theorem serve_die :
    ∀ {g : List Cmd} {p : Int} {i : Nat} {opts : NastOptions} {srv : Shared},
      (serve env mem sock g p i opts srv).2.1.rc = 1
        ↔ ∃ c ∈ (serve env mem sock g p i opts srv).1, c.cmd = NASTDIE := by
  intro g
  induction g with
  | nil =>
    intro p i opts srv
    apply iff_of_false
    · show ¬ (0 : Int) = 1
      decide
    · intro ⟨c, hc, _⟩
      exact absurd hc (by simp [serve])
  | cons c g ih =>
    intro p i opts srv
    rcases serve_cons c g p i opts srv with ⟨-, hcont, hds, hrc⟩ | ⟨-, hds, hrc⟩
    · have hne := hcont.ne_die
      rw [hds, hrc, ih]
      simp [hne]
    · rw [hds, hrc]
      simp

/-- What a connection is good for: nothing behind the first DIE. -/
def upToDie : List Cmd → List Cmd
  | [] => []
  | c :: cs => if c.cmd = NASTDIE then [c] else c :: upToDie cs

/-- When all are served, a DIE ends the connection and nothing else does. -/
theorem serve_upToDie (cs : List Cmd) :
    ∀ {g : List Cmd} {p : Int} {i : Nat} {opts : NastOptions} {srv : Shared},
      (serve env mem sock g p i opts srv).1 = g →
      upToDie (g ++ cs) = if (serve env mem sock g p i opts srv).2.1.rc = 1 then g
        else g ++ upToDie cs := by
  intro g
  induction g with
  | nil => exact fun _ => rfl
  | cons c g ih =>
    intro p i opts srv hall
    rcases serve_cons c g p i opts srv with ⟨-, hcont, hds, hrc⟩ | ⟨-, hds, hrc⟩
    · rw [hds] at hall
      rw [List.cons_append, upToDie, if_neg hcont.ne_die, ih (List.cons.inj hall).2, hrc]
      split
      · rfl
      · rfl
    · rw [hds] at hall
      obtain rfl := (List.cons.inj hall).2
      rw [List.cons_append, List.nil_append, upToDie]
      by_cases hdie : c.cmd = NASTDIE
      · rw [if_pos hdie, if_pos (hrc.mpr hdie)]
      · rw [if_neg hdie, if_neg fun h => hdie (hrc.mp h)]
        rfl

end Serve

/-! ## A connection -/

/-- The buffer holds these requests from its start on. Of the last one a NUL may be missing. -/
structure Read.Holds (r : Read) (g : List Cmd) : Prop where
  framed : ∀ c ∈ g, c.Framed
  start : At r.mem 0 (wire g)
  long : 6 ≤ r.chunk.length
  ends : (wire g).length ≤ r.chunk.length + 1

theorem dispatchCmd_holds {r : Read} {g : List Cmd} (h : r.Holds g) (sock k : Nat)
    (opts : NastOptions) (srv : Shared) :
    dispatchCmd r.env r.mem sock r.chunk.length (g.length + k) opts srv
      = (let x := serve r.env r.mem sock g 0 0 opts srv
        if x.2.1.rc = -1 ∨ x.2.1.rc = 1 then some x
        else (dispatchLoop r.env r.mem sock r.chunk.length k (wire g).length g.length
          x.2.2.1 x.2.2.2).map fun y => (x.1 ++ y.1, x.2.1.andThen y.2.1, y.2.2)) := by
  have hlong := h.long
  have hends := h.ends
  unfold dispatchCmd
  rw [if_neg (by omega), dispatchLoop_serve k h.framed h.start (by omega), Int.zero_add,
    Nat.zero_add]

/-- A chunk that ends where its last request does. -/
theorem ioLooper_holds {r : Read} {g : List Cmd} (h : r.Holds g)
    (hover : r.chunk.length ≤ (wire g).length) (hshort : r.chunk.length < 1024)
    {fuel : Nat} (hfuel : g.length ≤ fuel) (sock : Nat) (reads : List Read) (opts : NastOptions)
    (srv : Shared) :
    ioLooper sock fuel (r :: reads) opts srv
      = (let x := serve r.env r.mem sock g 0 0 opts srv
        if x.2.1.rc = 1 then some x.1
        else (ioLooper sock fuel reads x.2.2.1 x.2.2.2).map fun ds => x.1 ++ ds) := by
  obtain ⟨k, rfl⟩ := Nat.exists_eq_add_of_le hfuel
  rw [ioLooper, if_neg (by omega), dispatchCmd_holds h]
  dsimp only
  split
  next hstop => rfl
  next hstop =>
    rw [dispatchLoop_end (by omega), if_neg fun h1 => hstop (Or.inr h1)]
    dsimp only [Option.map_some, Option.bind_some, Outcome.andThen, Outcome.idle]
    rw [if_neg (by decide), List.append_nil]

/-- A chunk too short for a command. -/
theorem ioLooper_short {r : Read} (h : r.chunk.length < 6) (sock fuel : Nat) (reads : List Read)
    (opts : NastOptions) (srv : Shared) :
    ioLooper sock fuel (r :: reads) opts srv = ioLooper sock fuel reads opts srv := by
  have hrc : (Outcome.idle (-1)).rc ≠ 1 := by decide
  rw [ioLooper, if_neg (by omega), dispatchCmd, if_pos h, Option.bind_some, if_neg hrc]
  exact Option.map_id'

/-- One request in a chunk of its own. -/
theorem holds_single {r : Read} {c : Cmd} (hc : c.Framed) (hchunk : r.chunk = c.frame) :
    r.Holds [c] := by
  have hwire : wire [c] = c.frame := List.append_nil _
  have hlen : r.chunk.length = 6 + c.args.length := by
    rw [hchunk, Cmd.frame_length]
    rfl
  refine ⟨fun d hd => List.mem_singleton.mp hd ▸ hc, ?_, by omega, ?_⟩
  · rw [hwire, ← hchunk]
    exact (at_append (bufMem_at (r.chunk ++ [0]) r.around)).1
  · rw [hwire, ← hchunk]
    omega

/-- When each request comes alone, all are dispatched up to the first DIE. -/
theorem own_dispatches (sock k : Nat) :
    ∀ {cs : List Cmd} {own : List Read}, (∀ c ∈ cs, c.size ≤ 512) →
      own.map (fun r => r.chunk) = cs.map Cmd.frame → ∀ (opts : NastOptions) (srv : Shared),
      ioLooper sock (k + 1) own opts srv = some (upToDie cs) := by
  intro cs
  induction cs with
  | nil =>
    intro own _ hown opts srv
    obtain rfl := List.map_eq_nil_iff.mp hown
    rfl
  | cons c cs ih =>
    intro own hsize hown opts srv
    cases own with
    | nil => exact absurd hown (by simp)
    | cons r own =>
      obtain ⟨hchunk, hown⟩ := List.cons.inj hown
      have hc := hsize c List.mem_cons_self
      have hframed : c.Framed := by
        unfold Cmd.Framed
        omega
      have hlen : r.chunk.length = c.size := by
        have hchunk : r.chunk = c.frame := hchunk
        rw [hchunk, Cmd.frame_length]
      have hwire : (wire [c]).length = c.size := by
        rw [wire_cons, List.length_append, Cmd.frame_length]
        rfl
      rw [ioLooper_holds (holds_single hframed hchunk) (by omega) (by omega) (by simp)]
      have hall : (serve r.env r.mem sock [c] 0 0 opts srv).1 = [c] :=
        serve_eq_iff.mpr fun hne => absurd rfl hne
      have hup := serve_upToDie cs hall
      rw [List.singleton_append] at hup
      dsimp only
      rw [hall, hup, ih (fun d hd => hsize d (List.mem_cons_of_mem _ hd)) hown]
      split
      · rfl
      · rfl

end Nastd.Server
