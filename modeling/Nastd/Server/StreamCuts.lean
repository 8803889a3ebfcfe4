import Nastd.Server.Stream

/-!
# Requests in pieces

A stream socket may deliver the requests in any pieces. `io_looper` keeps nothing from one
`recv` to the next, and `process_cmd` gives up a chunk when a handler returns -1. So a request
is lost when its chunk does not begin with one, and when another before it in its chunk is
answered with -1; one that is cut is completed with what lies in memory behind the buffer,
which is right only if a final NUL is missing.

* `clean_dispatches`: in `Clean` reads all requests are dispatched, up to the first DIE.
* `clean_of_same`: no other reads dispatch the same, as long as only the mark of a request
  looks like one.
-/

namespace Nastd.Server

open Nastd.Lib

/-- Whatever was in memory, the requests that are dispatched are those that are when each
request comes alone. -/
def SameStream (sock : Nat) (cs : List Cmd) (arrivals : List Arrival) (opts : NastOptions)
    (srv : Shared) : Prop :=
  ∀ reads own : List Read, reads.map Read.toArrival = arrivals →
    own.map (fun r => r.chunk) = cs.map Cmd.frame →
    ∃ ds, Dispatches sock reads opts srv ds ∧ Dispatches sock own opts srv ds

/-- Reads that keep every request. -/
inductive Clean (sock : Nat) : List Cmd → List Read → NastOptions → Shared → Prop where
  | done {opts : NastOptions} {srv : Shared} : Clean sock [] [] opts srv
  /-- Whole requests, of which all but the last go on. -/
  | whole {g cs : List Cmd} {r : Read} {reads : List Read} {opts : NastOptions} {srv : Shared} :
      g ≠ [] → r.chunk = wire g → r.chunk.length < 1024 →
      Follows r.env r.mem sock g 0 0 opts srv →
      Clean sock cs reads (serve r.env r.mem sock g 0 0 opts srv).2.2.1
        (serve r.env r.mem sock g 0 0 opts srv).2.2.2 →
      Clean sock (g ++ cs) (r :: reads) opts srv
  /-- A NUL is missing at the end, and comes alone. -/
  | nul {g cs : List Cmd} {r r' : Read} {reads : List Read} {opts : NastOptions} {srv : Shared} :
      r.chunk ++ [0] = wire g → 6 ≤ r.chunk.length → r.chunk.length < 1024 →
      Follows r.env r.mem sock g 0 0 opts srv → r'.chunk = [0] →
      Clean sock cs reads (serve r.env r.mem sock g 0 0 opts srv).2.2.1
        (serve r.env r.mem sock g 0 0 opts srv).2.2.2 →
      Clean sock (g ++ cs) (r :: r' :: reads) opts srv
  /-- Behind a DIE anything may come. -/
  | die {g cs : List Cmd} {d : Cmd} {r : Read} {reads : List Read} {opts : NastOptions}
      {srv : Shared} :
      d.cmd = NASTDIE → wire (g ++ [d]) <+: r.chunk ++ [0] → 6 ≤ r.chunk.length →
      r.chunk.length < 1024 → Follows r.env r.mem sock (g ++ [d]) 0 0 opts srv →
      Clean sock (g ++ d :: cs) (r :: reads) opts srv

/-! ## Clean reads -/

/-- A chunk whose bytes, with the NUL behind them, begin with these requests. -/
theorem holds_of_prefix {r : Read} {g : List Cmd} (hframed : ∀ c ∈ g, c.Framed)
    (hpre : wire g <+: r.chunk ++ [0]) (hlong : 6 ≤ r.chunk.length) : r.Holds g := by
  obtain ⟨rest, hrest⟩ := hpre
  have hlen := congrArg List.length hrest
  rw [List.length_append, List.length_append, List.length_singleton] at hlen
  refine ⟨hframed, ?_, hlong, by omega⟩
  unfold Read.mem
  rw [← hrest]
  exact (at_append (bufMem_at (wire g ++ rest) r.around)).1

/-- Requests are not short. -/
theorem length_wire (g : List Cmd) : 6 * g.length ≤ (wire g).length := by
  induction g with
  | nil => exact Nat.zero_le _
  | cons c g ih =>
    have hsize : c.size = 6 + c.args.length := rfl
    rw [wire_cons, List.length_append, Cmd.frame_length, List.length_cons]
    omega

/-- Clean reads dispatch all requests, up to the first DIE. -/
theorem clean_dispatches {sock : Nat} {cs : List Cmd} {reads : List Read} {opts : NastOptions}
    {srv : Shared} (h : Clean sock cs reads opts srv) (hframed : ∀ c ∈ cs, c.Framed) :
    ∀ {fuel : Nat}, cs.length ≤ fuel →
      ioLooper sock fuel reads opts srv = some (upToDie cs) := by
  induction h with
  | done => exact fun _ => rfl
  | @whole g cs r reads opts srv hne hchunk hshort hfol _ ih =>
    intro fuel hfuel
    rw [List.length_append] at hfuel
    have hpos := List.length_pos_of_ne_nil hne
    have hlong := length_wire g
    rw [← hchunk] at hlong
    have hholds : r.Holds g := holds_of_prefix
      (fun c hc => hframed c (List.mem_append_left _ hc)) ⟨[0], by rw [hchunk]⟩ (by omega)
    have hall := serve_eq_iff.mpr hfol
    rw [ioLooper_holds hholds (by rw [hchunk]) hshort (by omega), serve_upToDie cs hall]
    dsimp only
    rw [hall, ih (fun c hc => hframed c (List.mem_append_right _ hc)) (by omega)]
    split
    · rfl
    · rfl
  | @nul g cs r r' reads opts srv hchunk hlong hshort hfol hnul _ ih =>
    intro fuel hfuel
    rw [List.length_append] at hfuel
    have hlen := congrArg List.length hchunk
    rw [List.length_append, List.length_singleton] at hlen
    have hholds : r.Holds g := holds_of_prefix
      (fun c hc => hframed c (List.mem_append_left _ hc)) ⟨[], by rw [hchunk, List.append_nil]⟩
      hlong
    have hall := serve_eq_iff.mpr hfol
    -- the NUL is too short for a command
    have hlone : r'.chunk.length < 6 := by
      rw [hnul]
      decide
    rw [ioLooper_holds hholds (by omega) hshort (by omega), serve_upToDie cs hall]
    dsimp only
    rw [hall, ioLooper_short hlone,
      ih (fun c hc => hframed c (List.mem_append_right _ hc)) (by omega)]
    split
    · rfl
    · rfl
  | @die g cs d r reads opts srv hdie hpre hlong hshort hfol =>
    intro fuel hfuel
    rw [List.append_cons] at hframed hfuel ⊢
    rw [List.length_append] at hfuel
    have hholds := holds_of_prefix (fun c hc => hframed c (List.mem_append_left _ hc)) hpre hlong
    have hall := serve_eq_iff.mpr hfol
    have hrc : (serve r.env r.mem sock (g ++ [d]) 0 0 opts srv).2.1.rc = 1 := by
      rw [serve_die, hall]
      exact ⟨d, List.mem_append_right _ (List.mem_singleton_self d), hdie⟩
    obtain ⟨k, rfl⟩ := Nat.exists_eq_add_of_le (by omega : (g ++ [d]).length ≤ fuel)
    rw [ioLooper, if_neg (by omega), dispatchCmd_holds hholds, serve_upToDie cs hall, if_pos hrc]
    dsimp only
    rw [if_pos (Or.inr hrc), Option.bind_some, if_pos hrc, hall]

/-! ## What is left of a stream -/

/-- Only the fifth byte of the request looks like the mark. -/
def Cmd.MarkedOnce (c : Cmd) : Prop :=
  ∀ j (h : j < c.frame.length), c.frame[j] = NASTCMD → j = 4

/-- A request can be told from everything else in the stream, and nothing is behind a DIE. -/
structure Telling (cs : List Cmd) : Prop where
  marked : ∀ c ∈ cs, c.MarkedOnce
  last : ∀ (g : List Cmd) (c : Cmd) (h : List Cmd), cs = g ++ c :: h → c.cmd = NASTDIE → h = []

theorem upToDie_telling {cs : List Cmd} (h : Telling cs) : upToDie cs = cs := by
  obtain ⟨-, hlast⟩ := h
  induction cs with
  | nil => rfl
  | cons c cs ih =>
    rw [upToDie]
    split
    next hdie => rw [hlast [] c cs rfl hdie]
    next =>
      rw [ih fun g d h hcs => hlast (c :: g) d h (by rw [hcs, List.cons_append])]

/-- The end of a request whose first byte is gone. -/
def Tail (b : Bytes) : Prop :=
  b ≠ [] → ∃ (c : Cmd) (j : Nat), c.MarkedOnce ∧ 1 ≤ j ∧ b = c.frame.drop j

theorem tail_nil : Tail [] := fun hne => absurd rfl hne

/-- Memory does not look like a request. -/
def Read.Quiet (r : Read) : Prop := ∀ p, r.around p ≠ NASTCMD

theorem Read.mem_behind {r : Read} (hq : r.Quiet) {p : Int} (hp : r.chunk.length ≤ p) :
    r.mem p ≠ NASTCMD := by
  by_cases hnul : p = (r.chunk.length : Int)
  · have hget := bufMem_at (r.chunk ++ [0]) r.around r.chunk.length (by simp)
    rw [Int.zero_add, List.getElem_append_right (Nat.le_refl _)] at hget
    rw [hnul, Read.mem, hget]
    simp [NASTCMD]
  · unfold Read.mem bufMem
    rw [if_neg (by rw [List.length_append, List.length_singleton]; omega)]
    exact hq p

/-- Nothing is dispatched where no mark is. -/
theorem dispatchLoop_unmarked {env : Nat → Shared → Shared} {mem : Int → Byte} {sock : Nat}
    {bufflen p : Int} (hmark : mem (p + 4) ≠ NASTCMD) {fuel i : Nat} {opts : NastOptions}
    {srv : Shared} {x : List Cmd × Outcome × NastOptions × Shared}
    (h : dispatchLoop env mem sock bufflen fuel p i opts srv = some x) :
    x.1 = [] ∧ x.2.1.rc ≠ 1 := by
  have hzero : (0 : Int) ≠ 1 := by decide
  have hone : (-1 : Int) ≠ 1 := by decide
  cases fuel with
  | zero =>
    rw [dispatchLoop] at h
    split at h
    next => exact absurd h (by simp)
    next =>
      obtain rfl := Option.some.inj h
      exact ⟨rfl, hzero⟩
  | succ fuel =>
    rw [dispatchLoop] at h
    dsimp only at h
    rw [if_pos hmark] at h
    split at h
    next =>
      obtain rfl := Option.some.inj h
      exact ⟨rfl, hone⟩
    next =>
      obtain rfl := Option.some.inj h
      exact ⟨rfl, hzero⟩

/-- Of a request that is cut, at most one is dispatched; itself only if memory holds the rest. -/
theorem dispatchLoop_cut {env : Nat → Shared → Shared} {mem : Int → Byte} {sock : Nat}
    {bufflen p : Int} {c : Cmd} {a b : Bytes} (hc : c.Framed) (hcut : c.frame = a ++ b)
    (hat : At mem p a) (hend : bufflen = p + a.length)
    (hquiet : ∀ q, bufflen ≤ q → mem q ≠ NASTCMD) {fuel i : Nat} {opts : NastOptions}
    {srv : Shared} {x : List Cmd × Outcome × NastOptions × Shared}
    (h : dispatchLoop env mem sock bufflen fuel p i opts srv = some x) :
    x.1 = [] ∨ ∃ d, x.1 = [d] ∧ 5 ≤ a.length ∧ (d = c → At mem p c.frame) := by
  by_cases hmark : mem (p + 4) = NASTCMD
  · -- the mark came with the chunk, so the length and the id are the request's own
    have hfive : 5 ≤ a.length := by
      by_contra hlt
      exact hquiet (p + 4) (by omega) hmark
    have hhead : At mem p c.head := by
      rcases List.append_eq_append_iff.mp (hcut.symm.trans c.frame_eq) with
        ⟨a', ha', -⟩ | ⟨a', ha', -⟩
      · have hnil : a' = [] := by
          have hlen := congrArg List.length ha'
          rw [Cmd.head_length, List.length_append] at hlen
          exact List.length_eq_zero_iff.mp (by omega)
        rw [ha', hnil, List.append_nil]
        exact hat
      · rw [ha'] at hat
        exact (at_append hat).1
    obtain ⟨hlen, hid, -⟩ := Cmd.read_head hhead hc
    have hlong : a.length ≤ c.size := by
      rw [← Cmd.frame_length, hcut, List.length_append]
      omega
    cases fuel with
    | zero =>
      rw [dispatchLoop, if_pos (by omega)] at h
      exact absurd h (by simp)
    | succ fuel =>
      rw [dispatchLoop, if_pos (by omega)] at h
      dsimp only at h
      rw [hlen, hid, if_neg fun hne => hne hmark] at h
      split at h
      next => exact absurd h (by simp)
      next =>
        have hread : ∀ d : Cmd, d = ⟨c.reqid, mem (p + 5),
            (List.range ((c.size : Int) - 6).toNat).map fun j : Nat => mem (p + 6 + j)⟩ →
            d = c → At mem p c.frame := by
          rintro d rfl hd
          exact Cmd.at_of_read hhead (congrArg Cmd.cmd hd) (congrArg Cmd.args hd)
        split at h
        next =>
          obtain rfl := Option.some.inj h
          exact Or.inr ⟨_, rfl, hfive, hread _ rfl⟩
        next =>
          rw [dispatchLoop_end (by omega)] at h
          obtain rfl := Option.some.inj h
          exact Or.inr ⟨_, rfl, hfive, hread _ rfl⟩
  · exact Or.inl (dispatchLoop_unmarked hmark h).1

theorem ioLooper_cons_some {sock fuel : Nat} {r : Read} {reads : List Read} {opts : NastOptions}
    {srv : Shared} {ds : List Cmd} (h : ioLooper sock fuel (r :: reads) opts srv = some ds) :
    r.chunk.length < 1024 ∧ ∃ x,
      dispatchCmd r.env r.mem sock r.chunk.length fuel opts srv = some x ∧
      (x.2.1.rc = 1 ∧ ds = x.1 ∨
        x.2.1.rc ≠ 1 ∧ ∃ ds', ioLooper sock fuel reads x.2.2.1 x.2.2.2 = some ds' ∧
          ds = x.1 ++ ds') := by
  rw [ioLooper] at h
  split at h
  next => exact absurd h (by simp)
  next hshort =>
    obtain ⟨x, hx, h⟩ := Option.bind_eq_some_iff.mp h
    refine ⟨by omega, x, hx, ?_⟩
    split at h
    next hrc => exact Or.inl ⟨hrc, (Option.some.inj h).symm⟩
    next hrc =>
      obtain ⟨ds', hds', rfl⟩ := Option.map_eq_some_iff.mp h
      exact Or.inr ⟨hrc, ds', hds', rfl⟩

/-- A chunk that begins with a request: what is served of the whole ones, and of the cut one
what `dispatchLoop_cut` allows. -/
theorem dispatchCmd_cut {r : Read} {g : List Cmd} {c : Cmd} {a b : Bytes}
    (hframed : ∀ d ∈ g, d.Framed) (hc : c.Framed) (hchunk : r.chunk = wire g ++ a)
    (hcut : c.frame = a ++ b) (hq : r.Quiet) {sock fuel : Nat} {opts : NastOptions} {srv : Shared}
    {x : List Cmd × Outcome × NastOptions × Shared}
    (h : dispatchCmd r.env r.mem sock r.chunk.length fuel opts srv = some x) :
    ∃ e, x.1 = (serve r.env r.mem sock g 0 0 opts srv).1 ++ e ∧
      (e = [] ∨ ∃ d, e = [d] ∧ 5 ≤ a.length ∧ 6 ≤ r.chunk.length ∧
        (d = c → At r.mem (wire g).length c.frame)) := by
  have hlen : r.chunk.length = (wire g).length + a.length := by
    rw [hchunk, List.length_append]
  have hwire := length_wire g
  by_cases hlong : 6 ≤ r.chunk.length
  · have hholds : r.Holds g := holds_of_prefix hframed
      ⟨a ++ [0], by rw [hchunk, List.append_assoc]⟩ hlong
    have hmono := dispatchCmd_mono g.length h
    rw [Nat.add_comm, dispatchCmd_holds hholds] at hmono
    dsimp only at hmono
    split at hmono
    next =>
      obtain rfl := Option.some.inj hmono
      exact ⟨[], (List.append_nil _).symm, Or.inl rfl⟩
    next =>
      obtain ⟨y, hy, rfl⟩ := Option.map_eq_some_iff.mp hmono
      have hat : At r.mem (wire g).length a := by
        have hall := bufMem_at (r.chunk ++ [0]) r.around
        rw [hchunk, List.append_assoc] at hall
        have hpart := (at_append (at_append hall).2).1
        rw [Int.zero_add, ← List.append_assoc, ← hchunk] at hpart
        exact hpart
      refine ⟨y.1, rfl, ?_⟩
      rcases dispatchLoop_cut hc hcut hat (by omega) (fun q hq' => r.mem_behind hq hq') hy with
        hnil | ⟨d, hd, hfive, hmem⟩
      · exact Or.inl hnil
      · exact Or.inr ⟨d, hd, hfive, hlong, hmem⟩
  · -- too short for a command, and so without whole ones
    obtain rfl : g = [] := List.length_eq_zero_iff.mp (by omega)
    unfold dispatchCmd at h
    rw [if_pos (by omega)] at h
    obtain rfl := Option.some.inj h
    exact ⟨[], rfl, Or.inl rfl⟩

/-- A chunk of whole requests. -/
theorem dispatchCmd_whole {r : Read} {g : List Cmd} (hframed : ∀ d ∈ g, d.Framed)
    (hchunk : r.chunk = wire g) (hq : r.Quiet) {sock fuel : Nat} {opts : NastOptions}
    {srv : Shared} {x : List Cmd × Outcome × NastOptions × Shared}
    (h : dispatchCmd r.env r.mem sock r.chunk.length fuel opts srv = some x) :
    x.1 = (serve r.env r.mem sock g 0 0 opts srv).1 := by
  have hnop : (⟨0, 0, []⟩ : Cmd).Framed := by
    unfold Cmd.Framed
    decide
  obtain ⟨e, hx, rfl | ⟨d, -, hfive, -⟩⟩ := dispatchCmd_cut (a := []) hframed hnop
    (hchunk.trans (List.append_nil _).symm) rfl hq h
  · rw [hx, List.append_nil]
  · exact absurd hfive (by simp)

/-- Where a chunk begins inside a request there is no mark. -/
theorem Tail.unmarked {r : Read} {b rest : Bytes} {cs : List Cmd} (hb : b ≠ []) (ht : Tail b)
    (hmarked : ∀ c ∈ cs, c.MarkedOnce) (hq : r.Quiet)
    (hstream : r.chunk ++ rest = b ++ wire cs) : r.mem 4 ≠ NASTCMD := by
  obtain ⟨c, j, hc, hj, rfl⟩ := ht hb
  by_cases hfour : 4 < r.chunk.length
  · have hmem := bufMem_at (r.chunk ++ [0]) r.around 4 (by rw [List.length_append]; omega)
    rw [List.getElem_append_left hfour] at hmem
    have hstr : (r.chunk ++ rest)[4]? = (c.frame.drop j ++ wire cs)[4]? := by rw [hstream]
    rw [List.getElem?_append_left hfour, List.getElem?_eq_getElem hfour] at hstr
    show bufMem (r.chunk ++ [0]) r.around (0 + (4 : Nat)) ≠ NASTCMD
    rw [hmem]
    intro hmark
    rw [hmark] at hstr
    by_cases hin : 4 < (c.frame.drop j).length
    · rw [List.getElem?_append_left hin, List.getElem?_eq_getElem hin,
        List.getElem_drop] at hstr
      have hat4 := hc _ _ (Option.some.inj hstr).symm
      omega
    · -- in the next request, but before its mark
      have hpos := List.length_pos_of_ne_nil hb
      rw [List.getElem?_append_right (by omega)] at hstr
      cases cs with
      | nil => exact absurd hstr (by simp [wire])
      | cons d cs =>
        have hsize : d.size = 6 + d.args.length := rfl
        have hlt : 4 - (c.frame.drop j).length < d.frame.length := by
          rw [Cmd.frame_length]
          omega
        rw [wire_cons, List.getElem?_append_left hlt, List.getElem?_eq_getElem hlt] at hstr
        have hat4 := hmarked d List.mem_cons_self _ _ (Option.some.inj hstr).symm
        omega
  · exact r.mem_behind hq (by omega)

/-- In such a chunk nothing is dispatched. -/
theorem dispatchCmd_tail {r : Read} (hmark : r.mem 4 ≠ NASTCMD) {sock fuel : Nat}
    {opts : NastOptions} {srv : Shared} {x : List Cmd × Outcome × NastOptions × Shared}
    (h : dispatchCmd r.env r.mem sock r.chunk.length fuel opts srv = some x) :
    x.1 = [] ∧ x.2.1.rc ≠ 1 := by
  unfold dispatchCmd at h
  split at h
  next =>
    obtain rfl := Option.some.inj h
    have hrc : (Outcome.idle (-1)).rc ≠ 1 := by decide
    exact ⟨rfl, hrc⟩
  next => exact dispatchLoop_unmarked hmark h

theorem flatten_frames (cs : List Cmd) : (cs.map Cmd.frame).flatten = wire cs :=
  (List.flatMap_def ..).symm

theorem cut_requests {x rest : Bytes} {cs : List Cmd} (h : x ++ rest = wire cs) :
    (∃ g t, cs = g ++ t ∧ x = wire g ∧ rest = wire t) ∨
      ∃ g c t a b, cs = g ++ c :: t ∧ c.frame = a ++ b ∧ a ≠ [] ∧ b ≠ [] ∧
        x = wire g ++ a ∧ rest = b ++ wire t := by
  rw [← flatten_frames] at h
  rcases flatten_cut h with ⟨g', t', hcs, hx, hrest⟩
    | ⟨g', f, t', a, b, hcs, hf, ha, hb, hx, hrest⟩
  · obtain ⟨g, t, rfl, rfl, rfl⟩ := List.map_eq_append_iff.mp hcs
    exact Or.inl ⟨g, t, rfl, hx.trans (flatten_frames g), hrest.trans (flatten_frames t)⟩
  · obtain ⟨g, u, rfl, rfl, hu⟩ := List.map_eq_append_iff.mp hcs
    obtain ⟨c, t, rfl, rfl, rfl⟩ := List.map_eq_cons_iff.mp hu
    rw [flatten_frames] at hx hrest
    exact Or.inr ⟨g, c, t, a, b, rfl, hf, ha, hb, hx, hrest⟩

theorem tail_cut {c : Cmd} {a b : Bytes} (hc : c.MarkedOnce) (hcut : c.frame = a ++ b)
    (ha : a ≠ []) : Tail b := by
  intro _
  refine ⟨c, a.length, hc, List.length_pos_of_ne_nil ha, ?_⟩
  rw [hcut, List.drop_left]

/-- The requests whose start is still to come bound what is dispatched. -/
theorem ioLooper_count {sock fuel : Nat} :
    ∀ {reads : List Read} {b : Bytes} {cs : List Cmd} {opts : NastOptions} {srv : Shared}
      {ds : List Cmd}, (∀ r ∈ reads, r.Quiet) → (∀ c ∈ cs, c.Framed ∧ c.MarkedOnce) → Tail b →
      (reads.map fun r => r.chunk).flatten = b ++ wire cs →
      ioLooper sock fuel reads opts srv = some ds → ds.length ≤ cs.length := by
  intro reads
  induction reads with
  | nil =>
    intro b cs opts srv ds _ _ _ _ h
    obtain rfl := Option.some.inj h
    exact Nat.zero_le _
  | cons r reads ih =>
    intro b cs opts srv ds hquiet hcs htail hstream h
    rw [List.map_cons, List.flatten_cons] at hstream
    have hq := hquiet r List.mem_cons_self
    have hquiet' : ∀ x ∈ reads, x.Quiet := fun x hx => hquiet x (List.mem_cons_of_mem _ hx)
    obtain ⟨-, x, hx, hds⟩ := ioLooper_cons_some h
    -- what this chunk and the later ones dispatch
    have hsum : ∀ {k m : Nat}, x.1.length ≤ k → k + m ≤ cs.length →
        (∀ ds', ioLooper sock fuel reads x.2.2.1 x.2.2.2 = some ds' → ds'.length ≤ m) →
        ds.length ≤ cs.length := by
      intro k m hk hm hlater
      rcases hds with ⟨-, rfl⟩ | ⟨-, ds', hds', rfl⟩
      · omega
      · have hle := hlater ds' hds'
        rw [List.length_append]
        omega
    by_cases hb : b = []
    · rw [hb, List.nil_append] at hstream
      rcases cut_requests hstream with ⟨g, t, rfl, hchunk, hrest⟩
        | ⟨g, c, t, a, b', rfl, hcut, ha, -, hchunk, hrest⟩
      · have hxs := dispatchCmd_whole (fun d hd => (hcs d (List.mem_append_left _ hd)).1) hchunk
          hq hx
        have hle : (serve r.env r.mem sock g 0 0 opts srv).1.length ≤ g.length :=
          (serve_begins g 0 0 opts srv).length_le
        refine hsum (k := g.length) (m := t.length) ?_ (by rw [List.length_append]) ?_
        · rw [hxs]
          exact hle
        · intro ds' hds'
          exact ih hquiet' (fun c hc => hcs c (List.mem_append_right _ hc)) tail_nil
            (hrest.trans (List.nil_append _).symm) hds'
      · have hc := hcs c (List.mem_append_right _ List.mem_cons_self)
        obtain ⟨e, hxe, he⟩ := dispatchCmd_cut
          (fun d hd => (hcs d (List.mem_append_left _ hd)).1) hc.1 hchunk hcut hq hx
        have hone : e.length ≤ 1 := by
          rcases he with rfl | ⟨d, rfl, -⟩
          · exact Nat.zero_le _
          · exact Nat.le_refl _
        have hle : (serve r.env r.mem sock g 0 0 opts srv).1.length ≤ g.length :=
          (serve_begins g 0 0 opts srv).length_le
        refine hsum (k := g.length + 1) (m := t.length) ?_ ?_ ?_
        · rw [hxe, List.length_append]
          omega
        · rw [List.length_append, List.length_cons]
          omega
        · intro ds' hds'
          exact ih hquiet'
            (fun d hd => hcs d (List.mem_append_right _ (List.mem_cons_of_mem _ hd)))
            (tail_cut hc.2 hcut ha) hrest hds'
    · obtain ⟨hnil, -⟩ := dispatchCmd_tail
        (htail.unmarked hb (fun c hc => (hcs c hc).2) hq hstream) hx
      have hzero : x.1.length ≤ 0 := by
        rw [hnil]
        exact Nat.le_refl 0
      obtain ⟨c₀, j, hc₀, hj, rfl⟩ := htail hb
      rcases List.append_eq_append_iff.mp hstream with ⟨b', hb', hrest⟩ | ⟨y, -, hy⟩
      · -- the chunk ends in the same request
        refine hsum (m := cs.length) hzero (by omega) fun ds' hds' => ?_
        refine ih hquiet' hcs (fun _ => ⟨c₀, j + r.chunk.length, hc₀, by omega, ?_⟩) hrest hds'
        rw [← List.drop_drop, hb', List.drop_left]
      · rcases cut_requests hy.symm with ⟨g, t, rfl, -, hrest⟩
          | ⟨g, c, t, a, b', rfl, hcut, ha, -, -, hrest⟩
        · refine hsum (m := t.length) hzero (by rw [List.length_append]; omega) fun ds' hds' => ?_
          exact ih hquiet' (fun c hc => hcs c (List.mem_append_right _ hc)) tail_nil
            (hrest.trans (List.nil_append _).symm) hds'
        · have hc := hcs c (List.mem_append_right _ List.mem_cons_self)
          refine hsum (m := t.length) hzero
            (by rw [List.length_append, List.length_cons]; omega) fun ds' hds' => ?_
          exact ih hquiet'
            (fun d hd => hcs d (List.mem_append_right _ (List.mem_cons_of_mem _ hd)))
            (tail_cut hc.2 hcut ha) hrest hds'

/-! ## What has to be so -/

theorem ioLooper_mono {sock : Nat} (k : Nat) :
    ∀ {reads : List Read} {fuel : Nat} {opts : NastOptions} {srv : Shared} {ds : List Cmd},
      ioLooper sock fuel reads opts srv = some ds →
      ioLooper sock (fuel + k) reads opts srv = some ds := by
  intro reads
  induction reads with
  | nil => exact fun h => h
  | cons r reads ih =>
    intro fuel opts srv ds h
    obtain ⟨hshort, x, hx, hds⟩ := ioLooper_cons_some h
    rw [ioLooper, if_neg (by omega), dispatchCmd_mono k hx, Option.bind_some]
    rcases hds with ⟨hrc, rfl⟩ | ⟨hrc, ds', hds', rfl⟩
    · rw [if_pos hrc]
    · rw [if_neg hrc, ih hds']
      rfl

/-- A read with the same byte everywhere around its buffer. -/
def Arrival.read (v : Byte) (x : Arrival) : Read := ⟨x, fun _ => v⟩

theorem map_read (v : Byte) (arrivals : List Arrival) :
    (arrivals.map (Arrival.read v)).map Read.toArrival = arrivals := by
  rw [List.map_map]
  exact List.map_id arrivals

theorem read_quiet (arrivals : List Arrival) : ∀ r ∈ arrivals.map (Arrival.read 1), r.Quiet := by
  intro r hr p
  obtain ⟨x, -, rfl⟩ := List.mem_map.mp hr
  show (1 : Byte) ≠ NASTCMD
  decide

theorem chunks_of_arrivals {reads : List Read} {arrivals : List Arrival}
    (h : reads.map Read.toArrival = arrivals) :
    reads.map (fun r => r.chunk) = arrivals.map Arrival.chunk := by
  rw [← h, List.map_map]
  rfl

section Kept

variable {sock : Nat} {opts : NastOptions} {srv : Shared}

/-- If the requests of a chunk and those behind it are dispatched, and the later chunks cannot
dispatch more than the latter, then all of the chunk's are served. -/
theorem served_of_dispatched {r : Read} {g t : List Cmd} (h : r.Holds g)
    (hover : r.chunk.length ≤ (wire g).length) {reads : List Read} {b : Bytes} (htail : Tail b)
    (hquiet : ∀ x ∈ reads, x.Quiet) (ht : ∀ c ∈ t, c.Framed ∧ c.MarkedOnce)
    (hstream : (reads.map fun x => x.chunk).flatten = b ++ wire t)
    (hds : Dispatches sock (r :: reads) opts srv (g ++ t)) :
    (serve r.env r.mem sock g 0 0 opts srv).1 = g := by
  obtain ⟨fuel, hfuel⟩ := hds
  obtain ⟨hshort, -⟩ := ioLooper_cons_some hfuel
  have hmono := ioLooper_mono g.length hfuel
  rw [ioLooper_holds h hover hshort (by omega)] at hmono
  have hpre : (serve r.env r.mem sock g 0 0 opts srv).1 <+: g := serve_begins g 0 0 opts srv
  dsimp only at hmono
  apply hpre.eq_of_length_le
  split at hmono
  next =>
    have hlen := congrArg List.length (Option.some.inj hmono)
    rw [List.length_append] at hlen
    omega
  next =>
    obtain ⟨ds', hds', hall⟩ := Option.map_eq_some_iff.mp hmono
    have hle := ioLooper_count hquiet ht htail hstream hds'
    have hlen := congrArg List.length hall
    rw [List.length_append, List.length_append] at hlen
    omega

/-- And those behind it are dispatched by the later chunks. -/
theorem dispatched_rest {r : Read} {g t : List Cmd} (h : r.Holds g)
    (hover : r.chunk.length ≤ (wire g).length)
    (hall : (serve r.env r.mem sock g 0 0 opts srv).1 = g) (hdie : ¬ ∃ c ∈ g, c.cmd = NASTDIE)
    {reads : List Read} (hds : Dispatches sock (r :: reads) opts srv (g ++ t)) :
    Dispatches sock reads (serve r.env r.mem sock g 0 0 opts srv).2.2.1
      (serve r.env r.mem sock g 0 0 opts srv).2.2.2 t := by
  obtain ⟨fuel, hfuel⟩ := hds
  obtain ⟨hshort, -⟩ := ioLooper_cons_some hfuel
  have hmono := ioLooper_mono g.length hfuel
  have hrc : ¬ (serve r.env r.mem sock g 0 0 opts srv).2.1.rc = 1 := by
    rw [serve_die, hall]
    exact hdie
  rw [ioLooper_holds h hover hshort (by omega)] at hmono
  dsimp only at hmono
  rw [if_neg hrc, hall] at hmono
  obtain ⟨ds', hds', happ⟩ := Option.map_eq_some_iff.mp hmono
  exact ⟨_, List.append_cancel_left happ ▸ hds'⟩

/-- If a request that is cut is dispatched as itself, memory holds the rest of it. -/
theorem cut_in_mem {x : Arrival} {v : Byte} (hv : v ≠ NASTCMD) {g t : List Cmd} {c : Cmd}
    {a b : Bytes} (hg : ∀ d ∈ g, d.Framed) (hc : c.Framed ∧ c.MarkedOnce)
    (ht : ∀ d ∈ t, d.Framed ∧ d.MarkedOnce) (hcut : c.frame = a ++ b) (ha : a ≠ [])
    (hchunk : x.chunk = wire g ++ a) {reads : List Read} (hquiet : ∀ r ∈ reads, r.Quiet)
    (hstream : (reads.map fun r => r.chunk).flatten = b ++ wire t)
    (hds : Dispatches sock (x.read v :: reads) opts srv (g ++ c :: t)) :
    6 ≤ x.chunk.length ∧ x.chunk.length < 1024 ∧ At (x.read v).mem (wire g).length c.frame := by
  obtain ⟨fuel, hfuel⟩ := hds
  obtain ⟨hshort, y, hy, hds⟩ := ioLooper_cons_some hfuel
  have hq : (x.read v).Quiet := fun _ => hv
  obtain ⟨e, hye, he⟩ := dispatchCmd_cut hg hc.1 hchunk hcut hq hy
  have hpre : (serve x.env (x.read v).mem sock g 0 0 opts srv).1 <+: g :=
    serve_begins g 0 0 opts srv
  have hle := hpre.length_le
  -- one for each request, so the cut one was dispatched too
  have hmore : ∃ ds', g ++ c :: t = y.1 ++ ds' ∧ ds'.length ≤ t.length := by
    rcases hds with ⟨-, hall⟩ | ⟨-, ds', hds', hall⟩
    · exact ⟨[], by rw [hall, List.append_nil], Nat.zero_le _⟩
    · exact ⟨ds', hall, ioLooper_count hquiet ht (tail_cut hc.2 hcut ha) hstream hds'⟩
  obtain ⟨ds', hall, hless⟩ := hmore
  have hlen := congrArg List.length hall
  rw [hye] at hall
  rw [hye, List.length_append, List.length_append, List.length_append, List.length_cons] at hlen
  rcases he with rfl | ⟨d, rfl, -, hlong, hmem⟩
  · rw [List.length_nil] at hlen
    exact absurd hlen (by
      have hle' : (serve (x.read v).env (x.read v).mem sock g 0 0 opts srv).1.length
        ≤ g.length := hle
      omega)
  · refine ⟨hlong, hshort, hmem ?_⟩
    have hserved : (serve (x.read v).env (x.read v).mem sock g 0 0 opts srv).1 = g :=
      hpre.eq_of_length_le (by
        rw [List.length_singleton] at hlen
        have hsame : (serve (x.read v).env (x.read v).mem sock g 0 0 opts srv).1.length
          = (serve x.env (x.read v).mem sock g 0 0 opts srv).1.length := rfl
        omega)
    rw [hserved, List.append_assoc] at hall
    exact (List.cons.inj (List.append_cancel_left hall)).1.symm

end Kept

/-- Memory that holds the rest of a request, whatever it holds: the rest is the NUL. -/
theorem rest_nul {x : Arrival} {c : Cmd} {g : List Cmd} {a b : Bytes} (hcut : c.frame = a ++ b)
    (hb : b ≠ []) (hchunk : x.chunk = wire g ++ a)
    (h : ∀ v : Byte, v ≠ NASTCMD → At (x.read v).mem (wire g).length c.frame) : b = [0] := by
  have hlen : x.chunk.length = (wire g).length + a.length := by
    rw [hchunk, List.length_append]
  have hrest : ∀ v : Byte, v ≠ NASTCMD → At (x.read v).mem x.chunk.length b := by
    intro v hv
    have hat := h v hv
    rw [hcut] at hat
    have hpos : ((wire g).length : Int) + a.length = x.chunk.length := by omega
    rw [← hpos]
    exact (at_append hat).2
  match b, hb with
  | [z], _ =>
    have hz := hrest 1 (by decide) 0 (by simp)
    have hnul := bufMem_at (x.chunk ++ [0]) (fun _ => 1) x.chunk.length (by simp)
    rw [Int.zero_add, List.getElem_append_right (Nat.le_refl _)] at hnul
    rw [Int.natCast_zero, Int.add_zero] at hz
    have hmem : (x.read 1).mem (x.chunk.length : Int) = 0 := by
      rw [Read.mem]
      exact hnul.trans (by simp)
    rw [hmem] at hz
    rw [List.getElem_cons_zero] at hz
    rw [← hz]
  | z :: z' :: b, _ =>
    -- the byte behind the NUL would have to be two different ones
    have hbehind : ∀ v : Byte, v ≠ NASTCMD → z' = v := by
      intro v hv
      have hz := hrest v hv 1 (by simp)
      rw [Read.mem, bufMem, if_neg (by
        show ¬ (0 ≤ (x.chunk.length : Int) + (1 : Nat) ∧
          (x.chunk.length : Int) + (1 : Nat) < ((x.chunk ++ [0]).length : Nat))
        rw [List.length_append, List.length_singleton]
        omega)] at hz
      exact hz.symm
    have h12 := (hbehind 1 (by decide)).symm.trans (hbehind 2 (by decide))
    exact absurd h12 (by decide)

theorem nil_of_wire {cs : List Cmd} (h : wire cs = []) : cs = [] := by
  have hlen := length_wire cs
  rw [h] at hlen
  exact List.length_eq_zero_iff.mp (Nat.le_zero.mp (Nat.le_trans (by omega) hlen))

theorem Telling.rest {g t : List Cmd} (h : Telling (g ++ t)) : Telling t :=
  ⟨fun c hc => h.marked c (List.mem_append_right _ hc),
    fun g' c t' ht hdie => h.last (g ++ g') c t' (by rw [ht, List.append_assoc]) hdie⟩

theorem Telling.no_die {g t : List Cmd} (h : Telling (g ++ t)) (ht : t ≠ []) :
    ¬ ∃ c ∈ g, c.cmd = NASTDIE := by
  intro ⟨c, hc, hdie⟩
  obtain ⟨g₁, g₂, rfl⟩ := List.append_of_mem hc
  have hnil := h.last g₁ c (g₂ ++ t) (by rw [List.append_assoc, List.cons_append]) hdie
  exact ht (List.append_eq_nil_iff.mp hnil).2

theorem dispatches_short {sock : Nat} {r : Read} (hr : r.chunk.length < 6) {reads : List Read}
    {opts : NastOptions} {srv : Shared} {ds : List Cmd} :
    Dispatches sock (r :: reads) opts srv ds ↔ Dispatches sock reads opts srv ds := by
  unfold Dispatches
  simp only [ioLooper_short hr]

/-- A chunk that begins inside a request and goes on behind its end loses the request there. -/
theorem not_dispatched_behind {sock : Nat} {r : Read} {reads : List Read} {y b : Bytes}
    {t : List Cmd} {opts : NastOptions} {srv : Shared} (hquiet : ∀ x ∈ r :: reads, x.Quiet)
    (ht : ∀ c ∈ t, c.Framed ∧ c.MarkedOnce) (hb : b ≠ []) (htail : Tail b) (hy : y ≠ [])
    (hchunk : r.chunk = b ++ y)
    (hstream : y ++ (reads.map fun x => x.chunk).flatten = wire t) :
    ¬ Dispatches sock (r :: reads) opts srv t := by
  intro ⟨fuel, hfuel⟩
  have hquiet' : ∀ x ∈ reads, x.Quiet := fun x hx => hquiet x (List.mem_cons_of_mem _ hx)
  have hall : r.chunk ++ (reads.map fun x => x.chunk).flatten = b ++ wire t := by
    rw [hchunk, List.append_assoc, hstream]
  obtain ⟨-, x, hx, hds⟩ := ioLooper_cons_some hfuel
  obtain ⟨hnil, hrc⟩ := dispatchCmd_tail
    (htail.unmarked hb (fun c hc => (ht c hc).2) (hquiet r List.mem_cons_self) hall) hx
  rcases hds with ⟨hone, -⟩ | ⟨-, ds', hds', happ⟩
  · exact hrc hone
  rw [hnil, List.nil_append] at happ
  rcases cut_requests hstream with ⟨g, u, rfl, hyg, hrest⟩
    | ⟨g, c, u, a, b', rfl, hcut, ha, -, -, hrest⟩
  · have hle := ioLooper_count hquiet' (fun c hc => ht c (List.mem_append_right _ hc)) tail_nil
      (hrest.trans (List.nil_append _).symm) hds'
    have hg : g ≠ [] := by
      rintro rfl
      exact hy hyg
    have hpos := List.length_pos_of_ne_nil hg
    rw [← happ, List.length_append] at hle
    omega
  · have hc := ht c (List.mem_append_right _ List.mem_cons_self)
    have hle := ioLooper_count hquiet'
      (fun d hd => ht d (List.mem_append_right _ (List.mem_cons_of_mem _ hd)))
      (tail_cut hc.2 hcut ha) hrest hds'
    rw [← happ, List.length_append, List.length_cons] at hle
    omega

/-- A NUL that a request was completed with in memory has to come alone. -/
theorem nul_alone {sock : Nat} {x : Arrival} {arrivals : List Arrival} {t : List Cmd}
    {opts : NastOptions} {srv : Shared} (ht : ∀ c ∈ t, c.Framed ∧ c.MarkedOnce)
    (htail : Tail [0]) (hstream : ((x :: arrivals).map Arrival.chunk).flatten = [0] ++ wire t)
    (hne : x.chunk ≠ [])
    (hall : ∀ reads, reads.map Read.toArrival = x :: arrivals →
      Dispatches sock reads opts srv t) :
    x.chunk = [0] ∧ (arrivals.map Arrival.chunk).flatten = wire t := by
  rw [List.map_cons, List.flatten_cons] at hstream
  rcases List.append_eq_cons_iff.mp hstream with ⟨hnil, -⟩ | ⟨y, hy, hstr⟩
  · exact absurd hnil hne
  by_cases hlone : y = []
  · rw [hlone] at hy hstr
    exact ⟨hy, hstr.symm⟩
  · have hquiet := read_quiet (x :: arrivals)
    have hmap := congrArg List.flatten (chunks_of_arrivals (map_read 1 arrivals))
    refine absurd (hall _ (map_read 1 (x :: arrivals)))
      (not_dispatched_behind hquiet ht (List.cons_ne_nil 0 []) htail hlone hy ?_)
    rw [hmap]
    exact hstr.symm

/-- A request that is dispatched although a chunk ends inside it lacks only a NUL. -/
theorem cut_lacks_nul {sock : Nat} {x : Arrival} {arrivals : List Arrival} {g t : List Cmd}
    {c : Cmd} {a b : Bytes} {opts : NastOptions} {srv : Shared} (hg : ∀ d ∈ g, d.Framed)
    (hc : c.Framed ∧ c.MarkedOnce) (ht : ∀ d ∈ t, d.Framed ∧ d.MarkedOnce)
    (hcut : c.frame = a ++ b) (ha : a ≠ []) (hb : b ≠ []) (hchunk : x.chunk = wire g ++ a)
    (hrest : (arrivals.map Arrival.chunk).flatten = b ++ wire t)
    (hall : ∀ reads, reads.map Read.toArrival = x :: arrivals →
      Dispatches sock reads opts srv (g ++ c :: t)) :
    b = [0] ∧ 6 ≤ x.chunk.length := by
  have hquietStream := congrArg List.flatten (chunks_of_arrivals (map_read 1 arrivals))
  have hmem : ∀ v : Byte, v ≠ NASTCMD → 6 ≤ x.chunk.length ∧ x.chunk.length < 1024 ∧
      At (x.read v).mem (wire g).length c.frame := by
    intro v hv
    refine cut_in_mem hv hg hc ht hcut ha hchunk (read_quiet arrivals)
      (hquietStream.trans hrest) (hall _ ?_)
    rw [List.map_cons, map_read]
    rfl
  exact ⟨rest_nul hcut hb hchunk fun v hv => (hmem v hv).2.2, (hmem 1 (by decide)).1⟩

section Whatever

variable {sock : Nat} {r : Read} {reads : List Read} {g t : List Cmd} {opts : NastOptions}
  {srv : Shared}

/-- A chunk of whole requests whose rest is clean. -/
theorem clean_of_whole (hsound : ∀ d ∈ g ++ t, d.Framed ∧ d.MarkedOnce)
    (hdie : t ≠ [] → ¬ ∃ d ∈ g, d.cmd = NASTDIE) (hchunk : r.chunk = wire g)
    (hrest : ((reads.map Read.toArrival).map Arrival.chunk).flatten = wire t)
    (hne : ∀ x ∈ (r :: reads).map Read.toArrival, x.chunk ≠ [])
    (hany : ∀ reads', reads'.map Read.toArrival = reads.map Read.toArrival →
      Dispatches sock (r :: reads') opts srv (g ++ t))
    (hbehind : (∀ reads', reads'.map Read.toArrival = reads.map Read.toArrival →
        Dispatches sock reads' (serve r.env r.mem sock g 0 0 opts srv).2.2.1
          (serve r.env r.mem sock g 0 0 opts srv).2.2.2 t) →
      Clean sock t reads (serve r.env r.mem sock g 0 0 opts srv).2.2.1
        (serve r.env r.mem sock g 0 0 opts srv).2.2.2) :
    Clean sock (g ++ t) (r :: reads) opts srv := by
  obtain ⟨_, hfuel⟩ := hany reads rfl
  obtain ⟨hshort, -⟩ := ioLooper_cons_some hfuel
  have hquiet := read_quiet (reads.map Read.toArrival)
  have hstream := congrArg List.flatten
    (chunks_of_arrivals (map_read 1 (reads.map Read.toArrival)))
  have hg : g ≠ [] := by
    intro hnil
    rw [hnil] at hchunk
    exact hne r.toArrival List.mem_cons_self hchunk
  have hlong : 6 ≤ r.chunk.length := by
    have hpos := List.length_pos_of_ne_nil hg
    have hlen := length_wire g
    rw [hchunk]
    omega
  have hholds : r.Holds g := holds_of_prefix
    (fun d hd => (hsound d (List.mem_append_left _ hd)).1) ⟨[0], by rw [hchunk]⟩ hlong
  have hover : r.chunk.length ≤ (wire g).length := by rw [hchunk]
  have hserved := served_of_dispatched hholds hover tail_nil hquiet
    (fun d hd => hsound d (List.mem_append_right _ hd))
    (hstream.trans (hrest.trans (List.nil_append _).symm)) (hany _ (map_read 1 _))
  refine .whole hg hchunk hshort (serve_eq_iff.mp hserved) ?_
  by_cases ht : t = []
  · subst ht
    cases reads with
    | nil => exact .done
    | cons r' reads =>
      have hr' := hne r'.toArrival (List.mem_cons_of_mem _ List.mem_cons_self)
      rw [List.map_cons, List.map_cons, List.flatten_cons] at hrest
      exact absurd (List.append_eq_nil_iff.mp hrest).1 hr'
  · exact hbehind fun reads' h' => dispatched_rest hholds hover hserved (hdie ht) (hany reads' h')

/-- A chunk that ends inside a request, of which only a NUL can be missing. -/
theorem clean_of_cut {c : Cmd} {a b : Bytes} (hsound : ∀ d ∈ g ++ c :: t, d.Framed ∧ d.MarkedOnce)
    (hdie : ¬ ∃ d ∈ g, d.cmd = NASTDIE) (hcut : c.frame = a ++ b) (ha : a ≠ []) (hb : b ≠ [])
    (hchunk : r.chunk = wire g ++ a)
    (hrest : ((reads.map Read.toArrival).map Arrival.chunk).flatten = b ++ wire t)
    (hne : ∀ x ∈ reads.map Read.toArrival, x.chunk ≠ [])
    (hany : ∀ reads', reads'.map Read.toArrival = (r :: reads).map Read.toArrival →
      Dispatches sock reads' opts srv (g ++ c :: t))
    (hbehind : ∀ {r' : Read} {reads' : List Read} {opts' : NastOptions} {srv' : Shared},
      reads = r' :: reads' → ((reads'.map Read.toArrival).map Arrival.chunk).flatten = wire t →
      (∀ reads'', reads''.map Read.toArrival = reads'.map Read.toArrival →
        Dispatches sock reads'' opts' srv' t) → Clean sock t reads' opts' srv') :
    Clean sock (g ++ c :: t) (r :: reads) opts srv := by
  have hc := hsound c (List.mem_append_right _ List.mem_cons_self)
  have ht : ∀ d ∈ t, d.Framed ∧ d.MarkedOnce :=
    fun d hd => hsound d (List.mem_append_right _ (List.mem_cons_of_mem _ hd))
  obtain ⟨rfl, hlong⟩ := cut_lacks_nul
    (fun d hd => (hsound d (List.mem_append_left _ hd)).1) hc ht hcut ha hb hchunk hrest hany
  have hmine : ∀ reads', reads'.map Read.toArrival = reads.map Read.toArrival →
      Dispatches sock (r :: reads') opts srv (g ++ c :: t) :=
    fun reads' h' => hany (r :: reads') (by rw [List.map_cons, List.map_cons, h'])
  obtain ⟨_, hfuel⟩ := hmine reads rfl
  obtain ⟨hshort, -⟩ := ioLooper_cons_some hfuel
  have hquiet := read_quiet (reads.map Read.toArrival)
  have hstream := congrArg List.flatten
    (chunks_of_arrivals (map_read 1 (reads.map Read.toArrival)))
  have hwire : r.chunk ++ [0] = wire (g ++ [c]) := by
    rw [wire_append, hchunk, List.append_assoc, ← hcut, wire_cons]
    exact congrArg (wire g ++ ·) (List.append_nil _).symm
  have hover : r.chunk.length ≤ (wire (g ++ [c])).length := by
    rw [← hwire, List.length_append]
    omega
  have hlast : c.cmd ≠ NASTDIE → ¬ ∃ d ∈ g ++ [c], d.cmd = NASTDIE := by
    intro hno ⟨d, hd, hdied⟩
    rcases List.mem_append.mp hd with hd | hd
    · exact hdie ⟨d, hd, hdied⟩
    · exact hno (List.mem_singleton.mp hd ▸ hdied)
  rw [List.append_cons] at hsound hmine ⊢
  have hholds : r.Holds (g ++ [c]) := holds_of_prefix
    (fun d hd => (hsound d (List.mem_append_left _ hd)).1) ⟨[], by rw [hwire, List.append_nil]⟩
    hlong
  have htail : Tail [0] := tail_cut hc.2 hcut ha
  have hserved := served_of_dispatched hholds hover htail hquiet ht (hstream.trans hrest)
    (hmine _ (map_read 1 _))
  have hfol := serve_eq_iff.mp hserved
  by_cases hdied : c.cmd = NASTDIE
  · rw [← List.append_cons]
    exact .die hdied ⟨[], by rw [hwire, List.append_nil]⟩ hlong hshort hfol
  -- the NUL has to come alone
  have hlater : ∀ reads', reads'.map Read.toArrival = reads.map Read.toArrival →
      Dispatches sock reads' _ _ t :=
    fun reads' h' => dispatched_rest hholds hover hserved (hlast hdied) (hmine reads' h')
  cases reads with
  | nil => exact absurd hrest (by simp)
  | cons r' reads =>
    obtain ⟨hlone, hstr⟩ := nul_alone ht htail hrest (hne _ List.mem_cons_self) hlater
    have hshort' : r'.chunk.length < 6 := by
      rw [show r'.chunk = [0] from hlone]
      decide
    refine .nul hwire hlong hshort hfol hlone (hbehind rfl hstr fun reads' h' => ?_)
    exact (dispatches_short hshort').mp
      (hlater (r' :: reads') (by rw [List.map_cons, List.map_cons, h']))

/-- Reads that dispatch all requests whatever was in memory are clean, as long as only the mark of
a request looks like one. -/
theorem clean_of_same :
    ∀ {n : Nat} {reads : List Read} {cs : List Cmd} {opts : NastOptions} {srv : Shared},
      reads.length ≤ n → (∀ c ∈ cs, c.Framed) → Telling cs →
      ((reads.map Read.toArrival).map Arrival.chunk).flatten = wire cs →
      (∀ x ∈ reads.map Read.toArrival, x.chunk ≠ []) →
      (∀ reads', reads'.map Read.toArrival = reads.map Read.toArrival →
        Dispatches sock reads' opts srv cs) →
      Clean sock cs reads opts srv := by
  intro n
  induction n with
  | zero =>
    intro reads cs opts srv hn _ _ hstream _ _
    obtain rfl := List.length_eq_zero_iff.mp (Nat.le_zero.mp hn)
    rw [nil_of_wire hstream.symm]
    exact .done
  | succ n ih =>
    intro reads cs opts srv hn hframed htell hstream hne hall
    have hsound : ∀ c ∈ cs, c.Framed ∧ c.MarkedOnce :=
      fun c hc => ⟨hframed c hc, htell.marked c hc⟩
    cases reads with
    | nil =>
      rw [nil_of_wire hstream.symm]
      exact .done
    | cons r reads =>
      have hn' : reads.length ≤ n := Nat.le_of_succ_le_succ hn
      have hne' : ∀ x ∈ reads.map Read.toArrival, x.chunk ≠ [] :=
        fun x hx => hne x (List.mem_cons_of_mem _ hx)
      rw [List.map_cons, List.map_cons, List.flatten_cons] at hstream
      rcases cut_requests hstream with ⟨g, t, rfl, hchunk, hrest⟩
        | ⟨g, c, t, a, b, rfl, hcut, ha, hb, hchunk, hrest⟩
      · refine clean_of_whole hsound htell.no_die hchunk hrest hne
          (fun reads' h' => hall (r :: reads') (by rw [List.map_cons, List.map_cons, h'])) ?_
        exact ih hn' (fun c hc => hframed c (List.mem_append_right _ hc)) htell.rest hrest hne'
      · refine clean_of_cut hsound (htell.no_die (List.cons_ne_nil c t)) hcut ha hb hchunk hrest
          hne' hall ?_
        intro r' reads' opts' srv' hreads hstr hdispatched
        subst hreads
        rw [List.append_cons] at hframed htell
        exact ih (Nat.le_of_succ_le hn') (fun d hd => hframed d (List.mem_append_right _ hd))
          htell.rest hstr (fun z hz => hne' z (List.mem_cons_of_mem _ hz)) hdispatched

end Whatever

/-- **When the cuts do no harm.** Requests of at most 512 bytes come in chunks of at most 1024.
In clean reads the same are dispatched as when each comes alone; and only in these, as long as
only the mark of a request looks like one and nothing is sent behind a DIE. -/
theorem same_stream_iff {cs : List Cmd} {arrivals : List Arrival} (hsize : ∀ c ∈ cs, c.size ≤ 512)
    (hcut : Cut 1024 (cs.map Cmd.frame) (arrivals.map Arrival.chunk)) (sock : Nat)
    (opts : NastOptions) (srv : Shared) :
    ((∀ reads, reads.map Read.toArrival = arrivals → Clean sock cs reads opts srv) →
      SameStream sock cs arrivals opts srv) ∧
    (Telling cs → SameStream sock cs arrivals opts srv →
      ∀ reads, reads.map Read.toArrival = arrivals → Clean sock cs reads opts srv) := by
  have hframed : ∀ c ∈ cs, c.Framed := by
    intro c hc
    have hle := hsize c hc
    unfold Cmd.Framed
    omega
  constructor
  · intro hclean reads own hreads hown
    exact ⟨upToDie cs, ⟨_, clean_dispatches (hclean reads hreads) hframed (Nat.le_refl _)⟩,
      ⟨_, own_dispatches sock 0 hsize hown opts srv⟩⟩
  · intro htell hsame reads hreads
    subst hreads
    refine clean_of_same (Nat.le_refl _) hframed htell (hcut.stream.trans (flatten_frames cs))
      (fun x hx => hcut.nonempty _ (List.mem_map_of_mem hx)) fun reads' hreads' => ?_
    -- each request alone
    have hown : (cs.map fun c => (⟨⟨c.frame, fun _ srv => srv⟩, fun _ => 0⟩ : Read)).map
        (fun r => r.chunk) = cs.map Cmd.frame := by
      rw [List.map_map]
      rfl
    obtain ⟨ds, hds, fuel, hfuel⟩ := hsame reads' _ hreads' hown
    have hall := own_dispatches sock fuel hsize hown opts srv
    rw [ioLooper_mono 1 hfuel] at hall
    rw [Option.some.inj hall, upToDie_telling htell] at hds
    exact hds

/-- Two OPTGETs in one chunk. -/
theorem same_stream_iff_together :
    SameStream 5 [⟨1, NASTOPTGET, []⟩, ⟨2, NASTOPTGET, []⟩]
      [⟨[0, 6, 0, 1, 0xff, 0x10, 0, 6, 0, 2, 0xff, 0x10], fun _ srv => srv⟩] defaultOpts
      ⟨fun _ => none, cdbUnloaded, fqmNew 10, 0, 0, 0, []⟩ := by
  refine (same_stream_iff (by decide) ⟨by decide, by decide, by decide⟩ 5 _ _).1 fun reads h => ?_
  obtain ⟨r, t, rfl, hr, ht⟩ := List.map_eq_cons_iff.mp h
  obtain rfl := List.map_eq_nil_iff.mp ht
  have hchunk : r.chunk = wire [⟨1, NASTOPTGET, []⟩, ⟨2, NASTOPTGET, []⟩] := by
    rw [hr]
    decide
  refine .whole (g := [⟨1, NASTOPTGET, []⟩, ⟨2, NASTOPTGET, []⟩]) (by simp) hchunk ?_ ?_ .done
  · rw [hchunk]
    decide
  · intro _
    exact ⟨Or.inl ⟨.inr (.inr (.inl rfl)), answers_always (.inr (.inl rfl)),
      goesOn_always (.inr (.inl rfl))⟩, fun hne => absurd rfl hne⟩

/-- An OPTGET that is cut inside its header is never dispatched. -/
theorem split_request :
    Cut 1024 ([⟨1, NASTOPTGET, []⟩].map Cmd.frame) [[0, 6, 0, 1], [0xff, 0x10]] ∧
      ¬ SameStream 5 [⟨1, NASTOPTGET, []⟩]
        [⟨[0, 6, 0, 1], fun _ srv => srv⟩, ⟨[0xff, 0x10], fun _ srv => srv⟩] defaultOpts
        ⟨fun _ => none, cdbUnloaded, fqmNew 10, 0, 0, 0, []⟩ := by
  refine ⟨⟨by decide, by decide, by decide⟩, fun h => ?_⟩
  have hown : [(⟨⟨[0, 6, 0, 1, 0xff, 0x10], fun _ srv => srv⟩, fun _ => 0⟩ : Read)].map
      (fun r => r.chunk) = [(⟨1, NASTOPTGET, []⟩ : Cmd)].map Cmd.frame := by decide
  obtain ⟨ds, hds, fuel, hfuel⟩ := h _ _ (map_read 0 _) hown
  have hall := own_dispatches 5 fuel (by decide) hown defaultOpts
    ⟨fun _ => none, cdbUnloaded, fqmNew 10, 0, 0, 0, []⟩
  rw [ioLooper_mono 1 hfuel] at hall
  -- both chunks are too short for a command
  obtain ⟨_, hnone⟩ := (dispatches_short (by decide)).mp ((dispatches_short (by decide)).mp hds)
  rw [Option.some.inj hall] at hnone
  exact absurd hnone (by simp [ioLooper, upToDie])

end Nastd.Server
