import Nastd.Server.Isolation
import Nastd.Server.OptSet
import Nastd.Server.Framing
import Mathlib.Logic.Relation

/-!
# What `process_cmd` reads

The loop of `process_cmd` moves by a length that it takes from the input and compares
with nothing. `StaysInside` is what one would want of it for any bytes: it ends, every
round moves it on by a header or more, and every request it dispatches lies within what
was received.

`stays_inside_iff` is which buffers it holds for, whatever the state and the memory
around the buffer: those that are `WellFramed`, that is, each length on the way is at
least that of a header, and none whose arguments are read reaches behind the end.

Whatever the memory: the NUL that `io_looper` puts behind what it received (`Server/Stream.lean`)
is not counted on. With it a header that is cut off after its fourth or fifth byte ends the
loop too, but it takes a byte that was not received to see that.
-/

namespace Nastd.Server

/-- The loop before a round. -/
structure Round where
  p : Int
  i : Nat
  opts : NastOptions
  srv : Shared

section Loop

variable (env : Nat → Shared → Shared) (mem : Int → Byte) (sock : Nat) (bufflen : Nat)

/-- The length of the request at `p`. -/
def lenAt (p : Int) : Int := short (ntohs (mem p) (mem (p + 1)))

/-- What the handler does in a round that gets to it. -/
def Round.handled (x : Round) : Outcome × NastOptions × Shared :=
  handleCmd sock (ntohs (mem (x.p + 2)) (mem (x.p + 3))) (mem (x.p + 5))
    ((List.range (lenAt mem x.p - 6).toNat).map fun j : Nat => mem (x.p + 6 + j))
    (fun j : Nat => mem (x.p + lenAt mem x.p + j)) x.opts (env x.i x.srv)

/-- The round dispatches a request. -/
def Round.dispatches (x : Round) : Prop := x.p < bufflen ∧ mem (x.p + 4) = NASTCMD

instance (x : Round) : Decidable (x.dispatches mem bufflen) :=
  inferInstanceAs (Decidable (_ ∧ _))

/-- The next round; `none` when there is none. -/
def Round.next (x : Round) : Option Round :=
  if x.dispatches mem bufflen ∧ ¬ (lenAt mem x.p < 6 ∧ readsArgs (mem (x.p + 5)) = true) then
    let r := x.handled env mem sock
    if r.1.rc = -1 ∨ r.1.rc = 1 then none else some ⟨x.p + lenAt mem x.p, x.i + 1, r.2.1, r.2.2⟩
  else none

/-- The rounds of a run of `process_cmd`. -/
def Rounds (opts : NastOptions) (srv : Shared) : Round → Prop :=
  Relation.ReflTransGen (fun x y => x.next env mem sock bufflen = some y) ⟨0, 0, opts, srv⟩

/-- `process_cmd` ends and stays within the bytes it was given. -/
structure StaysInside (opts : NastOptions) (srv : Shared) : Prop where
  /-- After at most one round a byte. -/
  ends : (processCmd env mem sock bufflen bufflen opts srv).isSome = true
  advances : ∀ x y, Rounds env mem sock bufflen opts srv x →
    x.next env mem sock bufflen = some y → x.p + 6 ≤ y.p
  /-- The header, and what is handed to `do_opt_set`, `do_get` and `do_update`. -/
  inside : ∀ x, Rounds env mem sock bufflen opts srv x → x.dispatches mem bufflen →
    0 ≤ x.p ∧ x.p + 6 ≤ bufflen ∧
      (readsArgs (mem (x.p + 5)) = true →
        6 ≤ lenAt mem x.p ∧ x.p + lenAt mem x.p ≤ bufflen)

end Loop

/-- The `switch` returns without looking at the length: DIE, or a command it does not
know. -/
def endsLoop (cmd : Byte) : Bool :=
  !([NASTOPTSET, NASTOPTGET, NASTGET, NASTADD, NASTDEL, NASTUPD, NASTSTATS].contains cmd)

/-- The requests in these bytes keep within them, up to the first that ends the loop
whatever the state is. -/
inductive WellFramed : Bytes → Prop where
  | done : WellFramed []
  /-- No NASTCMD where a request begins. -/
  | refused {hi lo i j mark : Byte} {rest : Bytes} : mark ≠ NASTCMD →
      WellFramed (hi :: lo :: i :: j :: mark :: rest)
  | last {hi lo i j cmd : Byte} {rest : Bytes} : endsLoop cmd = true →
      WellFramed (hi :: lo :: i :: j :: NASTCMD :: cmd :: rest)
  | unknownOption {hi lo i j : Byte} {args rest : Bytes} :
      short (ntohs hi lo) = 6 + args.length →
      (∃ option ∈ optNames args, knownOption option = false) →
      WellFramed (hi :: lo :: i :: j :: NASTCMD :: NASTOPTSET :: (args ++ rest))
  | next {hi lo i j cmd : Byte} {rest : Bytes} : 6 ≤ short (ntohs hi lo) →
      (readsArgs cmd = true → short (ntohs hi lo) ≤ 6 + rest.length) →
      WellFramed (rest.drop (short (ntohs hi lo) - 6).toNat) →
      WellFramed (hi :: lo :: i :: j :: NASTCMD :: cmd :: rest)

/-! ## Rounds -/

section Rounds

variable {env : Nat → Shared → Shared} {mem : Int → Byte} {sock bufflen : Nat}

/-- The loop, one round at a time. -/
theorem processLoop_round (x : Round) (fuel : Nat) :
    processLoop env mem sock bufflen (fuel + 1) x.p x.i x.opts x.srv
      = if x.p < bufflen then
          if mem (x.p + 4) ≠ NASTCMD then some (.idle (-1), x.opts, env x.i x.srv)
          else if lenAt mem x.p < 6 ∧ readsArgs (mem (x.p + 5)) = true then none
          else
            (let r := x.handled env mem sock
            if r.1.rc = -1 ∨ r.1.rc = 1 then some r
            else
              (processLoop env mem sock bufflen fuel (x.p + lenAt mem x.p) (x.i + 1)
                r.2.1 r.2.2).map fun r' => (r.1.andThen r'.1, r'.2))
        else some (.idle 0, x.opts, x.srv) := by
  rw [processLoop]
  rfl

/-- A round has another behind it if it dispatches a request whose handler goes on. -/
theorem Round.next_eq_some {x y : Round} :
    x.next env mem sock bufflen = some y ↔
      x.dispatches mem bufflen ∧
        ¬ (lenAt mem x.p < 6 ∧ readsArgs (mem (x.p + 5)) = true) ∧
        ¬ ((x.handled env mem sock).1.rc = -1 ∨ (x.handled env mem sock).1.rc = 1) ∧
        y = ⟨x.p + lenAt mem x.p, x.i + 1, (x.handled env mem sock).2.1,
          (x.handled env mem sock).2.2⟩ := by
  unfold Round.next
  dsimp only
  split
  · next hd =>
    split
    · next hrc => exact ⟨fun h => absurd h (by simp), fun h => absurd hrc h.2.2.1⟩
    · next hrc =>
      exact ⟨fun h => ⟨hd.1, hd.2, hrc, (Option.some.inj h).symm⟩, fun h => by rw [h.2.2.2]⟩
  · next hd => exact ⟨fun h => absurd h (by simp), fun h => absurd ⟨h.1, h.2.1⟩ hd⟩

/-- A round with another behind it is one step of the loop. -/
theorem processLoop_next {x y : Round} (h : x.next env mem sock bufflen = some y) (fuel : Nat) :
    processLoop env mem sock bufflen (fuel + 1) x.p x.i x.opts x.srv
      = (processLoop env mem sock bufflen fuel y.p y.i y.opts y.srv).map
          fun r => ((x.handled env mem sock).1.andThen r.1, r.2) := by
  obtain ⟨⟨hp, hmark⟩, hargs, hrc, rfl⟩ := Round.next_eq_some.mp h
  rw [processLoop_round, if_pos hp, if_neg (not_not.mpr hmark), if_neg hargs]
  exact if_neg hrc

/-- A round with none behind it ends the loop. -/
theorem processLoop_stop {x : Round} (h : x.next env mem sock bufflen = none)
    (hargs : x.dispatches mem bufflen → readsArgs (mem (x.p + 5)) = true → 6 ≤ lenAt mem x.p)
    (fuel : Nat) :
    (processLoop env mem sock bufflen (fuel + 1) x.p x.i x.opts x.srv).isSome = true := by
  rw [processLoop_round]
  split
  · next hp =>
    split
    · rfl
    · next hmark =>
      have hd : x.dispatches mem bufflen := ⟨hp, not_not.mp hmark⟩
      have hlen : ¬ (lenAt mem x.p < 6 ∧ readsArgs (mem (x.p + 5)) = true) := by
        intro ⟨hshort, hreads⟩
        have h6 := hargs hd hreads
        omega
      rw [if_neg hlen]
      dsimp only
      split
      · rfl
      · next hrc =>
        rw [Round.next_eq_some.mpr ⟨hd, hlen, hrc, rfl⟩] at h
        exact absurd h (by simp)
  · rfl

/-- If every round moves on by a header or more, the loop ends. -/
theorem processLoop_ends {opts : NastOptions} {srv : Shared}
    (hmoves : ∀ x y, Rounds env mem sock bufflen opts srv x →
      x.next env mem sock bufflen = some y → x.p + 6 ≤ y.p)
    (hargs : ∀ x, Rounds env mem sock bufflen opts srv x → x.dispatches mem bufflen →
      readsArgs (mem (x.p + 5)) = true → 6 ≤ lenAt mem x.p) :
    ∀ {fuel : Nat} {x : Round}, Rounds env mem sock bufflen opts srv x →
      (bufflen : Int) - x.p ≤ fuel →
      (processLoop env mem sock bufflen fuel x.p x.i x.opts x.srv).isSome = true := by
  intro fuel
  induction fuel with
  | zero =>
    intro x _ hleft
    rw [processLoop, if_neg (by omega)]
    rfl
  | succ fuel ih =>
    intro x hx hleft
    cases hnext : x.next env mem sock bufflen with
    | none => exact processLoop_stop hnext (hargs x hx) fuel
    | some y =>
      have hmove := hmoves x y hx hnext
      rw [processLoop_next hnext, Option.isSome_map]
      exact ih (hx.tail hnext) (by omega)

/-! ## Well-framed buffers -/

/-- The first bytes of a request. -/
theorem at_head {p : Int} {hi lo i j mark : Byte} {rest : Bytes}
    (h : At mem p (hi :: lo :: i :: j :: mark :: rest)) :
    lenAt mem p = short (ntohs hi lo) ∧ mem (p + 4) = mark ∧ At mem (p + 5) rest := by
  have h0 : mem (p + (0 : Nat)) = hi := h 0 (by simp)
  have h1 : mem (p + 1) = lo := h 1 (by simp)
  rw [Int.natCast_zero, Int.add_zero] at h0
  refine ⟨?_, h 4 (by simp), fun k hk => ?_⟩
  · rw [lenAt, h0, h1]
  · have hget := h (k + 5) (by simp only [List.length_cons]; omega)
    have hpos : p + ((k + 5 : Nat) : Int) = p + 5 + k := by
      push_cast
      omega
    rw [hpos] at hget
    exact hget

theorem at_cons {p : Int} {b : Byte} {rest : Bytes} (h : At mem p (b :: rest)) :
    mem p = b ∧ At mem (p + 1) rest := by
  have h' : At mem p ([b] ++ rest) := h
  obtain ⟨hb, hrest⟩ := at_append h'
  have h0 : mem (p + (0 : Nat)) = b := hb 0 (by simp)
  rw [Int.natCast_zero, Int.add_zero] at h0
  exact ⟨h0, hrest⟩

theorem at_drop {p : Int} {bytes : Bytes} (h : At mem p bytes) (n : Nat) :
    At mem (p + n) (bytes.drop n) := by
  intro k hk
  rw [List.length_drop] at hk
  have hget := h (n + k) (by omega)
  have hpos : p + ((n + k : Nat) : Int) = p + n + k := by
    push_cast
    omega
  rw [hpos] at hget
  rw [hget, List.getElem_drop]

theorem at_take {p : Int} {bytes : Bytes} (h : At mem p bytes) (n : Nat) :
    At mem p (bytes.take n) := by
  intro k hk
  rw [List.length_take] at hk
  rw [h k (by omega), List.getElem_take]

/-- These commands return at once. -/
theorem handleCmd_endsLoop {cmd : Byte} (h : endsLoop cmd = true) (sock : Nat) (reqid : UInt16)
    (args : Bytes) (after : Nat → Byte) (opts : NastOptions) (srv : Shared) :
    (handleCmd sock reqid cmd args after opts srv).1.rc = -1 ∨
      (handleCmd sock reqid cmd args after opts srv).1.rc = 1 := by
  have hne : cmd ∉ [NASTOPTSET, NASTOPTGET, NASTGET, NASTADD, NASTDEL, NASTUPD, NASTSTATS] := by
    unfold endsLoop at h
    simpa using h
  simp only [List.mem_cons, List.not_mem_nil, or_false, not_or] at hne
  obtain ⟨h1, h2, h3, h4, h5, h6, h7⟩ := hne
  unfold handleCmd
  rw [if_neg h1, if_neg h2, if_neg h3, if_neg h4, if_neg h5, if_neg h6, if_neg h7]
  split
  · exact Or.inr rfl
  · exact Or.inl rfl

theorem endsLoop_readsArgs {cmd : Byte} (h : endsLoop cmd = true) : readsArgs cmd = false := by
  have hne : cmd ∉ [NASTOPTSET, NASTOPTGET, NASTGET, NASTADD, NASTDEL, NASTUPD, NASTSTATS] := by
    unfold endsLoop at h
    simpa using h
  simp only [List.mem_cons, List.not_mem_nil, or_false, not_or] at hne
  simp [readsArgs, hne]

/-- An OPTSET fails or not by its option numbers alone. -/
theorem handleCmd_optSet (sock : Nat) (reqid : UInt16) (args : Bytes) (after : Nat → Byte)
    (opts : NastOptions) (srv : Shared) :
    (handleCmd sock reqid NASTOPTSET args after opts srv).1.rc
      = if (optNames args).all knownOption = true then 0 else -1 := by
  have hrec := setOptsReads_eq (after 0) 0 opts args
  show (doOptSet reqid opts args after).1.rc = _
  unfold doOptSet
  dsimp only
  by_cases hall : ∀ option ∈ optNames args, knownOption option = true
  · have hend := (setOptsReads_known (after 0) 0 opts hall).1
    rw [hrec] at hend
    rw [if_pos (List.all_eq_true.mpr hall), if_pos hend, sendResponse_rc, if_pos (by decide)]
  · have hend := (setOptsReads_unknown (after 0) 0 opts hall).1
    rw [hrec] at hend
    rw [if_neg fun h => hall (List.all_eq_true.mp h), hend]
    rfl

/-- The requests from this round on are well framed. -/
structure Framing (mem : Int → Byte) (bufflen : Nat) (x : Round) (bytes : Bytes) : Prop where
  framed : WellFramed bytes
  there : At mem x.p bytes
  left : bytes.length = ((bufflen : Int) - x.p).toNat
  nonneg : 0 ≤ x.p

/-- What one round does on well-framed requests. -/
theorem Framing.round {x : Round} {bytes : Bytes} (h : Framing mem bufflen x bytes)
    (hd : x.dispatches mem bufflen) (env : Nat → Shared → Shared) (sock : Nat) :
    (x.p + 6 ≤ bufflen ∧ (readsArgs (mem (x.p + 5)) = true →
      6 ≤ lenAt mem x.p ∧ x.p + lenAt mem x.p ≤ bufflen)) ∧
    ∀ y, x.next env mem sock bufflen = some y →
      x.p + 6 ≤ y.p ∧ ∃ bytes', Framing mem bufflen y bytes' := by
  obtain ⟨hframed, hat, hleft, hnonneg⟩ := h
  obtain ⟨hp, hmark⟩ := hd
  -- a round whose handler returns -1 or 1 has none behind it
  have hends : (x.handled env mem sock).1.rc = -1 ∨ (x.handled env mem sock).1.rc = 1 →
      ∀ y, x.next env mem sock bufflen ≠ some y := by
    intro hrc y hy
    exact (Round.next_eq_some.mp hy).2.2.1 hrc
  cases hframed with
  | done =>
    rw [List.length_nil] at hleft
    omega
  | refused hne =>
    obtain ⟨-, hm, -⟩ := at_head hat
    exact absurd (hm.symm.trans hmark) hne
  | last hcmd =>
    obtain ⟨-, -, hrest⟩ := at_head hat
    obtain ⟨hc, -⟩ := at_cons hrest
    simp only [List.length_cons] at hleft
    refine ⟨⟨by omega, fun hreads => ?_⟩, fun y hy => absurd hy (hends ?_ y)⟩
    · rw [hc, endsLoop_readsArgs hcmd] at hreads
      exact absurd hreads (by simp)
    · unfold Round.handled
      rw [hc]
      exact handleCmd_endsLoop hcmd ..
  | @unknownOption hi lo i j args rest hlen hunknown =>
    obtain ⟨hl, -, hrest⟩ := at_head hat
    obtain ⟨hc, hargs⟩ := at_cons hrest
    obtain ⟨hargs, -⟩ := at_append hargs
    have hpos : x.p + 5 + 1 = x.p + 6 := by omega
    have hcount : (lenAt mem x.p - 6).toNat = args.length := by omega
    rw [hpos] at hargs
    simp only [List.length_cons, List.length_append] at hleft
    refine ⟨⟨by omega, fun _ => ⟨by omega, by omega⟩⟩, fun y hy => absurd hy (hends (Or.inl ?_) y)⟩
    unfold Round.handled
    rw [hc, hcount, at_map hargs, handleCmd_optSet, if_neg]
    intro hall
    obtain ⟨option, hmem, hun⟩ := hunknown
    rw [List.all_eq_true.mp hall option hmem] at hun
    exact absurd hun (by simp)
  | @next hi lo i j cmd rest h6 hin hframed' =>
    obtain ⟨hl, -, hrest⟩ := at_head hat
    obtain ⟨hc, hrest⟩ := at_cons hrest
    simp only [List.length_cons] at hleft
    rw [← hl] at h6 hin hframed'
    refine ⟨⟨by omega, fun hreads => ⟨h6, ?_⟩⟩, fun y hy => ?_⟩
    · rw [hc] at hreads
      have hle := hin hreads
      omega
    · have hy' : y.p = x.p + lenAt mem x.p := by
        obtain ⟨-, -, -, rfl⟩ := Round.next_eq_some.mp hy
        rfl
      have hdrop := at_drop hrest (lenAt mem x.p - 6).toNat
      have hpos : x.p + 5 + 1 + ((lenAt mem x.p - 6).toNat : Int) = y.p := by omega
      rw [hpos] at hdrop
      refine ⟨by omega, _, hframed', hdrop, ?_, by omega⟩
      rw [List.length_drop]
      omega

/-- A well-framed buffer keeps `process_cmd` inside. -/
theorem WellFramed.staysInside {buffer : Bytes} (h : WellFramed buffer)
    (env : Nat → Shared → Shared) (around : Int → Byte) (sock : Nat) (opts : NastOptions)
    (srv : Shared) :
    StaysInside env (bufMem buffer around) sock buffer.length opts srv := by
  have hstart : Framing (bufMem buffer around) buffer.length ⟨0, 0, opts, srv⟩ buffer :=
    ⟨h, bufMem_at buffer around, by simp, Int.le_refl 0⟩
  have hrounds : ∀ {x}, Rounds env (bufMem buffer around) sock buffer.length opts srv x →
      ∃ bytes, Framing (bufMem buffer around) buffer.length x bytes := by
    intro x hx
    induction hx with
    | refl => exact ⟨buffer, hstart⟩
    | tail _ hstep ih =>
      obtain ⟨bytes, hf⟩ := ih
      exact ((hf.round (Round.next_eq_some.mp hstep).1 env sock).2 _ hstep).2
  have hmoves : ∀ x y, Rounds env (bufMem buffer around) sock buffer.length opts srv x →
      x.next env (bufMem buffer around) sock buffer.length = some y → x.p + 6 ≤ y.p := by
    intro x y hx hstep
    obtain ⟨bytes, hf⟩ := hrounds hx
    exact ((hf.round (Round.next_eq_some.mp hstep).1 env sock).2 y hstep).1
  have hinside : ∀ x, Rounds env (bufMem buffer around) sock buffer.length opts srv x →
      x.dispatches (bufMem buffer around) buffer.length →
      0 ≤ x.p ∧ x.p + 6 ≤ buffer.length ∧
        (readsArgs (bufMem buffer around (x.p + 5)) = true →
          6 ≤ lenAt (bufMem buffer around) x.p ∧
            x.p + lenAt (bufMem buffer around) x.p ≤ buffer.length) := by
    intro x hx hd
    obtain ⟨bytes, hf⟩ := hrounds hx
    exact ⟨hf.nonneg, (hf.round hd env sock).1⟩
  refine ⟨?_, hmoves, hinside⟩
  unfold processCmd
  split
  · rfl
  · exact processLoop_ends hmoves (fun x hx hd hreads => ((hinside x hx hd).2.2 hreads).1)
      (x := ⟨0, 0, opts, srv⟩) .refl (by simp)

end Rounds

/-! ## The other way -/

/-- `do_opt_get` always has an answer that fits. -/
theorem doOptGet_rc (reqid : UInt16) (opts : NastOptions) : (doOptGet reqid opts).rc = 0 := by
  have hfit : Fits [optText opts] := by simp [Fits, optText]
  rw [doOptGet, sendResponse_rc, if_pos hfit]

/-- A server that answers everything: no CDB, nothing cached, an empty queue. -/
def quietServer : Shared := freshServer cdbUnloaded 60 0

/-- There a request stops the loop only if it does so everywhere. -/
theorem handleCmd_quiet {cmd : Byte} (h : endsLoop cmd = false) (sock : Nat) (reqid : UInt16)
    (args : Bytes) (after : Nat → Byte) (opts : NastOptions)
    (hknown : cmd = NASTOPTSET → ∀ option ∈ optNames args, knownOption option = true) :
    (handleCmd sock reqid cmd args after opts quietServer).1.rc = 0 := by
  have hok : ∀ {rCode : Byte} {aa : List Bytes}, Fits aa →
      (sendResponse reqid rCode aa).rc = 0 := by
    intro rCode aa haa
    rw [sendResponse_rc, if_pos haa]
  have hmem : cmd ∈ [NASTOPTSET, NASTOPTGET, NASTGET, NASTADD, NASTDEL, NASTUPD, NASTSTATS] := by
    unfold endsLoop at h
    rw [Bool.not_eq_false', List.contains_iff_mem] at h
    exact h
  simp only [List.mem_cons, List.not_mem_nil, or_false] at hmem
  rcases hmem with rfl | rfl | rfl | rfl | rfl | rfl | rfl
  · rw [handleCmd_optSet, if_pos (List.all_eq_true.mpr (hknown rfl))]
  · exact doOptGet_rc reqid opts
  · show (doGet sock reqid opts args after quietServer).1.rc = 0
    -- nothing is found anywhere, so it goes to the queue or is answered empty
    have hitems : getItems opts args after quietServer
        = if opts.noFallthrough = false then none else some [] := by
      simp [getItems, getFound, quietServer, freshServer, CacheMap.get, cdbGet, cdbUnloaded]
    rw [doGet_eq, hitems]
    by_cases hfall : opts.noFallthrough = false
    · rw [if_pos hfall]
      rfl
    · rw [if_neg hfall]
      exact hok (by decide)
  · rfl
  · rfl
  · show (doUpdate reqid args quietServer).1.rc = 0
    unfold doUpdate
    dsimp only
    split
    · exact hok (by decide)
    · split
      · exact hok (by decide)
      · exact hok (by decide)
  · exact hok (by decide +kernel)

/-- The bytes up to NASTCMD. -/
theorem eq_head {bytes : Bytes} (h : 5 ≤ bytes.length) :
    ∃ hi lo i j mark rest, bytes = hi :: lo :: i :: j :: mark :: rest := by
  match bytes, h with
  | hi :: lo :: i :: j :: mark :: rest, _ => exact ⟨hi, lo, i, j, mark, rest, rfl⟩

section Quiet

variable {mem : Int → Byte} {bufflen : Nat} {opts : NastOptions} {x : Round}
  {hi lo i j cmd : Byte} {rest : Bytes}

/-- A request with its length inside the buffer is answered there, unless its command or an
option of it is unknown. -/
theorem handled_quiet (hat : At mem x.p (hi :: lo :: i :: j :: NASTCMD :: cmd :: rest))
    (hcmd : endsLoop cmd = false)
    (hinside : readsArgs cmd = true → short (ntohs hi lo) ≤ 6 + rest.length)
    (hknown : cmd = NASTOPTSET → ∀ option ∈ optNames (rest.take (short (ntohs hi lo) - 6).toNat),
      knownOption option = true) (sock : Nat) :
    (x.handled (fun _ _ => quietServer) mem sock).1.rc = 0 := by
  obtain ⟨hl, -, hrest⟩ := at_head hat
  obtain ⟨hc, hrest⟩ := at_cons hrest
  unfold Round.handled
  rw [hc, hl]
  refine handleCmd_quiet hcmd _ _ _ _ _ fun hset option hoption => ?_
  have hle : short (ntohs hi lo) ≤ 6 + rest.length := hinside (by rw [hset]; rfl)
  have hpos : x.p + 5 + 1 = x.p + 6 := by omega
  have hcount : (rest.take (short (ntohs hi lo) - 6).toNat).length
      = (short (ntohs hi lo) - 6).toNat := by
    rw [List.length_take]
    omega
  rw [hpos] at hrest
  rw [← hcount, at_map (at_take hrest _)] at hoption
  exact hknown hset option hoption

/-- A dispatch that keeps inside is one of a request that is well framed, if the requests of
the next round are. -/
theorem wellFramed_of_dispatch
    (h : StaysInside (fun _ _ => quietServer) mem 0 bufflen opts quietServer)
    (hx : Rounds (fun _ _ => quietServer) mem 0 bufflen opts quietServer x)
    (hp : x.p < bufflen) (hat : At mem x.p (hi :: lo :: i :: j :: NASTCMD :: cmd :: rest))
    (hleft : ((bufflen : Int) - x.p).toNat = 6 + rest.length)
    (hbehind : ∀ y, x.next (fun _ _ => quietServer) mem 0 bufflen = some y →
      x.p + 6 ≤ y.p → y.p = x.p + short (ntohs hi lo) →
      WellFramed (rest.drop (short (ntohs hi lo) - 6).toNat)) :
    WellFramed (hi :: lo :: i :: j :: NASTCMD :: cmd :: rest) := by
  obtain ⟨hl, hmark, hrest⟩ := at_head hat
  obtain ⟨hc, -⟩ := at_cons hrest
  obtain ⟨-, -, hargs⟩ := h.inside x hx ⟨hp, hmark⟩
  rw [hl, hc] at hargs
  have hinside : readsArgs cmd = true → short (ntohs hi lo) ≤ 6 + rest.length := by
    intro hreads
    have hle := (hargs hreads).2
    omega
  cases hcmd : endsLoop cmd with
  | true => exact .last hcmd
  | false =>
    by_cases hgo : cmd = NASTOPTSET ∧ ∃ option ∈
        optNames (rest.take (short (ntohs hi lo) - 6).toNat), knownOption option = false
    · obtain ⟨rfl, hunknown⟩ := hgo
      obtain ⟨h6, -⟩ := hargs rfl
      have hle := hinside rfl
      rw [← List.take_append_drop (short (ntohs hi lo) - 6).toNat rest]
      refine .unknownOption ?_ hunknown
      rw [List.length_take]
      omega
    · have hknown : cmd = NASTOPTSET →
          ∀ option ∈ optNames (rest.take (short (ntohs hi lo) - 6).toNat),
            knownOption option = true := by
        intro hset option hoption
        cases hk : knownOption option with
        | true => rfl
        | false => exact absurd ⟨hset, option, hoption, hk⟩ hgo
      have hrc := handled_quiet hat hcmd hinside hknown 0
      have hlong : ¬ (lenAt mem x.p < 6 ∧ readsArgs (mem (x.p + 5)) = true) := by
        rw [hl, hc]
        intro ⟨hshort, hreads⟩
        have h6 := (hargs hreads).1
        omega
      -- so there is a next round, and it begins behind this request
      have hnext := Round.next_eq_some.mpr ⟨⟨hp, hmark⟩, hlong, by rw [hrc]; decide, rfl⟩
      have hmove : x.p + 6 ≤ x.p + lenAt mem x.p := h.advances x _ hx hnext
      rw [hl] at hmove
      refine .next (by omega) hinside (hbehind _ hnext ?_ ?_)
      · dsimp only
        rw [hl]
        exact hmove
      · dsimp only
        rw [hl]

end Quiet

/-- If no dispatch on this buffer goes wrong, not even before NASTCMD bytes, its requests are
well framed from every round on. -/
theorem wellFramed_of_rounds {buffer : Bytes} {opts : NastOptions}
    (h : StaysInside (fun _ _ => quietServer) (bufMem buffer fun _ => NASTCMD) 0 buffer.length
      opts quietServer) :
    ∀ (n : Nat) (x : Round) (bytes : Bytes), bytes.length ≤ n →
      Rounds (fun _ _ => quietServer) (bufMem buffer fun _ => NASTCMD) 0 buffer.length opts
        quietServer x →
      0 ≤ x.p → bytes = buffer.drop x.p.toNat → WellFramed bytes := by
  intro n
  induction n with
  | zero =>
    intro x bytes hlen _ _ _
    rw [List.length_eq_zero_iff.mp (Nat.le_zero.mp hlen)]
    exact .done
  | succ n ih =>
    intro x bytes hlen hx hp hbytes
    have hleft : bytes.length = buffer.length - x.p.toNat := by
      rw [hbytes, List.length_drop]
    have hat : At (bufMem buffer fun _ => NASTCMD) x.p bytes := by
      have hdrop := at_drop (bufMem_at buffer fun _ => NASTCMD) x.p.toNat
      rw [← hbytes, Int.zero_add, Int.toNat_of_nonneg hp] at hdrop
      exact hdrop
    by_cases hend : x.p < buffer.length
    · -- the mark is inside, for behind the buffer it would be dispatched
      have hin : 5 ≤ bytes.length ∧
          (bufMem buffer (fun _ => NASTCMD) (x.p + 4) = NASTCMD → 6 ≤ bytes.length) := by
        by_cases hmark : bufMem buffer (fun _ => NASTCMD) (x.p + 4) = NASTCMD
        · have h6 := (h.inside x hx ⟨hend, hmark⟩).2.1
          exact ⟨by omega, fun _ => by omega⟩
        · refine ⟨?_, fun hm => absurd hm hmark⟩
          by_contra hout
          exact hmark (if_neg fun hb => hout (by omega))
      obtain ⟨hi, lo, i, j, mark, rest, rfl⟩ := eq_head hin.1
      obtain ⟨-, hm, -⟩ := at_head hat
      by_cases hmark : mark = NASTCMD
      · subst hmark
        have h6 := hin.2 hm
        obtain ⟨cmd, rest, rfl⟩ : ∃ cmd rest', rest = cmd :: rest' :=
          List.exists_cons_of_length_pos (by simp only [List.length_cons] at h6; omega)
        simp only [List.length_cons] at hleft hlen
        refine wellFramed_of_dispatch h hx hend hat (by omega) fun y hnext hmove hy => ?_
        refine ih y _ ?_ (hx.tail hnext) (by omega) ?_
        · rw [List.length_drop]
          omega
        · have hpos : y.p.toNat = x.p.toNat + (6 + (short (ntohs hi lo) - 6).toNat) := by omega
          rw [hpos, ← List.drop_drop, ← hbytes, Nat.add_comm 6]
          rfl
      · exact .refused hmark
    · have hnil : bytes = [] := List.length_eq_zero_iff.mp (by omega)
      rw [hnil]
      exact .done

/-- **Which inputs keep `process_cmd` inside.** In every state and whatever lies around the
buffer it ends after at most one round a byte, each round moves on by six bytes or more, and
all that is dispatched lies within the buffer, if and only if the buffer is well framed. -/
theorem stays_inside_iff (buffer : Bytes) :
    (∀ (env : Nat → Shared → Shared) (around : Int → Byte) (sock : Nat) (opts : NastOptions)
      (srv : Shared), StaysInside env (bufMem buffer around) sock buffer.length opts srv) ↔
      WellFramed buffer := by
  constructor
  · intro h
    exact wellFramed_of_rounds (h (fun _ _ => quietServer) (fun _ => NASTCMD) 0 defaultOpts
      quietServer) buffer.length ⟨0, 0, defaultOpts, quietServer⟩ buffer (Nat.le_refl _) .refl
      (Int.le_refl 0) rfl
  · intro h env around sock opts srv
    exact h.staysInside env around sock opts srv

/-- An OPTGET of length 0 is dispatched for ever. -/
theorem zero_length_loops (env : Nat → Shared → Shared) (around : Int → Byte) (sock : Nat)
    (opts : NastOptions) (srv : Shared) (fuel : Nat) :
    processCmd env (bufMem [0, 0, 0, 1, NASTCMD, NASTOPTGET] around) sock 6 fuel opts srv =
      none := by
  obtain ⟨hlen, hmark, hrest⟩ := at_head (bufMem_at [0, 0, 0, 1, NASTCMD, NASTOPTGET] around)
  obtain ⟨hcmd, -⟩ := at_cons hrest
  rw [show short (ntohs 0 0) = 0 by decide] at hlen
  have hloop : ∀ (fuel i : Nat) (srv : Shared),
      processLoop env (bufMem [0, 0, 0, 1, NASTCMD, NASTOPTGET] around) sock 6 fuel 0 i opts srv
        = none := by
    intro fuel
    induction fuel with
    | zero => intro i srv; rfl
    | succ fuel ih =>
      intro i srv
      have hhandled : ∃ reqid, Round.handled env
          (bufMem [0, 0, 0, 1, NASTCMD, NASTOPTGET] around) sock ⟨0, i, opts, srv⟩
            = (doOptGet reqid opts, opts, env i srv) := by
        refine ⟨ntohs (bufMem [0, 0, 0, 1, NASTCMD, NASTOPTGET] around (0 + 2))
          (bufMem [0, 0, 0, 1, NASTCMD, NASTOPTGET] around (0 + 3)), ?_⟩
        unfold Round.handled
        dsimp only
        rw [hcmd]
        rfl
      obtain ⟨reqid, hhandled⟩ := hhandled
      have hnext : Round.next env (bufMem [0, 0, 0, 1, NASTCMD, NASTOPTGET] around) sock 6
          ⟨0, i, opts, srv⟩ = some ⟨0, i + 1, opts, env i srv⟩ := by
        refine Round.next_eq_some.mpr ⟨⟨show (0 : Int) < 6 by decide, hmark⟩, ?_, ?_, ?_⟩
        · dsimp only
          rw [hcmd]
          exact fun h => absurd h.2 (by decide)
        · rw [hhandled, doOptGet_rc]
          decide
        · rw [hhandled]
          dsimp only
          rw [hlen]
          rfl
      refine (processLoop_next hnext fuel).trans ?_
      show Option.map _ (processLoop env _ sock 6 fuel 0 (i + 1) opts (env i srv)) = none
      rw [ih]
      rfl
  exact hloop fuel 0 srv

/-- So not every input keeps `process_cmd` inside. -/
theorem process_cmd_loops :
    ¬ ∀ (buffer : Bytes), 6 ≤ buffer.length → buffer.length ≤ 1024 →
      ∀ (env : Nat → Shared → Shared) (around : Int → Byte) (sock : Nat) (opts : NastOptions)
        (srv : Shared), StaysInside env (bufMem buffer around) sock buffer.length opts srv := by
  intro h
  have hends := (h [0, 0, 0, 1, NASTCMD, NASTOPTGET] (by decide) (by decide) (fun _ srv => srv)
    (fun _ => 0) 3 defaultOpts quietServer).ends
  rw [show [0, 0, 0, 1, NASTCMD, NASTOPTGET].length = 6 from rfl, zero_length_loops] at hends
  exact absurd hends (by simp)

end Nastd.Server
