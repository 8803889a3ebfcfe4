import Nastd.Client.ResultMemory
import Nastd.Client.Calls
import Nastd.Lib.Run

/-!
# Where `nast_errmsg` puts the message

After an error of the server's, `nast_errmsg` of `client/nastapi.c` builds the result once more,
frees the message it made before, and copies the first string into a new block. That is as
long as the string, so there is no NUL in it unless the server sent one, and who reads the
message as a string reads on behind it (`Report.errmsg_terminated`). Any of the allocations
can fail.

If it is one of `build_result`, that has set `NAST_NOMEM`, and this is what the next call says. If
it is the one for the message, the result that was built is lost.

* `Report`: what the caller is told, without any memory, but with the shortages of it.
* `nastErrmsg_report`: with none of them, it is `nastErrmsg`.
* `errmsg_memory`: whatever the response goes through, there are shortages that explain
  what is said and what is lost.
-/

namespace Nastd.Client

open Nastd.Lib

/-- What `nast_errmsg` looks at in a response; `buff` is what there is up to `bufflen`. -/
structure ErrmsgAt where
  buff : Bytes
  errmsg : Option Nat
  errcode : Errcode
  deriving DecidableEq

/-- What happens to a response. -/
inductive ErrmsgOp where
  /-- Anything that sets its code and its buffer. -/
  | changed (errcode : Errcode) (buff : Bytes)
  /-- `nast_errmsg`. -/
  | errmsg

section Functions

variable (al : Allocator)

/-- `nast_errmsg`: the bytes of the block it returns, and what is allocated. `build_result` sets
the code when an allocation fails. -/
def nastErrmsgBlocks (m : Blocks) (ar : ErrmsgAt) : Option (Bytes × ErrmsgAt × Blocks) :=
  if ar.errcode = .NAST_SERVER_ERR then
    match buildResultBlocks al m ar.buff with
    | none => none
    | some (none, m) =>
      some (nastErrmsgs .NAST_UNKNOWN_RESPONSE, { ar with errcode := .NAST_NOMEM }, m)
    | some (some aa, m) =>
      match aa.strings with
      | [] => some (nastErrmsgs .NAST_UNKNOWN_RESPONSE, ar, m)
      | none :: _ => none
      | some item :: _ =>
        match m.free ar.errmsg with
        | none => none
        | some m =>
          match m.malloc al item.data.length with
          -- `aa` is not freed here
          | (none, m) => some (nastErrmsgs .NAST_UNKNOWN_RESPONSE, { ar with errmsg := none }, m)
          | (some a, m) =>
            (nastFreeResult aa m).map fun m => (item.data, { ar with errmsg := some a }, m)
  else some (nastErrmsgs ar.errcode, ar, m)

/-- One step of a response and the memory; a change says nothing. -/
def errmsgStep (s : ErrmsgAt × Blocks) : ErrmsgOp → Option (Bytes × ErrmsgAt × Blocks)
  | .changed errcode buff => some ([], { s.1 with errcode := errcode, buff := buff }, s.2)
  | .errmsg => nastErrmsgBlocks al s.2 s.1

end Functions

/-! ## What the caller is told -/

/-- What a report cannot do without: the result, or the copy of its message. -/
inductive Shortage where
  | result
  | message
  deriving DecidableEq

/-- A response without its memory. -/
structure Report where
  errcode : Errcode
  buff : Bytes

namespace Report

/-- The bytes of the message, when there is memory for it. -/
def errmsg (t : Report) : Bytes :=
  if t.errcode = .NAST_SERVER_ERR then (buildResult t.buff).headD [] else nastErrmsgs t.errcode

/-- What one step says, with the shortage it meets. A shortage matters to a message of the server's
only. -/
def step (t : Report) : ErrmsgOp × Option Shortage → Bytes × Report
  | (.changed errcode buff, _) => ([], ⟨errcode, buff⟩)
  | (.errmsg, none) => (t.errmsg, t)
  | (.errmsg, some shortage) =>
    if t.errcode = .NAST_SERVER_ERR then
      match shortage with
      | .result => (nastErrmsgs .NAST_UNKNOWN_RESPONSE, { t with errcode := .NAST_NOMEM })
      | .message => (nastErrmsgs .NAST_UNKNOWN_RESPONSE, t)
    else (t.errmsg, t)

/-- A message can be read as a string unless it is the server's and has no NUL in it. -/
theorem errmsg_terminated (t : Report) :
    0 ∈ t.errmsg ↔ t.errcode ≠ .NAST_SERVER_ERR ∨ 0 ∈ (buildResult t.buff).headD [] := by
  unfold errmsg
  by_cases h : t.errcode = .NAST_SERVER_ERR
  · rw [if_pos h]
    exact (or_iff_right (not_not.mpr h)).symm
  · rw [if_neg h]
    refine iff_of_true ?_ (Or.inl h)
    cases hcode : t.errcode with
    | NAST_SERVER_ERR => exact absurd hcode h
    | _ => exact List.mem_append_right _ (List.mem_singleton_self _)

end Report

def ErrmsgAt.report (ar : ErrmsgAt) : Report := ⟨ar.errcode, ar.buff⟩

theorem buildResultLoop_ne_nil (cur l : Bytes) : buildResultLoop cur l ≠ [] := by
  induction l generalizing cur with
  | nil => exact List.cons_ne_nil _ _
  | cons b rest ih =>
    unfold buildResultLoop
    split
    · exact List.cons_ne_nil _ _
    · exact ih _

/-- There is always a first piece. -/
theorem buildResult_cons (buff : Bytes) : ∃ text rest, buildResult buff = text :: rest :=
  List.exists_cons_of_ne_nil (buildResultLoop_ne_nil [] buff)

/-- The report is what the library says about the response in the slot. -/
theorem nastErrmsg_report {s : Nasth} {tid : UInt16} {ar : NastResponse} {buff : Bytes}
    (htid : tid ≠ 0) (hslot : s.slot tid = some ar) (hbytes : ar.bytes = some buff) :
    nastErrmsg s tid = some (Report.errmsg ⟨ar.errcode, buff⟩) := by
  obtain ⟨text, rest, hpieces⟩ := buildResult_cons buff
  have hgeterr : nastGeterr s tid = some ar.errcode := by
    unfold nastGeterr
    rw [if_neg htid, hslot]
  have hresult : nastGetResult s tid = some (some (text :: rest)) := by
    unfold nastGetResult
    rw [if_neg htid, hslot]
    dsimp only
    rw [hbytes, Option.map_some, hpieces]
  unfold nastErrmsg Report.errmsg
  rw [hgeterr, hresult, hpieces]
  dsimp only
  split <;> rfl

/-! ## One call -/

section Memory

variable {al : Allocator} {m : Blocks} {others : Finset Nat} {own : Multiset Nat} {ar : ErrmsgAt}
  {n : Nat}

/-- What one step does: it says what the report says with that shortage, for which a call has
failed, and without one nothing is lost. -/
structure Explains (al : Allocator) (n : Nat) (others : Finset Nat) (own : Multiset Nat)
    (ar : ErrmsgAt) (m : Blocks) (op : ErrmsgOp) (shortage : Option Shortage) (text : Bytes)
    (ar' : ErrmsgAt) (m' : Blocks) : Prop where
  said : ar.report.step (op, shortage) = (text, ar'.report)
  short : ar'.buff.length ≤ n
  lost : ∃ lost : Multiset Nat, m'.Holds others (↑ar'.errmsg.toList + (lost + own)) ∧
    Multiset.card lost ≤ if shortage.isSome then 2 * n + 4 else 0
  calls : m.calls ≤ m'.calls
  why : shortage.isSome → 0 < al.failures m.calls m'.calls

/-- `items[0]`. -/
theorem Built.first {aa : ArrayAt} {text : Bytes} {rest : List Bytes}
    (h : Built others aa m (text :: rest)) :
    ∃ item strings, aa.strings = some item :: strings ∧ item.data = text := by
  have htexts := h.texts
  unfold ArrayAt.texts at htexts
  rw [List.map_cons] at htexts
  obtain ⟨r, strings, hstrings, hfirst, -⟩ := List.map_eq_cons_iff.mp htexts
  obtain ⟨item, rfl, hdata⟩ := Option.map_eq_some_iff.mp hfirst
  exact ⟨item, strings, hstrings, hdata⟩

theorem Built.card_le {aa : ArrayAt} {done : List Bytes} (h : Built others aa m done) :
    Multiset.card aa.blocks ≤ 2 * done.length + 2 := by
  have hitems : aa.items.toList.length ≤ 1 := by
    cases aa.items <;> simp
  rw [card_blocks, h.texts, countP_some]
  omega

theorem LeftBehind.card_le {live : Finset Nat} {k f : Nat} (h : LeftBehind live m k f) :
    Multiset.card (m.live \ live).val ≤ 2 * k := by
  have hcard : (m.live \ live).card = m.live.card - live.card := Finset.card_sdiff_of_subset h.kept
  rw [Finset.card_val, hcard]
  rcases h.lost with ⟨-, hlive⟩ | ⟨i, hi, -, -, hlost⟩
  · rw [hlive, Nat.sub_self]
    exact Nat.zero_le _
  · have hle : lostWith f i ≤ 2 * i + 2 := by
      unfold lostWith
      split <;> omega
    omega

/-- With the result at hand: only the copy of the message can fail. -/
theorem nastErrmsgBlocks_built {aa : ArrayAt} {m₁ : Blocks}
    (h : m.Holds others (↑ar.errmsg.toList + own)) (hbuff : ar.buff.length ≤ n) (hn : n < 0x8000)
    (herr : ar.errcode = .NAST_SERVER_ERR)
    (hbuild : buildResultBlocks al m ar.buff = some (some aa, m₁))
    (hbuilt : Built m.live aa m₁ (buildResult ar.buff)) (hcalls₁ : m.calls ≤ m₁.calls) :
    ∃ shortage text ar' m', nastErrmsgBlocks al m ar = some (text, ar', m') ∧
      Explains al n others own ar m .errmsg shortage text ar' m' := by
  obtain ⟨hlengths, hcount⟩ := buildResultLoop_bounds [] ar.buff
  obtain ⟨text, rest, hpieces⟩ := buildResult_cons ar.buff
  have hlost : Multiset.card aa.blocks ≤ 2 * n + 4 := by
    have hle := hbuilt.card_le
    unfold buildResult at hle
    omega
  have hsize : text.length ≤ ptrdiffMax := by
    have hmem : text ∈ buildResult ar.buff := by
      rw [hpieces]
      exact List.mem_cons_self ..
    have hle := hlengths text hmem
    rw [List.length_nil] at hle
    unfold ptrdiffMax
    omega
  -- the old message is freed while the array is still there
  have hheld₁ := h.more hbuilt.held
  rw [add_left_comm] at hheld₁
  have hall := hbuilt.all
  have hok := hbuilt.ok
  rw [hpieces] at hbuilt
  obtain ⟨item, strings, hstrings, hdata⟩ := hbuilt.first
  obtain ⟨m₂, hfree, hcalls₂, hheld₂⟩ := hheld₁.frees_ptr
  unfold nastErrmsgBlocks
  rw [if_pos herr, hbuild]
  dsimp only
  rw [hstrings]
  dsimp only
  rw [hfree, hdata]
  dsimp only
  cases hfails : al.fails m₂.calls with
  | true =>
    obtain ⟨m', hmalloc, hcalls', hheld'⟩ := hheld₂.malloc_fails text.length hfails
    rw [hmalloc]
    refine ⟨some .message, _, _, m', rfl, ?_, hbuff, ⟨aa.blocks, ?_, hlost⟩, by omega,
      fun _ => Allocator.failures_pos (by omega) (by omega) hfails⟩
    · exact if_pos herr
    · exact hheld'.trans (congrArg _ (zero_add _).symm)
  | false =>
    obtain ⟨a, m₃, hmalloc, hcalls₃, hheld₃⟩ := hheld₂.malloc_gives hfails hsize
    rw [← Multiset.add_cons] at hheld₃
    obtain ⟨m', hfreed, hcalls', hheld'⟩ := nastFreeResult_all hheld₃ hok hall
    rw [hmalloc]
    dsimp only
    rw [hfreed]
    refine ⟨none, _, _, m', rfl, ?_, hbuff, ⟨0, ?_, Nat.le_refl _⟩, by omega, by simp⟩
    · show (ar.report.errmsg, ar.report) = (text, ar.report)
      unfold Report.errmsg ErrmsgAt.report
      rw [if_pos herr, hpieces]
      rfl
    · rw [zero_add]
      exact hheld'

variable (al) in
theorem nastErrmsgBlocks_explains (h : m.Holds others (↑ar.errmsg.toList + own))
    (hbuff : ar.buff.length ≤ n) (hn : n < 0x8000) :
    ∃ shortage text ar' m', nastErrmsgBlocks al m ar = some (text, ar', m') ∧
      Explains al n others own ar m .errmsg shortage text ar' m' := by
  by_cases herr : ar.errcode = .NAST_SERVER_ERR
  · rcases buildResultBlocks_ends al m (Nat.lt_of_le_of_lt hbuff hn) with
      ⟨aa, m₁, hbuild, hbuilt, hcalls₁, -⟩ | ⟨m₁, f, hbuild, -, -, hfails, hlater, hleft⟩
    · exact nastErrmsgBlocks_built h hbuff hn herr hbuild hbuilt (by omega)
    · unfold nastErrmsgBlocks
      rw [if_pos herr, hbuild]
      refine ⟨some .result, _, _, m₁, rfl, ?_, hbuff, ⟨(m₁.live \ m.live).val, ?_, ?_⟩, by omega,
        fun _ => Allocator.failures_pos (Nat.le_add_right ..) hlater hfails⟩
      · exact if_pos herr
      · rw [add_left_comm]
        exact h.more (Blocks.holds_sdiff hleft.kept)
      · have hcount : (buildResult ar.buff).length ≤ ar.buff.length + 1 :=
          (buildResultLoop_bounds [] ar.buff).2
        have hle := hleft.card_le
        rw [Option.isSome_some, if_pos rfl]
        omega
  · unfold nastErrmsgBlocks
    rw [if_neg herr]
    refine ⟨none, _, ar, m, rfl, ?_, hbuff, ⟨0, ?_, Nat.le_refl _⟩, Nat.le_refl _, by simp⟩
    · show (ar.report.errmsg, ar.report) = _
      unfold Report.errmsg
      exact congrArg (·, ar.report) (if_neg herr)
    · rw [zero_add]
      exact h

variable (al) in
/-- A change leaves the memory alone. -/
theorem errmsgStep_explains {op : ErrmsgOp} (h : m.Holds others (↑ar.errmsg.toList + own))
    (hbuff : ar.buff.length ≤ n) (hn : n < 0x8000)
    (hop : ∀ errcode buff, op = .changed errcode buff → buff.length ≤ n) :
    ∃ shortage text ar' m', errmsgStep al (ar, m) op = some (text, ar', m') ∧
      Explains al n others own ar m op shortage text ar' m' := by
  cases op with
  | changed errcode buff =>
    refine ⟨none, [], _, m, rfl, rfl, hop errcode buff rfl, ⟨0, ?_, Nat.le_refl _⟩,
      Nat.le_refl _, by simp⟩
    rw [zero_add]
    exact h
  | errmsg => exact nastErrmsgBlocks_explains al h hbuff hn

/-! ## A whole run -/

/-- What holds after a run with these shortages, from call `start` on. -/
structure Accounted (al : Allocator) (n start : Nat) (others : Finset Nat)
    (shortages : List (Option Shortage)) (s : ErrmsgAt × Blocks) (t : Report) : Prop where
  report : s.1.report = t
  short : s.1.buff.length ≤ n
  lost : ∃ lost : Multiset Nat, s.2.Holds others (↑s.1.errmsg.toList + lost) ∧
    Multiset.card lost ≤ (2 * n + 4) * shortages.countP Option.isSome
  calls : start ≤ s.2.calls
  why : shortages.countP Option.isSome ≤ al.failures start s.2.calls

theorem accounted_step {shortages : List (Option Shortage)} {s : ErrmsgAt × Blocks} {t : Report}
    {op : ErrmsgOp} {start : Nat} (hn : n < 0x8000)
    (hop : ∀ errcode buff, op = .changed errcode buff → buff.length ≤ n)
    (h : Accounted al n start others shortages s t) :
    ∃ shortage s', errmsgStep al s op = some ((t.step (op, shortage)).1, s') ∧
      Accounted al n start others (shortages ++ [shortage]) s' (t.step (op, shortage)).2 := by
  obtain ⟨ar, m⟩ := s
  obtain ⟨rfl, hbuff, ⟨lost, hheld, hcard⟩, hcalls, hwhy⟩ := h
  obtain ⟨shortage, text, ar', m', hstep, hsaid, hbuff', ⟨lost', hheld', hcard'⟩, hcalls',
    hwhy'⟩ := errmsgStep_explains al hheld hbuff hn hop
  refine ⟨shortage, (ar', m'), ?_⟩
  dsimp only
  rw [hsaid]
  refine ⟨hstep, rfl, hbuff', ⟨lost' + lost, hheld', ?_⟩, hcalls.trans hcalls', ?_⟩
  · rw [Multiset.card_add, List.countP_append, List.countP_singleton, Nat.mul_add, Nat.add_comm]
    refine Nat.add_le_add hcard (hcard'.trans (Nat.le_of_eq ?_))
    split <;> simp
  · rw [List.countP_append, List.countP_singleton, Allocator.failures_add hcalls hcalls']
    refine Nat.add_le_add hwhy ?_
    split
    next hsome => exact hwhy' hsome
    next => exact Nat.zero_le _

end Memory

/-- **The server's message, over and over.** Whatever codes and buffers (of up to `n` bytes) a
new response goes through, and whichever allocations fail, every `nast_errmsg` ends, without
freeing anything that belongs to others. There are shortages, not more than calls that failed,
that explain all that is said; and but for what these lose, at most `2 * n + 4` blocks each, the
message that the response has is the only block that is left. -/
theorem errmsg_memory (al : Allocator) (m : Blocks) {n : Nat} {ops : List ErrmsgOp}
    (hn : n < 0x8000) (hops : ∀ errcode buff, .changed errcode buff ∈ ops → buff.length ≤ n) :
    ∃ shortages ar m' lost, shortages.length = ops.length ∧
      runs (errmsgStep al) (⟨[], none, .NAST_OK⟩, m) ops
        = some ((runsTotal Report.step ⟨.NAST_OK, []⟩ (ops.zip shortages)).1, ar, m') ∧
      shortages.countP Option.isSome ≤ al.failures m.calls m'.calls ∧
      m'.Holds m.live (↑ar.errmsg.toList + lost) ∧
      Multiset.card lost ≤ (2 * n + 4) * shortages.countP Option.isSome := by
  have hstart : Accounted al n m.calls m.live [] (⟨[], none, .NAST_OK⟩, m) ⟨.NAST_OK, []⟩ :=
    ⟨rfl, Nat.zero_le _, ⟨0, Blocks.holds_zero.mpr rfl, Nat.zero_le _⟩, Nat.le_refl _,
      Nat.zero_le _⟩
  have hshort : ∀ op ∈ ops, ∀ errcode buff, op = .changed errcode buff → buff.length ≤ n := by
    rintro op hop errcode buff rfl
    exact hops errcode buff hop
  obtain ⟨shortages, ⟨ar, m'⟩, hlen, hrun, -, -, ⟨lost, hheld, hcard⟩, -, hwhy⟩ :=
    runs_refines_choices (fun _ _ _ _ hop h => accounted_step hn hop h) hshort hstart
  exact ⟨shortages, ar, m', lost, hlen, hrun, hwhy, hheld, hcard⟩

/-- Asked twice, with memory for everything: the first copy is not there any more. -/
theorem errmsg_memory_twice : ∃ ar m',
    runs (errmsgStep (.above fun _ => false)) (⟨[], none, .NAST_OK⟩, ⟨∅, 0⟩)
        [.changed .NAST_SERVER_ERR (ascii "no"), .errmsg, .errmsg]
      = some ([[], ascii "no", ascii "no"], ar, m') ∧ m'.live.card ≤ 1 := by
  have hops : ∀ errcode buff, .changed errcode buff
      ∈ [.changed .NAST_SERVER_ERR (ascii "no"), .errmsg, ErrmsgOp.errmsg] → buff.length ≤ 2 := by
    intro errcode buff hmem
    simp only [List.mem_cons, List.not_mem_nil, ErrmsgOp.changed.injEq, reduceCtorEq,
      or_false] at hmem
    rw [hmem.2]
    exact Nat.le_refl 2
  obtain ⟨shortages, ar, m', lost, hlen, hrun, hwhy, hheld, hcard⟩ :=
    errmsg_memory (.above fun _ => false) ⟨∅, 0⟩ (by decide) hops
  have hnever : ∀ n n', Allocator.failures (.above fun _ => false) n n' = 0 := fun n n' =>
    Finset.card_eq_zero.mpr (Finset.filter_false_of_mem fun _ _ => Bool.false_ne_true)
  rw [hnever] at hwhy
  match shortages with
  | [none, none, none] =>
    refine ⟨ar, m', hrun, ?_⟩
    have hlost : Multiset.card lost = 0 := Nat.le_zero.mp hcard
    have hone : ar.errmsg.toList.length ≤ 1 := by
      cases ar.errmsg <;> simp
    rw [hheld.card, Multiset.card_add, hlost]
    exact Nat.le_trans (Nat.le_of_eq (Nat.zero_add _)) hone
  | [none, none, some _] => simp at hwhy
  | [none, some _, _] => simp at hwhy
  | [some _, _, _] => simp at hwhy

end Nastd.Client
