import Nastd.Lib.Blocks
import Nastd.Server.UpdateWire

/-!
# The memory of the server's arrays

`string_new`, `va_array_add` and `array_delete` of `server/array.c`, and `build_array` and
`send_response` of `server/nastdio.c` over them, with each block that they allocate and free, and
with any allocation failing.

The code is not that of the client. `string_new` keeps the string when there is no memory for
what it says, so that one is lost; `array_delete` takes NULL among the items. But `va_array_add`
overwrites `items` with what `realloc` returns, and `array_delete` then looks for the items it
counts behind NULL.

* `addOne_adds`: what one round of `va_array_add` can do.
* `build_array_memory`: which failing call is survived, and what it costs.
* `send_response_memory`: a response that is one text.
-/

namespace Nastd.Server.ArrayMem

open Nastd.Lib

/-- A `string_t` in memory; `strlen` is the length of its data. -/
structure StringAt where
  block : Nat
  str : Nat
  data : Bytes
  deriving DecidableEq

/-- What is in `items[i]`; `junk` where memory that was never written, or is gone, is read. -/
inductive Slot where
  | null
  | junk
  | string (s : StringAt)
  deriving DecidableEq

/-- An `array_t` in memory: `slots` are allocated behind `items`, and `nitems` of them are
in use. -/
structure ArrayAt where
  self : Nat
  items : Option Nat
  slots : Nat
  strings : List Slot
  deriving DecidableEq

def ArrayAt.nitems (aa : ArrayAt) : Nat := aa.strings.length

/-! ## The functions -/

section Functions

variable (al : Allocator)

/-- `string_new`. -/
def stringNew (m : Blocks) (str : Bytes) : Option StringAt × Blocks :=
  match m.malloc al 16 with
  | (none, m) => (none, m)
  | (some tmp, m) =>
    match m.malloc al (8 * str.length) with
    | (none, m) => (none, m)
    | (some p, m) => (some ⟨tmp, p, str⟩, m)

/-- `string_delete`. -/
def stringDelete (s : StringAt) (m : Blocks) : Option Blocks :=
  (m.free (some s.str)).bind fun m => m.free (some s.block)

/-- `array_new`. -/
def arrayNew (m : Blocks) : Option ArrayAt × Blocks :=
  let r := m.malloc al 16
  (r.1.map fun aa => ⟨aa, none, 0, []⟩, r.2)

/-- A round of the loop of `va_array_add`, from `aa->nitems++` on. -/
def putOne (m : Blocks) (aa : ArrayAt) (str : Bytes) : Option (Int × ArrayAt × Blocks) :=
  if aa.nitems < aa.slots then
    match stringNew al m str with
    | (none, m) => some (-1, { aa with strings := aa.strings ++ [.null] }, m)
    | (some s, m) => some (0, { aa with strings := aa.strings ++ [.string s] }, m)
  else none

/-- A round of the loop of `va_array_add`. -/
def addOne (m : Blocks) (aa : ArrayAt) (str : Bytes) : Option (Int × ArrayAt × Blocks) :=
  if aa.nitems % 10 = 0 then
    match m.realloc al aa.items (8 * (10 + aa.nitems)) with
    | none => none
    | some (none, m) =>
      some (-1, { aa with items := none, slots := 0, strings := aa.strings.map fun _ => .junk },
        m)
    | some (some items, m) =>
      putOne al m { aa with items := some items, slots := 10 + aa.nitems } str
  else putOne al m aa str

/-- `va_array_add`; the strings are its arguments before `ARRTERM`. -/
def vaArrayAdd : List Bytes → ArrayAt → Blocks → Option (Int × ArrayAt × Blocks)
  | [], aa, m => some (0, aa, m)
  | str :: rest, aa, m =>
    match addOne al m aa str with
    | none => none
    | some (rc, aa, m) => if rc = -1 then some (-1, aa, m) else vaArrayAdd rest aa m

/-- The loop of `array_delete`. -/
def deleteSlots : List Slot → Blocks → Option Blocks
  | [], m => some m
  | .null :: rest, m => deleteSlots rest m
  | .junk :: _, _ => none
  | .string s :: rest, m => (stringDelete s m).bind (deleteSlots rest)

/-- `array_delete`. With `items` NULL there must be nothing to delete. -/
def arrayDelete (aa : ArrayAt) (m : Blocks) : Option Blocks :=
  match aa.items with
  | none => if aa.strings = [] then m.free (some aa.self) else none
  | some items =>
    ((deleteSlots aa.strings m).bind fun m => m.free (some items)).bind fun m =>
      m.free (some aa.self)

/-- The loop of `build_array`: `cur` is what lies between `sp` and `ep`. NULL when an item cannot be
added. -/
def buildArrayBlocksLoop : Bytes → Bytes → ArrayAt → Blocks → Option (Option ArrayAt × Blocks)
  | cur, [], aa, m =>
    if cur.length > 0 then
      match vaArrayAdd al [cur] aa m with
      | none => none
      | some (rc, aa, m) =>
        if rc = -1 then (arrayDelete aa m).map fun m => (none, m) else some (some aa, m)
    else some (some aa, m)
  | cur, b :: rest, aa, m =>
    if b = NASTSEP ∧ cur.length > 0 then
      match vaArrayAdd al [cur] aa m with
      | none => none
      | some (rc, aa, m) =>
        if rc = -1 then (arrayDelete aa m).map fun m => (none, m)
        else buildArrayBlocksLoop [] rest aa m
    else buildArrayBlocksLoop (cur ++ [b]) rest aa m

/-- `build_array`. -/
def buildArrayBlocks (m : Blocks) (buff : Bytes) : Option (Option ArrayAt × Blocks) :=
  match arrayNew al m with
  | (none, m) => some (none, m)
  | (some aa, m) => buildArrayBlocksLoop al [] buff aa m

/-- `send_response`: NULL is added to, or read from, where `array_new` fails. What
`arr_send_response` does leaves the memory as it is. -/
def sendResponseBlocks (m : Blocks) (strs : List Bytes) : Option Blocks :=
  match arrayNew al m with
  | (none, _) => none
  | (some aa, m) =>
    match vaArrayAdd al strs aa m with
    | none => none
    | some (_, aa, m) => arrayDelete aa m

end Functions

/-! ## What is allocated -/

/-- The blocks behind `items[i]`. -/
def slotBlocks : Slot → Multiset Nat
  | .string s => s.str ::ₘ {s.block}
  | _ => 0

namespace ArrayAt

/-- The blocks of an array. -/
def blocks (aa : ArrayAt) : Multiset Nat :=
  aa.self ::ₘ (↑aa.items.toList + (aa.strings.map slotBlocks).sum)

/-- What the items say. -/
def texts (aa : ArrayAt) : List Bytes :=
  aa.strings.filterMap fun
    | .string s => some s.data
    | _ => none

end ArrayAt

/-- An array that nothing went wrong with. -/
structure Built (others : Finset Nat) (aa : ArrayAt) (m : Blocks) (done : List Bytes) : Prop where
  strings : ∃ ss : List StringAt, aa.strings = ss.map .string ∧ ss.map StringAt.data = done
  slots : aa.slots = (done.length + 9) / 10 * 10
  empty : aa.items = none ↔ done = []
  held : m.Holds others aa.blocks

/-- What one round of `va_array_add` can do: add the string, fail to make room for it, or
fail to make it, with its block lost or not. -/
inductive Adds (al : Allocator) (others : Finset Nat) (m : Blocks) (done : List Bytes)
    (str : Bytes) : Int → ArrayAt → Blocks → Prop
  | added {aa' : ArrayAt} {m' : Blocks} :
      m'.calls = m.calls + ((if done.length % 10 = 0 then 1 else 0) + 2) →
      al.Quiet m.calls m'.calls → Built others aa' m' (done ++ [str]) →
      Adds al others m done str 0 aa' m'
  | noRoom {aa' : ArrayAt} {m' : Blocks} : done.length % 10 = 0 → al.fails m.calls = true →
      aa'.items = none → aa'.strings.length = done.length →
      (done = [] → m'.Holds others aa'.blocks) → Adds al others m done str (-1) aa' m'
  | noString {aa' : ArrayAt} {m' : Blocks} (k : Nat) (lost : Multiset Nat) :
      aa'.items ≠ none → .junk ∉ aa'.strings →
      k < 2 → al.Quiet m.calls (m.calls + (if done.length % 10 = 0 then 1 else 0) + k) →
      al.fails (m.calls + (if done.length % 10 = 0 then 1 else 0) + k) = true →
      Multiset.card lost = k → m'.Holds others (lost + aa'.blocks) →
      Adds al others m done str (-1) aa' m'

section Memory

variable {al : Allocator} {m : Blocks} {others : Finset Nat} {own : Multiset Nat} {aa : ArrayAt}
  {str : Bytes} {done : List Bytes}

variable (al) in
/-- `string_new`: the string, or not, and then its block is lost if there was one. -/
theorem stringNew_ends (h : m.Holds others own) (hsmall : str.length < 0x80000000) :
    (∃ m' k lost, stringNew al m str = (none, m') ∧ k < 2 ∧ al.Quiet m.calls (m.calls + k) ∧
      al.fails (m.calls + k) = true ∧ Multiset.card lost = k ∧ m'.Holds others (lost + own)) ∨
    ∃ s m', stringNew al m str = (some s, m') ∧ m'.calls = m.calls + 2 ∧
      al.Quiet m.calls (m.calls + 2) ∧ s.data = str ∧
      m'.Holds others (slotBlocks (.string s) + own) := by
  unfold stringNew
  cases hfirst : al.fails m.calls with
  | true =>
    obtain ⟨m₁, hmalloc, -, hheld⟩ := h.malloc_fails 16 hfirst
    rw [hmalloc]
    refine Or.inl ⟨m₁, 0, 0, rfl, by decide, Allocator.quiet_self, hfirst, rfl, ?_⟩
    rwa [zero_add]
  | false =>
    obtain ⟨tmp, m₁, hmalloc, hcalls, hheld⟩ := h.malloc_gives hfirst sixteen_le
    rw [hmalloc]
    dsimp only
    have hfits : 8 * str.length ≤ ptrdiffMax := by
      unfold ptrdiffMax
      omega
    have hquiet := Allocator.quiet_succ.mpr hfirst
    cases hsecond : al.fails m₁.calls with
    | true =>
      obtain ⟨m₂, hnull, -, hheld₂⟩ := hheld.malloc_fails (8 * str.length) hsecond
      rw [hnull]
      rw [hcalls] at hsecond
      refine Or.inl ⟨m₂, 1, {tmp}, rfl, by decide, hquiet, hsecond, rfl, ?_⟩
      rwa [Multiset.singleton_add]
    | false =>
      obtain ⟨p, m₂, hmalloc₂, hcalls₂, hheld₂⟩ := hheld.malloc_gives hsecond hfits
      rw [hmalloc₂]
      rw [hcalls] at hsecond hcalls₂
      refine Or.inr ⟨⟨tmp, p, str⟩, m₂, rfl, hcalls₂, ?_, rfl, ?_⟩
      · exact (Allocator.quiet_trans (Nat.le_succ _) (Nat.le_succ _)).mpr
          ⟨hquiet, Allocator.quiet_succ.mpr hsecond⟩
      · show m₂.Holds others ((p ::ₘ {tmp}) + own)
        rwa [Multiset.cons_add, Multiset.singleton_add]

theorem blocks_append (aa : ArrayAt) (r : Slot) :
    ArrayAt.blocks { aa with strings := aa.strings ++ [r] } = slotBlocks r + aa.blocks := by
  unfold ArrayAt.blocks
  rw [List.map_append, List.sum_append, List.map_singleton, List.sum_singleton,
    Multiset.add_cons]
  congr 1
  abel

theorem Built.nitems (h : Built others aa m done) : aa.nitems = done.length := by
  obtain ⟨ss, hstrings, hdone⟩ := h.strings
  unfold ArrayAt.nitems
  rw [hstrings, ← hdone, List.length_map, List.length_map]

theorem Built.texts (h : Built others aa m done) : aa.texts = done := by
  obtain ⟨ss, hstrings, hdone⟩ := h.strings
  unfold ArrayAt.texts
  rw [hstrings, ← hdone, List.filterMap_map]
  exact congrFun List.filterMap_eq_map ss

/-- The string goes into an array that has room for it. -/
theorem putOne_adds {m₁ : Blocks} {aa₁ : ArrayAt} {ss : List StringAt}
    (hcalls : m₁.calls = m.calls + if done.length % 10 = 0 then 1 else 0)
    (hquiet : al.Quiet m.calls m₁.calls) (hstrings : aa₁.strings = ss.map .string)
    (hdone : ss.map StringAt.data = done) (hslots : aa₁.slots = (done.length + 10) / 10 * 10)
    (hitems : aa₁.items ≠ none) (hheld : m₁.Holds others aa₁.blocks)
    (hstr : str.length < 0x80000000) :
    ∃ rc aa' m', putOne al m₁ aa₁ str = some (rc, aa', m') ∧
      Adds al others m done str rc aa' m' := by
  have hcount : aa₁.nitems = done.length := by
    unfold ArrayAt.nitems
    rw [hstrings, ← hdone, List.length_map, List.length_map]
  have hslot : aa₁.nitems < aa₁.slots := by omega
  have hle : m.calls ≤ m₁.calls := by omega
  unfold putOne
  rw [if_pos hslot]
  rcases stringNew_ends al hheld hstr with
    ⟨m', k, lost, hstring, hk, hbefore, hfails, hcard, hheld'⟩ |
    ⟨string, m', hstring, hcalls', hquiet', hdata, hheld'⟩
  · rw [hstring]
    refine ⟨_, _, _, rfl, .noString k lost hitems ?_ hk ?_ ?_ hcard ?_⟩
    · rw [hstrings]
      simp
    · rw [← hcalls]
      exact (Allocator.quiet_trans hle (Nat.le_add_right ..)).mpr ⟨hquiet, hbefore⟩
    · rw [← hcalls]
      exact hfails
    · rw [blocks_append]
      exact hheld'.trans (congrArg (fun x => others.val + (lost + x)) (zero_add _).symm)
  · rw [hstring]
    refine ⟨_, _, _, rfl, .added ?_ ?_ ⟨⟨ss ++ [string], ?_, ?_⟩, ?_, ?_, ?_⟩⟩
    · omega
    · rw [hcalls']
      exact (Allocator.quiet_trans hle (Nat.le_add_right ..)).mpr ⟨hquiet, hquiet'⟩
    · rw [hstrings, List.map_append]
      rfl
    · rw [List.map_append, hdone, List.map_singleton, hdata]
    · rw [List.length_append]
      exact hslots
    · exact iff_of_false hitems (by simp)
    · rw [blocks_append]
      exact hheld'

variable (al) in
theorem addOne_adds (h : Built others aa m done) (hsmall : done.length < 0x80000000)
    (hstr : str.length < 0x80000000) :
    ∃ rc aa' m', addOne al m aa str = some (rc, aa', m') ∧
      Adds al others m done str rc aa' m' := by
  have hcount := h.nitems
  have hslots := h.slots
  obtain ⟨ss, hstrings, hdone⟩ := h.strings
  unfold addOne
  by_cases hfull : aa.nitems % 10 = 0
  · rw [if_pos hfull]
    rw [hcount] at hfull
    have hsplit : aa.blocks
        = ↑aa.items.toList + (aa.self ::ₘ (aa.strings.map slotBlocks).sum) := by
      unfold ArrayAt.blocks
      rw [Multiset.add_cons]
    have hheld := h.held
    rw [hsplit] at hheld
    cases hfails : al.fails m.calls with
    | true =>
      obtain ⟨m', hrealloc, -, hheld'⟩ :=
        hheld.realloc_fails (8 * (10 + aa.nitems)) hfails
      rw [hrealloc]
      refine ⟨_, _, _, rfl, .noRoom hfull hfails rfl ?_ fun hnil => ?_⟩
      · rw [List.length_map]
        exact hcount
      · -- there was nothing to lose
        have hempty := h.empty.mpr hnil
        have hss : ss = [] := List.map_eq_nil_iff.mp (hdone.trans hnil)
        rw [hempty, hstrings, hss] at hheld'
        unfold ArrayAt.blocks
        rw [hstrings, hss]
        exact hheld'
    | false =>
      have hfits : 8 * (10 + aa.nitems) ≤ ptrdiffMax := by
        unfold ptrdiffMax
        omega
      obtain ⟨items, m₁, hrealloc, hcalls, hheld'⟩ :=
        hheld.realloc_gives hfails hfits
      rw [hrealloc]
      refine putOne_adds (by rw [if_pos hfull, hcalls]) ?_ hstrings hdone ?_ (by simp) ?_
        hstr
      · rw [hcalls]
        exact Allocator.quiet_succ.mpr hfails
      · show 10 + aa.nitems = _
        omega
      · have hcomm : ArrayAt.blocks { aa with items := some items, slots := 10 + aa.nitems }
            = items ::ₘ aa.self ::ₘ (aa.strings.map slotBlocks).sum := by
          unfold ArrayAt.blocks
          rw [Option.toList_some, Multiset.coe_singleton, Multiset.singleton_add,
            Multiset.cons_swap]
        rw [hcomm]
        exact hheld'
  · rw [if_neg hfull]
    rw [hcount] at hfull
    refine putOne_adds (by rw [if_neg hfull, Nat.add_zero]) Allocator.quiet_self hstrings hdone
      ?_ ?_ h.held hstr
    · omega
    · intro hnone
      rw [h.empty.mp hnone] at hfull
      exact hfull rfl

/-! ## Freeing -/

theorem deleteSlots_all {strings : List Slot} (hjunk : .junk ∉ strings)
    (h : m.Holds others ((strings.map slotBlocks).sum + own)) :
    ∃ m', deleteSlots strings m = some m' ∧ m'.Holds others own := by
  induction strings generalizing m with
  | nil => exact ⟨m, rfl, h.trans (congrArg _ (zero_add own))⟩
  | cons r rest ih =>
    rw [List.map_cons, List.sum_cons, add_assoc] at h
    have hrest : .junk ∉ rest := fun hmem => hjunk (List.mem_cons_of_mem _ hmem)
    cases r with
    | null => exact ih hrest (h.trans (congrArg _ (zero_add _)))
    | junk => exact absurd (List.mem_cons_self ..) hjunk
    | string s =>
      have hheld : m.Holds others
          (s.str ::ₘ s.block ::ₘ ((rest.map slotBlocks).sum + own)) := by
        refine h.trans (congrArg _ ?_)
        show (s.str ::ₘ {s.block}) + _ = _
        rw [Multiset.cons_add, Multiset.singleton_add]
      obtain ⟨m₁, hstr, -, hheld₁⟩ := hheld.frees
      obtain ⟨m₂, hblock, -, hheld₂⟩ := hheld₁.frees
      obtain ⟨m', hall, hheld'⟩ := ih hrest hheld₂
      refine ⟨m', ?_, hheld'⟩
      unfold deleteSlots stringDelete
      rw [hstr, Option.bind_some, hblock, Option.bind_some, hall]

/-- `array_delete` frees what the array has, and leaves what is lost. -/
theorem arrayDelete_all (lost : Multiset Nat) (h : m.Holds others (lost + aa.blocks))
    (hempty : aa.items = none → aa.strings = []) (hjunk : .junk ∉ aa.strings) :
    ∃ m', arrayDelete aa m = some m' ∧ m'.Holds others lost := by
  unfold arrayDelete
  cases hitems : aa.items with
  | none =>
    have hown : lost + aa.blocks = aa.self ::ₘ lost := by
      unfold ArrayAt.blocks
      rw [hitems, hempty hitems, Multiset.add_cons]
      exact congrArg _ (add_zero lost)
    rw [hown] at h
    obtain ⟨m', hself, -, hheld⟩ := h.frees
    exact ⟨m', (if_pos (hempty hitems)).trans hself, hheld⟩
  | some items =>
    have hown : lost + aa.blocks
        = (aa.strings.map slotBlocks).sum + (items ::ₘ aa.self ::ₘ lost) := by
      unfold ArrayAt.blocks
      rw [hitems, Option.toList_some, Multiset.coe_singleton, Multiset.singleton_add,
        Multiset.add_cons, Multiset.add_cons, Multiset.add_cons, Multiset.add_cons,
        Multiset.cons_swap, add_comm lost]
    rw [hown] at h
    obtain ⟨m₁, hstrings, hheld₁⟩ := deleteSlots_all hjunk h
    obtain ⟨m₂, hfree, -, hheld₂⟩ := hheld₁.frees
    obtain ⟨m', hself, -, hheld⟩ := hheld₂.frees
    refine ⟨m', ?_, hheld⟩
    dsimp only
    rw [hstrings, Option.bind_some, hfree, Option.bind_some, hself]

/-- The items it counts are not there. -/
theorem arrayDelete_crash (hitems : aa.items = none) (hstrings : aa.strings ≠ []) :
    arrayDelete aa m = none := by
  unfold arrayDelete
  rw [hitems]
  exact if_neg hstrings

/-! ## Adding one string after the other -/

/-- The call makes room for more items where there are some. -/
def Regrows (n f : Nat) : Prop :=
  ∃ i, 0 < i ∧ i < n ∧ i % 10 = 0 ∧ f = itemCalls 10 2 i + 1

/-- The call is for what a string says. -/
def MakesData (n f : Nat) : Prop := ∃ i, i < n ∧ f = itemCalls 10 2 (i + 1)

theorem Regrows.ne_zero {n f : Nat} (h : Regrows n f) : f ≠ 0 := by
  obtain ⟨i, -, -, -, rfl⟩ := h
  exact Nat.succ_ne_zero _

theorem MakesData.ne_zero {n f : Nat} (h : MakesData n f) : f ≠ 0 := by
  obtain ⟨i, -, rfl⟩ := h
  rw [itemCalls_succ (by decide)]
  exact Nat.succ_ne_zero _

/-- What is left when call `f` has failed: one block if the call was for what a string says, and
nothing if it was not. -/
structure LeftOver (others : Finset Nat) (m : Blocks) (n f : Nat) : Prop where
  kept : others ⊆ m.live
  one : MakesData n f → m.live.card = others.card + 1
  nothing : ¬ MakesData n f → m.live = others

/-- How adding `n` strings can fail with call `f`: without a way to delete the array, or with
one. -/
structure Failed (others : Finset Nat) (aa : ArrayAt) (m : Blocks) (n f : Nat) : Prop where
  crash : Regrows n f → arrayDelete aa m = none
  deleted : ¬ Regrows n f → ∃ m', arrayDelete aa m = some m' ∧ LeftOver others m' n f

theorem leftOver_of_holds {lost : Multiset Nat} {n f : Nat} (h : m.Holds others lost)
    (hone : MakesData n f → Multiset.card lost = 1) (hnone : ¬ MakesData n f → lost = 0) :
    LeftOver others m n f := by
  refine ⟨?_, fun hdata => ?_, fun hdata => ?_⟩
  · rw [← Finset.val_le_iff, h]
    exact Multiset.le_add_right ..
  · rw [h.card, hone hdata]
  · rw [hnone hdata] at h
    exact Blocks.holds_zero.mp h

/-- The call that failed, and what can be done then. -/
theorem Built.failed {aa' : ArrayAt} {m' : Blocks} {start n : Nat}
    (hcalls : m.calls = start + 1 + itemCalls 10 2 done.length)
    (hbefore : al.Quiet start m.calls) (hn : done.length < n)
    (hadds : Adds al others m done str (-1) aa' m') :
    ∃ f, 0 < f ∧ f ≤ itemCalls 10 2 n ∧ al.Quiet start (start + f) ∧
      al.fails (start + f) = true ∧ Failed others aa' m' n f := by
  have hnext := itemCalls_succ (g := 10) (by decide) 2 done.length
  have hle : itemCalls 10 2 (done.length + 1) ≤ itemCalls 10 2 n := itemCalls_mono 10 2 hn
  generalize hrc : (-1 : Int) = rc at hadds
  cases hadds with
  | added => exact absurd hrc (by decide)
  | noRoom hfull hfails hitems hlength hheld =>
    rw [if_pos hfull] at hnext
    have hat : start + (itemCalls 10 2 done.length + 1) = m.calls := by omega
    refine ⟨itemCalls 10 2 done.length + 1, Nat.succ_pos _, by omega, ?_, ?_, ?_, ?_⟩
    · rwa [hat]
    · rwa [hat]
    · rintro ⟨i, hi, -, -, hsame⟩
      refine arrayDelete_crash hitems fun hnil => ?_
      rw [hnil, List.length_nil] at hlength
      unfold itemCalls at hsame
      omega
    · intro hnot
      have hnil : done = [] := by
        by_contra hne
        exact hnot ⟨done.length, List.length_pos_of_ne_nil hne, hn, hfull, rfl⟩
      have hstrings : aa'.strings = [] := List.eq_nil_of_length_eq_zero (by rw [hlength, hnil]; rfl)
      obtain ⟨m'', hdelete, hheld'⟩ := arrayDelete_all 0
        ((hheld hnil).trans (congrArg _ (zero_add _).symm)) (fun _ => hstrings)
        (by rw [hstrings]; simp)
      refine ⟨m'', hdelete, leftOver_of_holds hheld' ?_ fun _ => rfl⟩
      rintro ⟨i, -, hsame⟩
      rw [hnil] at hsame
      unfold itemCalls at hsame
      rw [List.length_nil] at hsame
      omega
  | noString k lost hitems hjunk hk hquiet hfails hcard hheld =>
    generalize hroom : (if done.length % 10 = 0 then 1 else 0) = room at *
    have hat : start + (itemCalls 10 2 done.length + 1 + room + k) = m.calls + room + k := by omega
    have hfirst : itemCalls 10 2 done.length + 1 + room + k + 1
        = itemCalls 10 2 (done.length + 1) + k := by omega
    refine ⟨itemCalls 10 2 done.length + 1 + room + k, by omega, by omega, ?_, ?_, ?_, ?_⟩
    · rw [hat]
      exact (Allocator.quiet_trans (by omega) (by omega)).mpr ⟨hbefore, hquiet⟩
    · rwa [hat]
    · -- it is too late for the call that makes room, and too early for the next one
      rintro ⟨i, -, -, hten, hsame⟩
      rcases Nat.lt_trichotomy i done.length with hlt | heq | hgt
      · have hnext' := itemCalls_succ (g := 10) (by decide) 2 i
        have hmono : itemCalls 10 2 (i + 1) ≤ itemCalls 10 2 done.length :=
          itemCalls_mono 10 2 hlt
        omega
      · rw [heq] at hten hsame
        rw [if_pos hten] at hroom
        omega
      · have hmono : itemCalls 10 2 (done.length + 1) ≤ itemCalls 10 2 i :=
          itemCalls_mono 10 2 hgt
        omega
    · intro _
      obtain ⟨m'', hdelete, hheld'⟩ :=
        arrayDelete_all lost hheld (fun hnone => absurd hnone hitems) hjunk
      refine ⟨m'', hdelete, leftOver_of_holds hheld' ?_ fun hnot => ?_⟩
      · rintro ⟨i, -, hsame⟩
        rw [hcard]
        rcases Nat.lt_or_ge i done.length with hlt | hge
        · have hmono : itemCalls 10 2 (i + 1) ≤ itemCalls 10 2 done.length :=
            itemCalls_mono 10 2 hlt
          omega
        · have hmono : itemCalls 10 2 (done.length + 1) ≤ itemCalls 10 2 (i + 1) :=
            itemCalls_mono 10 2 (Nat.succ_le_succ hge)
          omega
      · have hzero : k = 0 := by
          by_contra hne
          exact hnot ⟨done.length, hn, by omega⟩
        exact Multiset.card_eq_zero.mp (hcard.trans hzero)

/-- `va_array_add`: all strings are added, or a call fails. -/
theorem vaArrayAdd_ends {strs : List Bytes} {start : Nat} (h : Built others aa m done)
    (hcalls : m.calls = start + 1 + itemCalls 10 2 done.length)
    (hbefore : al.Quiet start m.calls) (hlen : ∀ str ∈ strs, str.length < 0x80000000)
    (hcount : done.length + strs.length < 0x80000000) :
    (∃ aa' m', vaArrayAdd al strs aa m = some (0, aa', m') ∧ Built others aa' m' (done ++ strs) ∧
      al.Quiet start (start + 1 + itemCalls 10 2 (done ++ strs).length)) ∨
    ∃ (aa' : ArrayAt) (m' : Blocks) (f : Nat), vaArrayAdd al strs aa m = some (-1, aa', m') ∧
      0 < f ∧ f ≤ itemCalls 10 2 (done ++ strs).length ∧ al.Quiet start (start + f) ∧
      al.fails (start + f) = true ∧ Failed others aa' m' (done ++ strs).length f := by
  induction strs generalizing aa m done with
  | nil =>
    rw [List.append_nil]
    exact Or.inl ⟨aa, m, rfl, h, hcalls ▸ hbefore⟩
  | cons str rest ih =>
    obtain ⟨hstr, hlen⟩ := List.forall_mem_cons.mp hlen
    rw [List.length_cons] at hcount
    obtain ⟨rc, aa₁, m₁, hadd, hadds⟩ := addOne_adds al h (by omega) hstr
    unfold vaArrayAdd
    rw [hadd]
    dsimp only
    by_cases hrc : rc = -1
    · subst hrc
      rw [if_pos rfl]
      have hn : done.length < (done ++ str :: rest).length := by
        rw [List.length_append, List.length_cons]
        omega
      obtain ⟨f, hpos, hle, hquiet, hfails, hfailed⟩ := Built.failed hcalls hbefore hn hadds
      exact Or.inr ⟨aa₁, m₁, f, rfl, hpos, hle, hquiet, hfails, hfailed⟩
    · rw [if_neg hrc]
      cases hadds with
      | noRoom => exact absurd rfl hrc
      | noString => exact absurd rfl hrc
      | added hcalls₁ hquiet hbuilt =>
        have hnext := itemCalls_succ (g := 10) (by decide) 2 done.length
        have hlength : (done ++ [str]).length = done.length + 1 := List.length_append
        rw [List.append_cons]
        refine ih hbuilt ?_ ?_ hlen ?_
        · rw [hlength]
          omega
        · exact (Allocator.quiet_trans (by omega) (by omega)).mpr ⟨hbefore, hquiet⟩
        · rw [hlength]
          omega

theorem arrayNew_gives (m : Blocks) (hfails : al.fails m.calls = false) :
    ∃ aa m', arrayNew al m = (some aa, m') ∧ m'.calls = m.calls + 1 ∧
      Built m.live aa m' [] := by
  have h : m.Holds m.live 0 := Blocks.holds_zero.mpr rfl
  obtain ⟨a, m', hmalloc, hcalls, hheld⟩ := h.malloc_gives hfails sixteen_le
  refine ⟨⟨a, none, 0, []⟩, m', ?_, hcalls, ⟨[], rfl, rfl⟩, rfl, iff_of_true rfl rfl, hheld⟩
  unfold arrayNew
  rw [hmalloc]
  rfl

theorem arrayNew_fails (m : Blocks) (hfails : al.fails m.calls = true) :
    ∃ m', arrayNew al m = (none, m') ∧ m'.live = m.live := by
  have h : m.Holds m.live 0 := Blocks.holds_zero.mpr rfl
  obtain ⟨m', hmalloc, -, hheld⟩ := h.malloc_fails 16 hfails
  refine ⟨m', ?_, Blocks.holds_zero.mp hheld⟩
  unfold arrayNew
  rw [hmalloc]
  rfl

/-- An array that is whole is deleted without a rest. -/
theorem Built.deletes (h : Built others aa m done) :
    ∃ m', arrayDelete aa m = some m' ∧ m'.live = others := by
  obtain ⟨ss, hstrings, hdone⟩ := h.strings
  have hempty : aa.items = none → aa.strings = [] := by
    intro hnone
    rw [hstrings, List.map_eq_nil_iff.mp (hdone.trans (h.empty.mp hnone))]
    rfl
  obtain ⟨m', hdelete, hheld⟩ := arrayDelete_all 0
    (h.held.trans (congrArg _ (zero_add _).symm)) hempty (by rw [hstrings]; simp)
  exact ⟨m', hdelete, Blocks.holds_zero.mp hheld⟩

/-- A new array is filled with strings. -/
theorem filled {strs : List Bytes} (hfirst : al.fails m.calls = false)
    (hlen : ∀ str ∈ strs, str.length < 0x80000000) (hcount : strs.length < 0x80000000) :
    ∃ aa m₁, arrayNew al m = (some aa, m₁) ∧
      (al.Quiet m.calls (m.calls + 1 + itemCalls 10 2 strs.length) →
        ∃ aa' m', vaArrayAdd al strs aa m₁ = some (0, aa', m') ∧ Built m.live aa' m' strs) ∧
      ∀ f, f ≤ itemCalls 10 2 strs.length → al.Quiet m.calls (m.calls + f) →
        al.fails (m.calls + f) = true →
        0 < f ∧ ∃ aa' m', vaArrayAdd al strs aa m₁ = some (-1, aa', m') ∧
          Failed m.live aa' m' strs.length f := by
  obtain ⟨aa, m₁, hnew, hcalls, hbuilt⟩ := arrayNew_gives m hfirst
  have hbefore : al.Quiet m.calls m₁.calls := by
    rw [hcalls]
    exact Allocator.quiet_succ.mpr hfirst
  have hends := vaArrayAdd_ends hbuilt hcalls hbefore hlen (by
    rw [List.length_nil]
    omega)
  rw [List.nil_append] at hends
  refine ⟨aa, m₁, hnew, ?_⟩
  rcases hends with ⟨aa', m', hadd, hbuilt', hquiet'⟩ |
    ⟨aa', m', f', hadd, hpos, hle, hquiet', hfails', hfailed⟩
  · refine ⟨fun _ => ⟨aa', m', hadd, hbuilt'⟩, fun f hf _ hfails => ?_⟩
    have hquiet := hquiet' (m.calls + f) (by omega) (by omega)
    exact absurd (hfails.symm.trans hquiet) (by simp)
  · refine ⟨fun hquiet => ?_, fun f hf hquiet hfails => ?_⟩
    · have hsucc := hquiet (m.calls + f') (by omega) (by omega)
      exact absurd (hfails'.symm.trans hsucc) (by simp)
    · obtain rfl : f = f' := by
        have hsame := Allocator.first_unique (by omega) (by omega) hquiet hfails hquiet' hfails'
        omega
      exact ⟨hpos, aa', m', hadd, hfailed⟩

/-- Only the first call can be the first that fails, if it does. -/
theorem first_call {f n : Nat} (hfirst : al.fails n = true) (hquiet : al.Quiet n (n + f)) :
    f = 0 := by
  by_contra hne
  exact absurd (hfirst.symm.trans (hquiet n (Nat.le_refl _) (by omega))) (by simp)

/-! ## `build_array` -/

/-- What `build_array` makes of what `va_array_add` returns. -/
def orDelete : Option (Int × ArrayAt × Blocks) → Option (Option ArrayAt × Blocks)
  | none => none
  | some (rc, aa, m) =>
    if rc = -1 then (arrayDelete aa m).map fun m => (none, m) else some (some aa, m)

theorem vaArrayAdd_cons (rest : List Bytes) : vaArrayAdd al (str :: rest) aa m =
    match vaArrayAdd al [str] aa m with
    | none => none
    | some (rc, aa, m) => if rc = -1 then some (-1, aa, m) else vaArrayAdd al rest aa m := by
  rw [vaArrayAdd, vaArrayAdd]
  cases addOne al m aa str with
  | none => rfl
  | some r =>
    obtain ⟨rc, aa', m'⟩ := r
    dsimp only
    by_cases hrc : rc = -1
    · rw [if_pos hrc, if_pos hrc]
      rfl
    · rw [if_neg hrc, if_neg hrc]
      rfl

theorem buildArrayBlocksLoop_eq {l cur : Bytes} :
    buildArrayBlocksLoop al cur l aa m = orDelete (vaArrayAdd al (buildLoop cur l) aa m) := by
  induction l generalizing cur aa m with
  | nil =>
    unfold buildArrayBlocksLoop buildLoop
    by_cases hcur : cur.length > 0
    · rw [if_pos hcur, if_pos hcur]
      rfl
    · rw [if_neg hcur, if_neg hcur]
      rfl
  | cons b rest ih =>
    unfold buildArrayBlocksLoop buildLoop
    by_cases hb : b = NASTSEP ∧ cur.length > 0
    · rw [if_pos hb, if_pos hb, vaArrayAdd_cons (buildLoop [] rest)]
      cases vaArrayAdd al [cur] aa m with
      | none => rfl
      | some r =>
        obtain ⟨rc, aa', m'⟩ := r
        dsimp only
        by_cases hrc : rc = -1
        · rw [if_pos hrc, if_pos hrc]
          rfl
        · rw [if_neg hrc, if_neg hrc, ih]
    · rw [if_neg hb, if_neg hb]
      exact ih

/-- The pieces are not longer than the buffer, and not more than one more than its bytes. -/
theorem buildLoop_bounds (cur l : Bytes) :
    (∀ piece ∈ buildLoop cur l, piece.length ≤ cur.length + l.length) ∧
      (buildLoop cur l).length ≤ l.length + 1 := by
  induction l generalizing cur with
  | nil =>
    unfold buildLoop
    split
    · refine ⟨fun piece hpiece => ?_, Nat.le_refl _⟩
      rw [List.mem_singleton.mp hpiece]
      exact Nat.le_add_right ..
    · exact ⟨fun piece hpiece => absurd hpiece (by simp), Nat.zero_le _⟩
  | cons b rest ih =>
    unfold buildLoop
    split
    · refine ⟨fun piece hpiece => ?_, Nat.succ_le_succ (ih _).2⟩
      rcases List.mem_cons.mp hpiece with rfl | hpiece
      · exact Nat.le_add_right ..
      · have hle := (ih []).1 piece hpiece
        rw [List.length_nil] at hle
        rw [List.length_cons]
        omega
    · refine ⟨fun piece hpiece => ?_, Nat.le_succ_of_le (ih _).2⟩
      have hle := (ih (cur ++ [b])).1 piece hpiece
      rw [List.length_append, List.length_singleton] at hle
      rw [List.length_cons]
      omega

end Memory

/-- **What a failing call costs `build_array`.** If none of its calls fails, it returns the values
of an update, and `array_delete` frees all that was allocated for them. If call `f` is the first
that fails, the server crashes in `array_delete` if that call was for more room in an array that
has values; otherwise it returns NULL and has freed everything, but for one block if
the call was for what a value says. -/
theorem build_array_memory (al : Allocator) (m : Blocks) {buff : Bytes}
    (hlen : buff.length < 0x7fffffff) :
    (al.Quiet m.calls (m.calls + 1 + itemCalls 10 2 (buildArray buff).length) →
      ∃ aa m' m'', buildArrayBlocks al m buff = some (some aa, m') ∧ aa.texts = buildArray buff ∧
        arrayDelete aa m' = some m'' ∧ m''.live = m.live) ∧
    ∀ f, f ≤ itemCalls 10 2 (buildArray buff).length → al.Quiet m.calls (m.calls + f) →
      al.fails (m.calls + f) = true →
      (Regrows (buildArray buff).length f → buildArrayBlocks al m buff = none) ∧
      (¬ Regrows (buildArray buff).length f →
        ∃ m', buildArrayBlocks al m buff = some (none, m') ∧
          LeftOver m.live m' (buildArray buff).length f) := by
  obtain ⟨hpieces, hcount⟩ := buildLoop_bounds [] buff
  have hshort : ∀ piece ∈ buildArray buff, piece.length < 0x80000000 := by
    intro piece hpiece
    have hle := hpieces piece hpiece
    rw [List.length_nil] at hle
    omega
  have hmany : (buildArray buff).length < 0x80000000 := by
    unfold buildArray
    omega
  cases hfirst : al.fails m.calls with
  | true =>
    obtain ⟨m', hnew, hlive⟩ := arrayNew_fails m hfirst
    have hnull : buildArrayBlocks al m buff = some (none, m') := by
      unfold buildArrayBlocks
      rw [hnew]
    refine ⟨fun hquiet => ?_, fun f _ hquiet _ => ?_⟩
    · exact absurd (hfirst.symm.trans (hquiet m.calls (Nat.le_refl _) (by omega))) (by simp)
    · obtain rfl := first_call hfirst hquiet
      exact ⟨fun hregrows => absurd rfl hregrows.ne_zero, fun _ => ⟨m', hnull, hlive.symm.subset,
        fun hdata => absurd rfl hdata.ne_zero, fun _ => hlive⟩⟩
  | false =>
    obtain ⟨aa, m₁, hnew, hall, hfails⟩ := filled hfirst hshort hmany
    have heq : buildArrayBlocks al m buff = orDelete (vaArrayAdd al (buildArray buff) aa m₁) := by
      unfold buildArrayBlocks
      rw [hnew]
      exact buildArrayBlocksLoop_eq
    rw [heq]
    refine ⟨fun hquiet => ?_, fun f hf hquiet hfailed => ?_⟩
    · obtain ⟨aa', m', hadd, hbuilt⟩ := hall hquiet
      obtain ⟨m'', hdelete, hlive⟩ := hbuilt.deletes
      rw [hadd]
      exact ⟨aa', m', m'', rfl, hbuilt.texts, hdelete, hlive⟩
    · obtain ⟨-, aa', m', hadd, hhow⟩ := hfails f hf hquiet hfailed
      rw [hadd]
      refine ⟨fun hregrows => ?_, fun hnot => ?_⟩
      · show (arrayDelete aa' m').map _ = none
        rw [hhow.crash hregrows]
        rfl
      · obtain ⟨m'', hdelete, hleft⟩ := hhow.deleted hnot
        refine ⟨m'', ?_, hleft⟩
        show (arrayDelete aa' m').map _ = _
        rw [hdelete]
        rfl

/-- Eleven values, and no more room after the tenth. -/
theorem build_array_memory_eleven :
    buildArrayBlocks (.above fun k => k == 22) ⟨∅, 0⟩
      ([NASTSEP].intercalate (List.replicate 11 [65])) = none := by
  have hvalues : buildArray ([NASTSEP].intercalate (List.replicate 11 [65]))
      = List.replicate 11 [65] := buildArray_join (by decide) (by decide)
  have hbefore : Allocator.Quiet (.above fun k => k == 22) 0 (0 + 22) := by
    intro k _ hk
    exact beq_eq_false_iff_ne.mpr (Nat.ne_of_lt hk)
  obtain ⟨-, hfails⟩ := @build_array_memory (.above fun k => k == 22) ⟨∅, 0⟩
    ([NASTSEP].intercalate (List.replicate 11 [65])) (by decide)
  rw [hvalues] at hfails
  exact (hfails 22 (by decide) hbefore rfl).1 ⟨10, by decide, by decide, by decide, by decide⟩

/-- **What a failing call costs `send_response`.** It crashes without an array, and where
`build_array` would; with the one text that it is given, at most, only without an array. -/
theorem send_response_memory (al : Allocator) (m : Blocks) {strs : List Bytes}
    (hlen : ∀ str ∈ strs, str.length < 0x80000000) (hcount : strs.length < 0x80000000) :
    (al.Quiet m.calls (m.calls + 1 + itemCalls 10 2 strs.length) →
      ∃ m', sendResponseBlocks al m strs = some m' ∧ m'.live = m.live) ∧
    ∀ f, f ≤ itemCalls 10 2 strs.length → al.Quiet m.calls (m.calls + f) →
      al.fails (m.calls + f) = true →
      (f = 0 ∨ Regrows strs.length f → sendResponseBlocks al m strs = none) ∧
      (f ≠ 0 → ¬ Regrows strs.length f →
        ∃ m', sendResponseBlocks al m strs = some m' ∧ LeftOver m.live m' strs.length f) := by
  unfold sendResponseBlocks
  cases hfirst : al.fails m.calls with
  | true =>
    obtain ⟨m', hnew, -⟩ := arrayNew_fails m hfirst
    rw [hnew]
    refine ⟨fun hquiet => ?_, fun f _ hquiet _ => ⟨fun _ => rfl, fun hne => ?_⟩⟩
    · exact absurd (hfirst.symm.trans (hquiet m.calls (Nat.le_refl _) (by omega))) (by simp)
    · exact absurd (first_call hfirst hquiet) hne
  | false =>
    obtain ⟨aa, m₁, hnew, hall, hfails⟩ := filled hfirst hlen hcount
    rw [hnew]
    dsimp only
    refine ⟨fun hquiet => ?_, fun f hf hquiet hfailed => ?_⟩
    · obtain ⟨aa', m', hadd, hbuilt⟩ := hall hquiet
      rw [hadd]
      exact hbuilt.deletes
    · obtain ⟨hpos, aa', m', hadd, hhow⟩ := hfails f hf hquiet hfailed
      rw [hadd]
      refine ⟨fun hwhich => ?_, fun _ hnot => hhow.deleted hnot⟩
      exact hhow.crash (hwhich.resolve_left (Nat.ne_of_gt hpos))

/-- No memory for what the text says. -/
theorem send_response_memory_text : ∃ m',
    sendResponseBlocks (.above fun k => k == 3) ⟨∅, 0⟩ [ascii "Couldn't allocate key"]
      = some m' ∧ m'.live.card = 1 := by
  have hbefore : Allocator.Quiet (.above fun k => k == 3) 0 (0 + 3) := by
    intro k _ hk
    exact beq_eq_false_iff_ne.mpr (Nat.ne_of_lt hk)
  obtain ⟨-, hfails⟩ := @send_response_memory (.above fun k => k == 3) ⟨∅, 0⟩
    [ascii "Couldn't allocate key"] (by decide) (by decide)
  have hnot : ¬ Regrows 1 3 := by
    rintro ⟨i, hpos, hlt, -⟩
    omega
  obtain ⟨m', hsent, hleft⟩ := (hfails 3 (by decide) hbefore rfl).2 (by decide) hnot
  exact ⟨m', hsent, hleft.one ⟨0, by decide, by decide⟩⟩

end Nastd.Server.ArrayMem
