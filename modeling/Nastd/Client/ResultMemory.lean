import Nastd.Lib.Blocks
import Nastd.Lib.Pack
import Nastd.Client.Responses

/-!
# The memory of the client's arrays

`nast_array_new`, `nast_array_add` and `nast_free_result` (which is all that
`nast_array_delete` does) of `client/nastapi.c`, and `build_result` over them, with each block
that they allocate and free, and with any allocation failing.

`nast_array_add` counts the new item before it has its string, so a string that cannot be
made leaves NULL in the array, and `nast_free_result` dereferences it. `build_result` returns NULL
as soon as an item fails, without freeing what it has got so far.

* `nastArrayAdd_adds`: what one `nast_array_add` can do.
* `build_result_memory`: what `build_result` leaves allocated, whichever call fails.
* `array_memory`: an array that a caller fills can be deleted if and only if it holds no NULL.
-/

namespace Nastd.Client

open Nastd.Lib

/-- A `nast_string_t` in memory; `strlen` is the length of its data. -/
structure StringAt where
  block : Nat
  strdata : Nat
  data : Bytes
  deriving DecidableEq

/-- A `nast_array` in memory: `slots` are allocated behind `items`, and `nitems` of them are
in use. -/
structure ArrayAt where
  self : Nat
  items : Option Nat
  slots : Nat
  strings : List (Option StringAt)
  deriving DecidableEq

namespace ArrayAt

def nitems (aa : ArrayAt) : Nat := aa.strings.length

/-- What the items say. -/
def texts (aa : ArrayAt) : List (Option Bytes) := aa.strings.map (Option.map StringAt.data)

/-- The calls to `malloc` and `realloc` for one item more. -/
def addCalls (aa : ArrayAt) : Nat := (if aa.nitems % 10 = 0 then 1 else 0) + 2

end ArrayAt

/-! ## The functions -/

section Functions

variable (al : Allocator)

/-- `nast_string_new`; `data` is what can be read at the pointer. -/
def nastStringNew (m : Blocks) (slen : Int) (data : Bytes) :
    Option (Option StringAt × Blocks) :=
  match m.malloc al 16 with
  | (none, m) => some (none, m)
  | (some tmp, m) =>
    match m.malloc al (sizeT ((slen + 1) * 8)) with
    | (none, m) => (m.free (some tmp)).map fun m => (none, m)
    | (some strdata, m) =>
      if sizeT slen ≤ data.length then
        some (some ⟨tmp, strdata, data.take (sizeT slen)⟩, m)
      else none

/-- `nast_string_delete`. -/
def nastStringDelete (string : StringAt) (m : Blocks) : Option Blocks :=
  (m.free (some string.strdata)).bind fun m => m.free (some string.block)

/-- `nast_array_new`. -/
def nastArrayNew (m : Blocks) : Option ArrayAt × Blocks :=
  let r := m.malloc al 16
  (r.1.map fun aa => ⟨aa, none, 0, []⟩, r.2)

/-- The beginning of `nast_array_add`: room for ten items more if there is none left. -/
def makeRoom (m : Blocks) (aa : ArrayAt) : Option (Option ArrayAt × Blocks) :=
  if aa.nitems % 10 = 0 then
    (m.realloc al aa.items (8 * (10 + aa.nitems))).map fun r =>
      (r.1.map fun tmp => { aa with items := some tmp, slots := 10 + aa.nitems }, r.2)
  else some (some aa, m)

/-- `nast_array_add`. -/
def nastArrayAdd (m : Blocks) (aa : ArrayAt) (len : Int) (data : Bytes) :
    Option (Int × ArrayAt × Blocks) :=
  match makeRoom al m aa with
  | none => none
  | some (none, m) => some (-1, aa, m)
  | some (some aa, m) =>
    if aa.nitems < aa.slots then
      (nastStringNew al m len data).map fun r =>
        (if r.1 = none then -1 else 0, { aa with strings := aa.strings ++ [r.1] }, r.2)
    else none

/-- The loop of `nast_free_result`. -/
def deleteStrings : List (Option StringAt) → Blocks → Option Blocks
  | [], m => some m
  | none :: _, _ => none
  | some string :: rest, m => (nastStringDelete string m).bind (deleteStrings rest)

/-- `nast_free_result`. -/
def nastFreeResult (aa : ArrayAt) (m : Blocks) : Option Blocks :=
  match aa.items with
  | none => m.free (some aa.self)
  | some items =>
    ((deleteStrings aa.strings m).bind fun m => m.free (some items)).bind fun m =>
      m.free (some aa.self)

/-- The loop of `build_result`: `cur` is what lies between `s_p` and `e_p`. -/
def buildResultBlocksLoop :
    Bytes → Bytes → ArrayAt → Blocks → Option (Option ArrayAt × Blocks)
  | cur, [], aa, m =>
    (nastArrayAdd al m aa cur.length cur).map fun r =>
      (if r.1 = -1 then none else some r.2.1, r.2.2)
  | cur, b :: rest, aa, m =>
    if b = NASTSEP then
      match nastArrayAdd al m aa cur.length cur with
      | none => none
      | some (rc, aa, m) =>
        if rc = -1 then some (none, m) else buildResultBlocksLoop [] rest aa m
    else buildResultBlocksLoop (cur ++ [b]) rest aa m

/-- `build_result`; NULL when an allocation fails. -/
def buildResultBlocks (m : Blocks) (buff : Bytes) : Option (Option ArrayAt × Blocks) :=
  match nastArrayNew al m with
  | (none, m) => some (none, m)
  | (some aa, m) => buildResultBlocksLoop al [] buff aa m

/-- One `nast_array_add` after the other, as the callers do it: with the length of each string as a
`short`, and the codes not looked at. -/
def nastArrayAdds : List Bytes → ArrayAt → Blocks → Option (List Int × ArrayAt × Blocks)
  | [], aa, m => some ([], aa, m)
  | str :: rest, aa, m =>
    match nastArrayAdd al m aa (short (UInt16.ofNat str.length)) str with
    | none => none
    | some (rc, aa, m) => (nastArrayAdds rest aa m).map fun r => (rc :: r.1, r.2)

end Functions
/-! ## What is allocated -/

/-- The blocks behind `items[i]`. -/
def slotBlocks : Option StringAt → Multiset Nat
  | none => 0
  | some string => string.strdata ::ₘ {string.block}

namespace ArrayAt

/-- The blocks of an array. -/
def blocks (aa : ArrayAt) : Multiset Nat :=
  aa.self ::ₘ (↑aa.items.toList + (aa.strings.map slotBlocks).sum)

/-- The slots are the items rounded up to the next ten. -/
structure Ok (aa : ArrayAt) : Prop where
  slots : aa.slots = (aa.nitems + 9) / 10 * 10
  items : aa.items = none → aa.strings = []

end ArrayAt

/-- What one `nast_array_add` can do: add the string, leave the array as it is because it cannot
have more room, or put NULL into it. -/
inductive Adds (al : Allocator) (m : Blocks) (aa : ArrayAt) (len : Int) (data : Bytes) :
    Int → ArrayAt → Blocks → Prop
  | added {aa' : ArrayAt} {m' : Blocks} : 0 ≤ len → m'.calls = m.calls + aa.addCalls →
      al.Quiet m.calls m'.calls → aa'.items ≠ none →
      aa'.texts = aa.texts ++ [some (data.take len.toNat)] → Adds al m aa len data 0 aa' m'
  | noRoom {m' : Blocks} : aa.nitems % 10 = 0 → al.fails m.calls = true →
      m.calls < m'.calls → Adds al m aa len data (-1) aa m'
  | noString {aa' : ArrayAt} {m' : Blocks} (k : Nat) : aa'.items ≠ none →
      aa'.texts = aa.texts ++ [none] → al.Quiet m.calls (m.calls + k) →
      (aa.nitems % 10 = 0 → k ≠ 0) →
      (len < 0 ∨
        k < aa.addCalls ∧ al.fails (m.calls + k) = true ∧ m.calls + k < m'.calls) →
      Adds al m aa len data (-1) aa' m'

section Memory

variable {al : Allocator} {m : Blocks} {others : Finset Nat} {own : Multiset Nat} {aa : ArrayAt}
  {slen : Int} {data : Bytes} {done : List Bytes}

theorem slotBlocks_add (string : StringAt) (own : Multiset Nat) :
    slotBlocks (some string) + own = string.strdata ::ₘ string.block ::ₘ own := by
  show (string.strdata ::ₘ {string.block}) + own = _
  rw [Multiset.cons_add, Multiset.singleton_add]

variable (data) in
/-- The string itself is given back when there is no memory for what it says. -/
theorem nastStringNew_noData {m₁ m₂ : Blocks} {tmp : Nat}
    (hfirst : m.malloc al 16 = (some tmp, m₁))
    (hsecond : m₁.malloc al (sizeT ((slen + 1) * 8)) = (none, m₂))
    (h : m₂.Holds others (tmp ::ₘ own)) :
    ∃ m', nastStringNew al m slen data = some (none, m') ∧ m'.calls = m₂.calls ∧
      m'.Holds others own := by
  obtain ⟨m', hfree, hcalls, hheld⟩ := h.frees
  refine ⟨m', ?_, hcalls, hheld⟩
  unfold nastStringNew
  rw [hfirst]
  dsimp only
  rw [hsecond]
  dsimp only
  rw [hfree]
  rfl

variable (al) in
/-- `nast_string_new`, of a length other than -1: for a negative one there is never memory. -/
theorem nastStringNew_ends (h : m.Holds others own) (hlen : slen ≠ -1) (hlow : -0x8000 ≤ slen)
    (hread : slen ≤ data.length) (hhigh : slen < 0x80000000) :
    (∃ m', nastStringNew al m slen data = some (none, m') ∧ m'.Holds others own ∧
      (slen < 0 ∨ ∃ k, k < 2 ∧ al.Quiet m.calls (m.calls + k) ∧
        al.fails (m.calls + k) = true ∧ m'.calls = m.calls + k + 1)) ∨
    ∃ string m', nastStringNew al m slen data = some (some string, m') ∧ 0 ≤ slen ∧
      m'.calls = m.calls + 2 ∧ al.Quiet m.calls (m.calls + 2) ∧
      string.data = data.take slen.toNat ∧ m'.Holds others (slotBlocks (some string) + own) := by
  cases hfirst : al.fails m.calls with
  | true =>
    obtain ⟨m₁, hmalloc, hcalls, hheld⟩ := h.malloc_fails 16 hfirst
    refine Or.inl ⟨m₁, ?_, hheld,
      Or.inr ⟨0, by decide, Allocator.quiet_self, hfirst, hcalls⟩⟩
    unfold nastStringNew
    rw [hmalloc]
  | false =>
    obtain ⟨tmp, m₁, hmalloc, hcalls, hheld⟩ := h.malloc_gives hfirst sixteen_le
    rcases Int.lt_or_le slen 0 with hneg | hpos
    · have hsize := sizeT_of_neg (n := (slen + 1) * 8) (by omega) (by omega)
      have hhuge : ptrdiffMax < sizeT ((slen + 1) * 8) := by
        unfold ptrdiffMax
        omega
      obtain ⟨m₂, hnull, -, hheld₂⟩ := hheld.malloc_huge al hhuge
      obtain ⟨m', heq, -, hheld'⟩ := nastStringNew_noData data hmalloc hnull hheld₂
      exact Or.inl ⟨m', heq, hheld', Or.inl hneg⟩
    · have hsize := sizeT_of_nonneg (n := (slen + 1) * 8) (by omega) (by omega)
      have hcopied := sizeT_of_nonneg hpos (by omega)
      have hfits : sizeT ((slen + 1) * 8) ≤ ptrdiffMax := by
        unfold ptrdiffMax
        omega
      cases hsecond : al.fails m₁.calls with
      | true =>
        obtain ⟨m₂, hnull, hcalls₂, hheld₂⟩ :=
          hheld.malloc_fails (sizeT ((slen + 1) * 8)) hsecond
        obtain ⟨m', heq, hcalls', hheld'⟩ := nastStringNew_noData data hmalloc hnull hheld₂
        rw [hcalls] at hsecond hcalls₂
        exact Or.inl ⟨m', heq, hheld',
          Or.inr ⟨1, by decide, Allocator.quiet_succ.mpr hfirst, hsecond, hcalls'.trans hcalls₂⟩⟩
      | false =>
        obtain ⟨strdata, m₂, hmalloc₂, hcalls₂, hheld₂⟩ := hheld.malloc_gives hsecond hfits
        rw [hcalls] at hsecond hcalls₂
        refine Or.inr ⟨⟨tmp, strdata, data.take (sizeT slen)⟩, m₂, ?_, hpos, hcalls₂, ?_, ?_, ?_⟩
        · unfold nastStringNew
          rw [hmalloc]
          dsimp only
          rw [hmalloc₂]
          exact if_pos (by omega)
        · exact (Allocator.quiet_trans (Nat.le_succ _) (Nat.le_succ _)).mpr
            ⟨Allocator.quiet_succ.mpr hfirst, Allocator.quiet_succ.mpr hsecond⟩
        · have hcut : sizeT slen = slen.toNat := by omega
          exact congrArg (data.take ·) hcut
        · rw [slotBlocks_add]
          exact hheld₂

variable (al) in
theorem makeRoom_ends (h : m.Holds others aa.blocks) (haa : aa.Ok)
    (hsmall : aa.nitems < 0x80000000) :
    (∃ m', makeRoom al m aa = some (none, m') ∧ aa.nitems % 10 = 0 ∧
      al.fails m.calls = true ∧ m.calls < m'.calls ∧ m'.Holds others aa.blocks) ∨
    ∃ aa' m', makeRoom al m aa = some (some aa', m') ∧ aa'.strings = aa.strings ∧
      aa'.items ≠ none ∧ aa'.slots = (aa.nitems + 10) / 10 * 10 ∧
      m'.calls = m.calls + (if aa.nitems % 10 = 0 then 1 else 0) ∧
      al.Quiet m.calls m'.calls ∧ m'.Holds others aa'.blocks := by
  have hslots := haa.slots
  unfold makeRoom
  by_cases hfull : aa.nitems % 10 = 0
  · rw [if_pos hfull, if_pos hfull]
    have hsplit : aa.blocks
        = ↑aa.items.toList + (aa.self ::ₘ (aa.strings.map slotBlocks).sum) := by
      unfold ArrayAt.blocks
      rw [Multiset.add_cons]
    have hheld := h
    rw [hsplit] at hheld
    cases hfails : al.fails m.calls with
    | true =>
      obtain ⟨m', hrealloc, hcalls, hheld'⟩ :=
        hheld.realloc_fails (8 * (10 + aa.nitems)) hfails
      rw [hrealloc]
      refine Or.inl ⟨m', rfl, hfull, rfl, by omega, ?_⟩
      rw [hsplit]
      exact hheld'
    | false =>
      have hfits : 8 * (10 + aa.nitems) ≤ ptrdiffMax := by
        unfold ptrdiffMax
        omega
      obtain ⟨a, m', hrealloc, hcalls, hheld'⟩ :=
        hheld.realloc_gives hfails hfits
      rw [hrealloc]
      refine Or.inr ⟨_, m', rfl, rfl, by simp, ?_, hcalls, ?_, ?_⟩
      · show 10 + aa.nitems = _
        omega
      · rw [hcalls]
        exact Allocator.quiet_succ.mpr hfails
      · have hcomm : ArrayAt.blocks { aa with items := some a, slots := 10 + aa.nitems }
            = a ::ₘ aa.self ::ₘ (aa.strings.map slotBlocks).sum := by
          unfold ArrayAt.blocks
          rw [Option.toList_some, Multiset.coe_singleton, Multiset.singleton_add,
            Multiset.cons_swap]
        rw [hcomm]
        exact hheld'
  · rw [if_neg hfull, if_neg hfull]
    refine Or.inr ⟨aa, m, rfl, rfl, fun hnone => ?_, ?_, rfl, Allocator.quiet_self, h⟩
    · -- an array without room has no items
      refine hfull ?_
      unfold ArrayAt.nitems
      rw [haa.items hnone]
      rfl
    · omega

theorem blocks_append (aa : ArrayAt) (r : Option StringAt) :
    ArrayAt.blocks { aa with strings := aa.strings ++ [r] } = slotBlocks r + aa.blocks := by
  unfold ArrayAt.blocks
  rw [List.map_append, List.sum_append, List.map_singleton, List.sum_singleton,
    Multiset.add_cons]
  congr 1
  abel

/-- There is a slot for the new item. -/
theorem ok_append {aa' : ArrayAt} (hstrings : aa'.strings = aa.strings)
    (hitems : aa'.items ≠ none) (hslots : aa'.slots = (aa.nitems + 10) / 10 * 10)
    (r : Option StringAt) :
    aa'.nitems < aa'.slots ∧ ArrayAt.Ok { aa' with strings := aa'.strings ++ [r] } := by
  have hcount : aa'.nitems = aa.nitems := congrArg List.length hstrings
  refine ⟨by omega, ⟨?_, fun hnone => absurd hnone hitems⟩⟩
  show aa'.slots = ((aa'.strings ++ [r]).length + 9) / 10 * 10
  rw [List.length_append, List.length_singleton, hslots, Nat.add_assoc]
  exact congrArg (fun n => (n + 10) / 10 * 10) hcount.symm

variable (al slen data) in
theorem nastArrayAdd_adds (h : m.Holds others aa.blocks) (haa : aa.Ok)
    (hsmall : aa.nitems < 0x80000000) (hlen : slen ≠ -1) (hlow : -0x8000 ≤ slen)
    (hread : slen ≤ data.length) (hhigh : slen < 0x80000000) :
    ∃ rc aa' m', nastArrayAdd al m aa slen data = some (rc, aa', m') ∧
      Adds al m aa slen data rc aa' m' ∧ aa'.Ok ∧ m'.Holds others aa'.blocks := by
  rcases makeRoom_ends al h haa hsmall with
    ⟨m', hroom, hfull, hfails, hcalls, hheld⟩ |
    ⟨aa₁, m₁, hroom, hstrings, hitems, hslots, hcalls, hquiet, hheld⟩
  · refine ⟨-1, aa, m', ?_, .noRoom hfull hfails hcalls, haa, hheld⟩
    unfold nastArrayAdd
    rw [hroom]
  have hle : m.calls ≤ m₁.calls := by omega
  have htexts : ∀ r, ArrayAt.texts { aa₁ with strings := aa₁.strings ++ [r] }
      = aa.texts ++ [r.map StringAt.data] := by
    intro r
    unfold ArrayAt.texts
    rw [hstrings, List.map_append, List.map_singleton]
  rcases nastStringNew_ends al hheld hlen hlow hread hhigh with
    ⟨m', hstring, hheld', hwhy⟩ | ⟨string, m', hstring, hpos, hcalls', hquiet', hdata, hheld'⟩
  · obtain ⟨hslot, hok⟩ := ok_append hstrings hitems hslots none
    refine ⟨-1, { aa₁ with strings := aa₁.strings ++ [none] }, m', ?_, ?_, hok, ?_⟩
    · unfold nastArrayAdd
      rw [hroom]
      dsimp only
      rw [if_pos hslot, hstring]
      rfl
    · rcases hwhy with hneg | ⟨k, hk, hbefore, hfails, hcalls'⟩
      · refine .noString (m₁.calls - m.calls) hitems (htexts none) ?_ ?_ (Or.inl hneg)
        · rwa [Nat.add_sub_cancel' hle]
        · intro hfull
          rw [if_pos hfull] at hcalls
          omega
      · have hat : m₁.calls + k = m.calls + (m₁.calls - m.calls + k) := by omega
        refine .noString (m₁.calls - m.calls + k) hitems (htexts none) ?_ ?_
          (Or.inr ⟨?_, ?_, by omega⟩)
        · rw [← hat]
          exact (Allocator.quiet_trans hle (Nat.le_add_right ..)).mpr ⟨hquiet, hbefore⟩
        · intro hfull
          rw [if_pos hfull] at hcalls
          omega
        · unfold ArrayAt.addCalls
          omega
        · rw [← hat]
          exact hfails
    · rw [blocks_append]
      exact hheld'.trans (congrArg _ (zero_add _).symm)
  · obtain ⟨hslot, hok⟩ := ok_append hstrings hitems hslots (some string)
    refine ⟨0, { aa₁ with strings := aa₁.strings ++ [some string] }, m', ?_, ?_, hok, ?_⟩
    · unfold nastArrayAdd
      rw [hroom]
      dsimp only
      rw [if_pos hslot, hstring]
      rfl
    · refine .added hpos ?_ ?_ hitems ?_
      · unfold ArrayAt.addCalls
        omega
      · rw [hcalls']
        exact (Allocator.quiet_trans hle (Nat.le_add_right ..)).mpr ⟨hquiet, hquiet'⟩
      · rw [htexts, Option.map_some, hdata]
    · rw [blocks_append]
      exact hheld'

/-! ## Freeing -/

theorem deleteStrings_all {strings : List (Option StringAt)} (hnone : none ∉ strings)
    (h : m.Holds others ((strings.map slotBlocks).sum + own)) :
    ∃ m', deleteStrings strings m = some m' ∧ m'.calls = m.calls ∧ m'.Holds others own := by
  induction strings generalizing m with
  | nil => exact ⟨m, rfl, rfl, h.trans (congrArg _ (zero_add own))⟩
  | cons r rest ih =>
    cases r with
    | none => exact absurd (List.mem_cons_self ..) hnone
    | some string =>
      rw [List.map_cons, List.sum_cons, add_assoc, slotBlocks_add] at h
      obtain ⟨m₁, hdata, hcalls₁, hheld₁⟩ := h.frees
      obtain ⟨m₂, hblock, hcalls₂, hheld₂⟩ := hheld₁.frees
      obtain ⟨m', hrest, hcalls, hheld'⟩ :=
        ih (fun hmem => hnone (List.mem_cons_of_mem _ hmem)) hheld₂
      refine ⟨m', ?_, hcalls.trans (hcalls₂.trans hcalls₁), hheld'⟩
      unfold deleteStrings nastStringDelete
      rw [hdata, Option.bind_some, hblock, Option.bind_some, hrest]

theorem deleteStrings_null {strings : List (Option StringAt)} (hnone : none ∈ strings) :
    deleteStrings strings m = none := by
  induction strings generalizing m with
  | nil => exact absurd hnone (by simp)
  | cons r rest ih =>
    cases r with
    | none => rfl
    | some string =>
      have hrest : none ∈ rest := by simpa using hnone
      unfold deleteStrings
      cases nastStringDelete string m with
      | none => rfl
      | some m₁ => exact ih hrest

/-- All of the array is freed. -/
theorem nastFreeResult_all (h : m.Holds others (aa.blocks + own)) (haa : aa.Ok)
    (hnone : none ∉ aa.strings) :
    ∃ m', nastFreeResult aa m = some m' ∧ m'.calls = m.calls ∧ m'.Holds others own := by
  unfold nastFreeResult
  cases hitems : aa.items with
  | none =>
    have hown : aa.blocks + own = aa.self ::ₘ own := by
      unfold ArrayAt.blocks
      rw [hitems, haa.items hitems, Multiset.cons_add]
      exact congrArg _ (zero_add own)
    rw [hown] at h
    exact h.frees
  | some items =>
    have hown : aa.blocks + own
        = (aa.strings.map slotBlocks).sum + (items ::ₘ aa.self ::ₘ own) := by
      unfold ArrayAt.blocks
      rw [hitems, Option.toList_some, Multiset.coe_singleton, Multiset.singleton_add,
        Multiset.cons_swap, Multiset.cons_add, Multiset.cons_add, Multiset.add_cons,
        Multiset.add_cons]
    rw [hown] at h
    obtain ⟨m₁, hstrings, hcalls₁, hheld₁⟩ := deleteStrings_all hnone h
    obtain ⟨m₂, hfree, hcalls₂, hheld₂⟩ := hheld₁.frees
    obtain ⟨m', hself, hcalls, hheld⟩ := hheld₂.frees
    refine ⟨m', ?_, hcalls.trans (hcalls₂.trans hcalls₁), hheld⟩
    dsimp only
    rw [hstrings, Option.bind_some, hfree, Option.bind_some, hself]

/-- All that is there beside the others' is the array. -/
theorem nastFreeResult_only (h : m.Holds others aa.blocks) (haa : aa.Ok)
    (hnone : none ∉ aa.strings) :
    ∃ m', nastFreeResult aa m = some m' ∧ m'.live = others := by
  rw [← add_zero aa.blocks] at h
  obtain ⟨m', hfree, -, hheld⟩ := nastFreeResult_all h haa hnone
  exact ⟨m', hfree, Blocks.holds_zero.mp hheld⟩

/-- NULL is dereferenced. -/
theorem nastFreeResult_null (haa : aa.Ok) (hnone : none ∈ aa.strings) :
    nastFreeResult aa m = none := by
  unfold nastFreeResult
  cases hitems : aa.items with
  | none =>
    rw [haa.items hitems] at hnone
    exact absurd hnone (by simp)
  | some items =>
    dsimp only
    rw [deleteStrings_null hnone]
    rfl

/-! ## Building a result -/

/-- What `build_result` does with its pieces. -/
def addPieces (al : Allocator) : List Bytes → ArrayAt → Blocks → Option (Option ArrayAt × Blocks)
  | [], aa, m => some (some aa, m)
  | piece :: rest, aa, m =>
    match nastArrayAdd al m aa piece.length piece with
    | none => none
    | some (rc, aa, m) => if rc = -1 then some (none, m) else addPieces al rest aa m

theorem buildResultBlocksLoop_eq {l cur : Bytes} :
    buildResultBlocksLoop al cur l aa m = addPieces al (buildResultLoop cur l) aa m := by
  induction l generalizing cur aa m with
  | nil =>
    unfold buildResultBlocksLoop buildResultLoop addPieces
    cases nastArrayAdd al m aa cur.length cur with
    | none => rfl
    | some r =>
      obtain ⟨rc, aa', m'⟩ := r
      dsimp only [Option.map_some]
      by_cases hrc : rc = -1
      · rw [if_pos hrc, if_pos hrc]
      · rw [if_neg hrc, if_neg hrc]
        rfl
  | cons b rest ih =>
    unfold buildResultBlocksLoop buildResultLoop
    by_cases hb : b = NASTSEP
    · rw [if_pos hb, if_pos hb]
      unfold addPieces
      cases nastArrayAdd al m aa cur.length cur with
      | none => rfl
      | some r =>
        obtain ⟨rc, aa', m'⟩ := r
        dsimp only
        rw [ih]
    · rw [if_neg hb, if_neg hb]
      exact ih

/-- The pieces are not longer than the buffer, and not more than one more than its bytes. -/
theorem buildResultLoop_bounds (cur l : Bytes) :
    (∀ piece ∈ buildResultLoop cur l, piece.length ≤ cur.length + l.length) ∧
      (buildResultLoop cur l).length ≤ l.length + 1 := by
  induction l generalizing cur with
  | nil =>
    refine ⟨fun piece hpiece => ?_, Nat.le_refl _⟩
    rw [List.mem_singleton.mp hpiece]
    exact Nat.le_add_right ..
  | cons b rest ih =>
    unfold buildResultLoop
    split
    · refine ⟨fun piece hpiece => ?_, Nat.succ_le_succ (ih _).2⟩
      rcases List.mem_cons.mp hpiece with rfl | hpiece
      · exact Nat.le_add_right ..
      · have hle := (ih []).1 piece hpiece
        rw [List.length_nil] at hle
        rw [List.length_cons]
        omega
    · refine ⟨fun piece hpiece => ?_, Nat.le_succ_of_le (ih _).2⟩
      have hle := (ih (cur ++ [b])).1 piece hpiece
      rw [List.length_append, List.length_singleton] at hle
      rw [List.length_cons]
      omega

/-- An array whose strings are all there. -/
structure Built (others : Finset Nat) (aa : ArrayAt) (m : Blocks) (done : List Bytes) : Prop where
  texts : aa.texts = done.map some
  empty : aa.items = none ↔ done = []
  ok : aa.Ok
  held : m.Holds others aa.blocks

theorem Built.nitems (h : Built others aa m done) : aa.nitems = done.length := by
  have hcount := congrArg List.length h.texts
  unfold ArrayAt.texts at hcount
  rwa [List.length_map, List.length_map] at hcount

/-- Two blocks for each string that is there, one for the array, and one for its items. -/
theorem card_blocks (aa : ArrayAt) : Multiset.card aa.blocks
    = 2 * aa.texts.countP Option.isSome + aa.items.toList.length + 1 := by
  have hsum : ∀ strings : List (Option StringAt),
      Multiset.card (strings.map slotBlocks).sum
        = 2 * (strings.map (Option.map StringAt.data)).countP Option.isSome := by
    intro strings
    induction strings with
    | nil => rfl
    | cons r rest ih =>
      rw [List.map_cons, List.sum_cons, Multiset.card_add, ih, List.map_cons, List.countP_cons]
      cases r with
      | none =>
        have hnothing : Multiset.card (slotBlocks none) = 0 := rfl
        rw [hnothing, Option.map_none, Option.isSome_none, if_neg (by simp), Nat.zero_add,
          Nat.add_zero]
      | some string =>
        have htwo : Multiset.card (slotBlocks (some string)) = 2 := rfl
        rw [htwo, Option.map_some, Option.isSome_some, if_pos rfl]
        omega
  unfold ArrayAt.blocks ArrayAt.texts
  rw [Multiset.card_cons, Multiset.card_add, Multiset.coe_card, hsum]
  omega

/-- What is lost when item `i` fails, with the `f`-th call. -/
def lostWith (f i : Nat) : Nat := if f = 1 then 1 else 2 * i + 2

theorem countP_some (done : List Bytes) : (done.map some).countP Option.isSome = done.length := by
  rw [List.countP_map]
  exact List.countP_eq_length.mpr fun _ _ => rfl

/-- The call that failed, and the blocks that are there then. -/
theorem Built.failed {piece : Bytes} {aa' : ArrayAt} {m' : Blocks} {start : Nat}
    (h : Built others aa m done) (hcalls : m.calls = start + 1 + itemCalls 10 2 done.length)
    (hbefore : al.Quiet start m.calls) (hadds : Adds al m aa piece.length piece (-1) aa' m') :
    ∃ f, itemCalls 10 2 done.length < f ∧ f ≤ itemCalls 10 2 (done.length + 1) ∧
      al.Quiet start (start + f) ∧ al.fails (start + f) = true ∧ start + f < m'.calls ∧
      Multiset.card aa'.blocks = lostWith f done.length := by
  have hnext := itemCalls_succ (g := 10) (by decide) 2 done.length
  have hitems : 2 * done.length ≤ itemCalls 10 2 done.length := Nat.le_add_right ..
  have hcount := h.nitems
  generalize hrc : (-1 : Int) = rc at hadds
  cases hadds with
  | added => exact absurd hrc (by decide)
  | noRoom hfull hfails hlater =>
    rw [hcount] at hfull
    rw [if_pos hfull] at hnext
    have hat : start + (itemCalls 10 2 done.length + 1) = m.calls := by omega
    refine ⟨itemCalls 10 2 done.length + 1, Nat.lt_succ_self _, by omega, ?_, ?_, by omega, ?_⟩
    · rwa [hat]
    · rwa [hat]
    · rw [card_blocks, h.texts, countP_some]
      unfold lostWith
      cases done with
      | nil =>
        rw [h.empty.mpr rfl]
        rfl
      | cons piece rest =>
        obtain ⟨items, hitems'⟩ := Option.ne_none_iff_exists'.mp
          fun hnone => absurd (h.empty.mp hnone) (List.cons_ne_nil _ _)
        rw [List.length_cons] at hitems ⊢
        rw [if_neg (by omega), hitems']
        rfl
  | noString k hitems' htexts hquiet hfirst hwhy =>
    obtain ⟨hk, hfails, hlater⟩ := hwhy.resolve_left (by omega)
    unfold ArrayAt.addCalls at hk
    rw [hcount] at hk hfirst
    have hat : start + (itemCalls 10 2 done.length + 1 + k) = m.calls + k := by omega
    refine ⟨itemCalls 10 2 done.length + 1 + k, by omega, by omega, ?_, ?_, by omega, ?_⟩
    · rw [hat]
      exact (Allocator.quiet_trans (by omega) (Nat.le_add_right ..)).mpr ⟨hbefore, hquiet⟩
    · rwa [hat]
    · obtain ⟨items, hsome⟩ := Option.ne_none_iff_exists'.mp hitems'
      rw [card_blocks, htexts, h.texts, List.countP_append, countP_some, hsome]
      -- the first call makes room, so it is not this one
      have hlate : itemCalls 10 2 done.length + 1 + k ≠ 1 := by
        intro hone
        have hzero : done.length = 0 := by omega
        exact hfirst (by rw [hzero]) (by omega)
      unfold lostWith
      rw [if_neg hlate]
      rfl

/-- The rest of the pieces: all of them are added, or a call fails and nothing is freed. -/
theorem addPieces_ends {ps : List Bytes} {start : Nat} (h : Built others aa m done)
    (hcalls : m.calls = start + 1 + itemCalls 10 2 done.length)
    (hbefore : al.Quiet start m.calls) (hlen : ∀ piece ∈ ps, piece.length < 0x80000000)
    (hcount : done.length + ps.length < 0x80000000) :
    (∃ aa' m', addPieces al ps aa m = some (some aa', m') ∧ Built others aa' m' (done ++ ps) ∧
      m'.calls = start + 1 + itemCalls 10 2 (done ++ ps).length ∧ al.Quiet start m'.calls) ∨
    ∃ (aa' : ArrayAt) (m' : Blocks) (f i : Nat), addPieces al ps aa m = some (none, m') ∧
      m'.Holds others aa'.blocks ∧
      i < (done ++ ps).length ∧ itemCalls 10 2 i < f ∧ f ≤ itemCalls 10 2 (i + 1) ∧
      al.Quiet start (start + f) ∧ al.fails (start + f) = true ∧ start + f < m'.calls ∧
      Multiset.card aa'.blocks = lostWith f i := by
  induction ps generalizing aa m done with
  | nil =>
    rw [List.append_nil]
    exact Or.inl ⟨aa, m, rfl, h, hcalls, hbefore⟩
  | cons piece rest ih =>
    obtain ⟨hpiece, hlen⟩ := List.forall_mem_cons.mp hlen
    rw [List.length_cons] at hcount
    have hnitems := h.nitems
    obtain ⟨rc, aa₁, m₁, hadd, hadds, hok, hheld⟩ :=
      nastArrayAdd_adds al piece.length piece h.held h.ok (by omega) (by omega) (by omega)
        (Int.le_refl _) (by omega)
    unfold addPieces
    rw [hadd]
    dsimp only
    by_cases hrc : rc = -1
    · subst hrc
      rw [if_pos rfl]
      obtain ⟨f, hlow, hhigh, hfailed⟩ := h.failed hcalls hbefore hadds
      refine Or.inr ⟨aa₁, m₁, f, done.length, rfl, hheld, ?_, hlow, hhigh, hfailed⟩
      rw [List.length_append, List.length_cons]
      omega
    · rw [if_neg hrc]
      cases hadds with
      | noRoom => exact absurd rfl hrc
      | noString => exact absurd rfl hrc
      | added hpos hcalls₁ hquiet hitems htexts =>
        have hnext := itemCalls_succ (g := 10) (by decide) 2 done.length
        unfold ArrayAt.addCalls at hcalls₁
        rw [hnitems] at hcalls₁
        have hbuilt : Built others aa₁ m₁ (done ++ [piece]) := by
          refine ⟨?_, iff_of_false hitems (by simp), hok, hheld⟩
          rw [htexts, h.texts, Int.toNat_natCast, List.take_length, List.map_append]
          rfl
        have hlength : (done ++ [piece]).length = done.length + 1 := List.length_append
        rw [List.append_cons]
        refine ih hbuilt ?_ ?_ hlen ?_
        · rw [hlength]
          omega
        · exact (Allocator.quiet_trans (by omega) (by omega)).mpr ⟨hbefore, hquiet⟩
        · rw [hlength]
          omega

theorem nastArrayNew_gives (m : Blocks) (hfails : al.fails m.calls = false) :
    ∃ aa m', nastArrayNew al m = (some aa, m') ∧ m'.calls = m.calls + 1 ∧
      Built m.live aa m' [] := by
  have h : m.Holds m.live 0 := Blocks.holds_zero.mpr rfl
  obtain ⟨a, m', hmalloc, hcalls, hheld⟩ := h.malloc_gives hfails sixteen_le
  refine ⟨⟨a, none, 0, []⟩, m', ?_, hcalls, rfl, iff_of_true rfl rfl, ⟨?_, fun _ => rfl⟩, hheld⟩
  · unfold nastArrayNew
    rw [hmalloc]
    rfl
  · show 0 = (0 + 9) / 10 * 10
    rfl

theorem nastArrayNew_fails (m : Blocks) (hfails : al.fails m.calls = true) :
    ∃ m', nastArrayNew al m = (none, m') ∧ m.calls < m'.calls ∧ m'.live = m.live := by
  have h : m.Holds m.live 0 := Blocks.holds_zero.mpr rfl
  obtain ⟨m', hmalloc, hcalls, hheld⟩ := h.malloc_fails 16 hfails
  refine ⟨m', ?_, by omega, Blocks.holds_zero.mp hheld⟩
  unfold nastArrayNew
  rw [hmalloc]
  rfl

theorem Built.all (h : Built others aa m done) : none ∉ aa.strings := by
  intro hmem
  have htext : none ∈ aa.texts := List.mem_map_of_mem (f := Option.map _) hmem
  rw [h.texts] at htext
  simp at htext

/-- What was built can be freed, without a rest. -/
theorem Built.frees (h : Built others aa m done) :
    ∃ m', nastFreeResult aa m = some m' ∧ m'.live = others :=
  nastFreeResult_only h.held h.ok h.all

/-- What call `f` leaves allocated if it is the first that fails: nothing if that was the one for
the array, and otherwise what there was when it was made for item `i`. -/
structure LeftBehind (live : Finset Nat) (m : Blocks) (n f : Nat) : Prop where
  kept : live ⊆ m.live
  lost : f = 0 ∧ m.live = live ∨
    ∃ i, i < n ∧ itemCalls 10 2 i < f ∧ f ≤ itemCalls 10 2 (i + 1) ∧
      m.live.card = live.card + lostWith f i

variable (al m) in
theorem buildResultBlocks_ends {buff : Bytes} (hlen : buff.length < 0x8000) :
    (∃ aa m', buildResultBlocks al m buff = some (some aa, m') ∧
      Built m.live aa m' (buildResult buff) ∧
      m'.calls = m.calls + 1 + itemCalls 10 2 (buildResult buff).length ∧
      al.Quiet m.calls m'.calls) ∨
    ∃ m' f, buildResultBlocks al m buff = some (none, m') ∧
      f ≤ itemCalls 10 2 (buildResult buff).length ∧ al.Quiet m.calls (m.calls + f) ∧
      al.fails (m.calls + f) = true ∧ m.calls + f < m'.calls ∧
      LeftBehind m.live m' (buildResult buff).length f := by
  obtain ⟨hpieces, hcount⟩ := buildResultLoop_bounds [] buff
  have hshort : ∀ piece ∈ buildResult buff, piece.length < 0x80000000 := by
    intro piece hpiece
    have hle := hpieces piece hpiece
    rw [List.length_nil] at hle
    omega
  unfold buildResultBlocks
  cases hfirst : al.fails m.calls with
  | true =>
    obtain ⟨m', hnew, hlater, hlive⟩ := nastArrayNew_fails m hfirst
    rw [hnew]
    exact Or.inr ⟨m', 0, rfl, Nat.zero_le _, Allocator.quiet_self, hfirst, hlater,
      hlive.symm.subset, Or.inl ⟨rfl, hlive⟩⟩
  | false =>
    obtain ⟨aa, m₁, hnew, hcalls, hbuilt⟩ := nastArrayNew_gives m hfirst
    have hbefore : al.Quiet m.calls m₁.calls := by
      rw [hcalls]
      exact Allocator.quiet_succ.mpr hfirst
    have hends := addPieces_ends hbuilt hcalls hbefore hshort (by
      unfold buildResult
      rw [List.length_nil]
      omega)
    rw [List.nil_append] at hends
    have heq : buildResultBlocksLoop al [] buff aa m₁ = addPieces al (buildResult buff) aa m₁ :=
      buildResultBlocksLoop_eq
    rw [hnew]
    dsimp only
    rw [heq]
    rcases hends with hall |
      ⟨aa', m', f, i, hadd, hheld, hi, hlow, hhigh, hquiet, hfails, hlater, hcard⟩
    · exact Or.inl hall
    · have hle : itemCalls 10 2 (i + 1) ≤ itemCalls 10 2 (buildResult buff).length :=
        itemCalls_mono 10 2 hi
      refine Or.inr ⟨m', f, hadd, by omega, hquiet, hfails, hlater, ?_,
        Or.inr ⟨i, hi, hlow, hhigh, ?_⟩⟩
      · rw [← Finset.val_le_iff, hheld]
        exact Multiset.le_add_right ..
      · rw [hheld.card, hcard]

end Memory

/-- **What `build_result` leaves behind.** If none of its calls fails, it returns the pieces
of the buffer, and `nast_free_result` frees all that was allocated for them. If one fails, be it the
first one or call `f` for item `i`, it returns NULL, frees nothing, and nobody can: two blocks for
each item before, one for the array, and one for its items unless they are what failed at first. -/
theorem build_result_memory (al : Allocator) (m : Blocks) {buff : Bytes}
    (hlen : buff.length < 0x8000) :
    (al.Quiet m.calls (m.calls + 1 + itemCalls 10 2 (buildResult buff).length) →
      ∃ aa m' m'', buildResultBlocks al m buff = some (some aa, m') ∧
        aa.texts = (buildResult buff).map some ∧ nastFreeResult aa m' = some m'' ∧
        m''.live = m.live) ∧
    ∀ f, f ≤ itemCalls 10 2 (buildResult buff).length → al.Quiet m.calls (m.calls + f) →
      al.fails (m.calls + f) = true →
      ∃ m', buildResultBlocks al m buff = some (none, m') ∧ m.live ⊆ m'.live ∧
        (f = 0 ∧ m'.live = m.live ∨
          ∃ i, i < (buildResult buff).length ∧ itemCalls 10 2 i < f ∧
            f ≤ itemCalls 10 2 (i + 1) ∧
            m'.live.card = m.live.card + lostWith f i) := by
  rcases buildResultBlocks_ends al m hlen with ⟨aa, m', hbuild, hbuilt, hcalls, hquiet'⟩ |
    ⟨m', f', hbuild, hf', hquiet', hfails', -, hleft⟩
  · refine ⟨fun _ => ?_, fun f hf _ hfails => ?_⟩
    · obtain ⟨m'', hfree, hlive⟩ := hbuilt.frees
      exact ⟨aa, m', m'', hbuild, hbuilt.texts, hfree, hlive⟩
    · have hsucc := hquiet' (m.calls + f) (by omega) (by omega)
      exact absurd (hfails.symm.trans hsucc) (by simp)
  · refine ⟨fun hquiet => ?_, fun f hf hquiet hfails => ?_⟩
    · have hsucc := hquiet (m.calls + f') (by omega) (by omega)
      exact absurd (hfails'.symm.trans hsucc) (by simp)
    · obtain rfl : f = f' := by
        have hsame := Allocator.first_unique (by omega) (by omega) hquiet hfails hquiet' hfails'
        omega
      exact ⟨m', hbuild, hleft.kept, hleft.lost⟩

/-- The fourth call is the one for what the first piece says. -/
theorem build_result_memory_fourth : ∃ m',
    buildResultBlocks (.above fun k => k == 3) ⟨∅, 0⟩ (ascii "no") = some (none, m') ∧
      m'.live.card = 2 := by
  obtain ⟨-, hfails⟩ :=
    @build_result_memory (.above fun k => k == 3) ⟨∅, 0⟩ (ascii "no") (by decide)
  have hbefore : Allocator.Quiet (.above fun k => k == 3) 0 (0 + 3) := by
    intro k _ hk
    exact beq_eq_false_iff_ne.mpr (Nat.ne_of_lt hk)
  obtain ⟨m', hnull, -, hlost⟩ := hfails 3 (by decide) hbefore rfl
  refine ⟨m', hnull, ?_⟩
  rcases hlost with ⟨hzero, -⟩ | ⟨i, hi, -, -, hcard⟩
  · exact absurd hzero (by decide)
  · obtain rfl : i = 0 := Nat.lt_one_iff.mp hi
    exact hcard

/-! ## An array of the caller's -/

/-- What `nast_array_add` stores of a string, given its length as a `short`, when there is
memory. -/
def stored (str : Bytes) : Option Bytes :=
  if str.length % 0x10000 < 0x8000 then some (str.take (str.length % 0x10000)) else none

section Callers

variable {al : Allocator} {m : Blocks} {others : Finset Nat} {aa : ArrayAt}

theorem short_length (n : Nat) : short (UInt16.ofNat n)
    = if n % 0x10000 < 0x8000 then ((n % 0x10000 : Nat) : Int)
      else ((n % 0x10000 : Nat) : Int) - 0x10000 := by
  have hnat : (UInt16.ofNat n).toNat = n % 0x10000 := UInt16.toNat_ofNat'
  unfold short
  simp only [UInt16.lt_iff_toNat_lt, hnat]
  rfl

/-- One string: it is stored, or the code is -1, and then a call failed or the `short` was
negative. -/
theorem Adds.stored {str : Bytes} {rc : Int} {aa' : ArrayAt} {m' : Blocks}
    (h : Adds al m aa (short (UInt16.ofNat str.length)) str rc aa' m') :
    aa'.nitems ≤ aa.nitems + 1 ∧ (none ∈ aa'.texts → none ∈ aa.texts ∨ rc = -1) ∧
      (rc = 0 ∨ (∀ k, al.fails k = false) → aa'.texts = aa.texts ++ [stored str]) := by
  have hshort := short_length str.length
  have hcount : aa'.nitems = aa'.texts.length := (List.length_map ..).symm
  have hcount₀ : aa.texts.length = aa.nitems := List.length_map ..
  cases h with
  | added hpos _ _ _ htexts =>
    have hlow : str.length % 0x10000 < 0x8000 := by
      split at hshort <;> omega
    rw [if_pos hlow] at hshort
    rw [htexts, List.length_append, hcount₀] at hcount
    refine ⟨Nat.le_of_eq hcount, fun hnone => Or.inl ?_, fun _ => ?_⟩
    · rw [htexts] at hnone
      simpa using hnone
    · unfold Client.stored
      rw [if_pos hlow, htexts, hshort, Int.toNat_natCast]
  | noRoom _ hfails _ =>
    refine ⟨Nat.le_succ _, Or.inl, fun hwhen => ?_⟩
    rcases hwhen with hzero | hnever
    · exact absurd hzero (by decide)
    · exact absurd (hfails.symm.trans (hnever _)) (by simp)
  | noString k _ htexts _ _ hwhy =>
    rw [htexts, List.length_append, hcount₀] at hcount
    refine ⟨Nat.le_of_eq hcount, fun _ => Or.inr rfl, fun hwhen => ?_⟩
    rcases hwhen with hzero | hnever
    · exact absurd hzero (by decide)
    rcases hwhy with hneg | ⟨-, hfails, -⟩
    · have hhigh : ¬ str.length % 0x10000 < 0x8000 := by
        split at hshort <;> omega
      unfold Client.stored
      rw [htexts, if_neg hhigh]
    · exact absurd (hfails.symm.trans (hnever _)) (by simp)

variable (al) in
theorem nastArrayAdds_ends {strs : List Bytes} (h : m.Holds others aa.blocks) (haa : aa.Ok)
    (hlen : ∀ str ∈ strs, str.length % 0x10000 ≠ 0xffff)
    (hcount : aa.nitems + strs.length < 0x80000000) :
    ∃ rcs aa' m', nastArrayAdds al strs aa m = some (rcs, aa', m') ∧ aa'.Ok ∧
      m'.Holds others aa'.blocks ∧ (none ∈ aa'.texts → none ∈ aa.texts ∨ -1 ∈ rcs) ∧
      ((∀ rc ∈ rcs, rc = 0) ∨ (∀ k, al.fails k = false) →
        aa'.texts = aa.texts ++ strs.map stored) := by
  induction strs generalizing aa m with
  | nil =>
    refine ⟨[], aa, m, rfl, haa, h, Or.inl, fun _ => ?_⟩
    rw [List.map_nil, List.append_nil]
  | cons str rest ih =>
    obtain ⟨hstr, hrest⟩ := List.forall_mem_cons.mp hlen
    rw [List.length_cons] at hcount
    have hshort := short_length str.length
    have hle : str.length % 0x10000 ≤ str.length := Nat.mod_le ..
    obtain ⟨rc, aa₁, m₁, hadd, hadds, hok, hheld⟩ :=
      nastArrayAdd_adds al (short (UInt16.ofNat str.length)) str h haa (by omega)
        (by split at hshort <;> omega) (by split at hshort <;> omega)
        (by split at hshort <;> omega) (by split at hshort <;> omega)
    obtain ⟨hgrown, hnull, hstored⟩ := hadds.stored
    obtain ⟨rcs, aa', m', hadds', hok', hheld', hnull', hstored'⟩ :=
      ih hheld hok hrest (by omega)
    refine ⟨rc :: rcs, aa', m', ?_, hok', hheld', fun hnone => ?_, fun hwhen => ?_⟩
    · unfold nastArrayAdds
      rw [hadd]
      dsimp only
      rw [hadds']
      rfl
    · rcases hnull' hnone with hnone | hcode
      · refine (hnull hnone).imp id fun hrc => ?_
        rw [hrc]
        exact List.mem_cons_self ..
      · exact Or.inr (List.mem_cons_of_mem _ hcode)
    · rw [hstored' (hwhen.imp (fun h rc hrc => h rc (List.mem_cons_of_mem _ hrc)) id),
        hstored (hwhen.imp (fun h => h rc (List.mem_cons_self ..)) id), List.map_cons,
        List.append_assoc]
      rfl

end Callers

/-- **An array of the caller's.** Filled with any strings, their lengths being cut to a `short`
(and none of them -1), and whichever calls fail, it can be deleted if and only if it holds no
NULL, and nothing is left then. It holds none if every `nast_array_add` returned 0, and
then it has the strings, cut to 65536 bytes; with memory for everything, it holds one for
every string whose length, cut so, is 32768 or more. -/
theorem array_memory (al : Allocator) (m : Blocks) {strs : List Bytes}
    (hlen : ∀ str ∈ strs, str.length % 0x10000 ≠ 0xffff) (hcount : strs.length < 0x80000000) :
    (∃ m', nastArrayNew al m = (none, m') ∧ m'.live = m.live) ∨
    ∃ aa₀ m₀ rcs aa m', nastArrayNew al m = (some aa₀, m₀) ∧
      nastArrayAdds al strs aa₀ m₀ = some (rcs, aa, m') ∧
      (none ∈ aa.texts ↔ nastFreeResult aa m' = none) ∧
      (none ∉ aa.texts → ∃ m'', nastFreeResult aa m' = some m'' ∧ m''.live = m.live) ∧
      (none ∈ aa.texts → -1 ∈ rcs) ∧
      ((∀ rc ∈ rcs, rc = 0) ∨ (∀ k, al.fails k = false) → aa.texts = strs.map stored) := by
  cases hfirst : al.fails m.calls with
  | true =>
    obtain ⟨m', hnew, -, hlive⟩ := nastArrayNew_fails m hfirst
    exact Or.inl ⟨m', hnew, hlive⟩
  | false =>
    obtain ⟨aa₀, m₀, hnew, -, hbuilt⟩ := nastArrayNew_gives m hfirst
    have hcount₀ := hbuilt.nitems
    rw [List.length_nil] at hcount₀
    obtain ⟨rcs, aa, m', hadds, hok, hheld, hnull, hstored⟩ :=
      nastArrayAdds_ends al hbuilt.held hbuilt.ok hlen (by omega)
    rw [hbuilt.texts, List.map_nil] at hnull hstored
    have hslot : none ∈ aa.texts ↔ none ∈ aa.strings := by
      unfold ArrayAt.texts
      rw [List.mem_map]
      refine ⟨fun ⟨r, hr, hnone⟩ => ?_, fun hr => ⟨none, hr, rfl⟩⟩
      rwa [Option.map_eq_none_iff.mp hnone] at hr
    have hfree : none ∉ aa.texts → ∃ m'', nastFreeResult aa m' = some m'' ∧ m''.live = m.live :=
      fun hnone => nastFreeResult_only hheld hok fun hmem => hnone (hslot.mpr hmem)
    refine Or.inr ⟨aa₀, m₀, rcs, aa, m', hnew, hadds, ⟨fun hnone => ?_, fun hnone => ?_⟩, hfree,
      fun hnone => (hnull hnone).resolve_left (by simp), hstored⟩
    · exact nastFreeResult_null hok (hslot.mp hnone)
    · by_contra hall
      obtain ⟨m'', hsome, -⟩ := hfree hall
      exact absurd (hnone.symm.trans hsome) (by simp)

/-- A string of 40000 bytes, with memory for everything: the array cannot be deleted. -/
theorem array_memory_long : ∃ aa₀ m₀ rcs aa m',
    nastArrayNew (.above fun _ => false) ⟨∅, 0⟩ = (some aa₀, m₀) ∧
      nastArrayAdds (.above fun _ => false) [List.replicate 40000 65] aa₀ m₀
        = some (rcs, aa, m') ∧
      nastFreeResult aa m' = none := by
  have hlong : (List.replicate 40000 (65 : Byte)).length = 40000 := List.length_replicate
  have hlen : ∀ str ∈ [List.replicate 40000 (65 : Byte)], str.length % 0x10000 ≠ 0xffff := by
    refine List.forall_mem_singleton.mpr ?_
    rw [hlong]
    decide
  rcases array_memory (.above fun _ => false) ⟨∅, 0⟩ hlen (show 1 < 0x80000000 by decide) with
    ⟨m', hnew, -⟩ | ⟨aa₀, m₀, rcs, aa, m', hnew, hadds, hiff, -, -, hstored⟩
  · obtain ⟨aa₀, m₀, hgives, -⟩ :=
      @nastArrayNew_gives (.above fun _ => false) ⟨∅, 0⟩ rfl
    exact absurd (hnew.symm.trans hgives) (by simp)
  · refine ⟨aa₀, m₀, rcs, aa, m', hnew, hadds, hiff.mp ?_⟩
    rw [hstored (Or.inr fun _ => rfl), List.map_singleton]
    unfold stored
    rw [hlong, if_neg (by decide)]
    exact List.mem_singleton.mpr rfl

end Nastd.Client
