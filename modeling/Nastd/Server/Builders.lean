import Nastd.Lib.Pack
import Nastd.Server.KeyWire

/-!
# What the message builders store

`arr_send_response` packs the items of a response into 1024 bytes, `nast_upd` the values of
an update into 512. Both test the room for an item and then store a separator behind it
as well (`Lib/Pack.lean`), so an item that fills the buffer to its last byte, with another
behind it, puts the separator next to the buffer. `nast_upd` also takes the length of a
value as a `short`.

* `ResponseInside`, `UpdInside`: every store has its index below the size of the buffer,
  and what does not fit is not sent.
* `builders_inside_iff`: for which items and values that holds.
-/

namespace Nastd.Server

open Nastd.Lib Nastd.Client

/-! ## The stores -/

/-- The indexes `arr_send_response` stores to: the id, the code, the items, and the length if
they fit. -/
def responseStores (reqid : UInt16) (rCode : Byte) (aa : List Bytes) : List Int :=
  ([2, 3, 4] : List Int) ++ packStores 1024 5 (aa.map fun s => (s.length : Int)) ++
    if (arrSendResponse reqid rCode aa).isSome then [0, 1] else []

/-- The indexes `nast_upd` stores to: the id, the command and the key, the values, and the
length if they were not refused. -/
def updStores (key : Bytes) (vals : List Bytes) : List Int :=
  let text := [NASTCMD, NASTUPD] ++ cstr key ++ [NASTSEP]
  let bufflen := short (UInt16.ofNat (4 + text.length))
  ([2, 3] : List Int) ++
    (List.range (snprintf 508 text).length).map (fun i : Nat => 4 + (i : Int)) ++
    packStores 512 bufflen (valueLengths vals) ++
    match valuesEnd bufflen (valueLengths vals) with
    | some (some _) => [0, 1]
    | _ => []

/-- `arr_send_response` stays inside its buffer, and writes nothing if the frame does not
fit. -/
structure ResponseInside (reqid : UInt16) (rCode : Byte) (aa : List Bytes) : Prop where
  stores : ∀ i ∈ responseStores reqid rCode aa, 0 ≤ i ∧ i < 1024
  refused : 1024 < 5 + (joinItems aa).length → arrSendResponse reqid rCode aa = none

/-- `nast_upd` stays inside its buffer, and sends nothing if the frame does not fit. -/
structure UpdInside (tid : UInt16) (key : Bytes) (vals : List Bytes) (behind : Nat → Byte)
    (answer : Int) : Prop where
  stores : ∀ i ∈ updStores key vals, 0 ≤ i ∧ i < 512
  refused : 512 < 7 + (cstr key).length + (joinItems vals).length →
    ∃ c, nastUpdCall tid key vals behind answer = some c ∧ c.sent = []

/-- No item with another behind it ends with the last byte of the buffer. -/
def ResponsePackable (aa : List Bytes) : Prop :=
  ∀ pre s rest, aa = pre ++ s :: rest → rest ≠ [] → 5 + (joinItems (pre ++ [s])).length ≠ 1024

/-- The same for values, with their lengths as `short`s: nor is any that comes up negative
and passes the test; and where all of them pass, none has 65536 bytes or more. -/
def UpdPackable (key : Bytes) (vals : List Bytes) : Prop :=
  Packable 512 (7 + (cstr key).length) (valueLengths vals) ∧
    ((∀ n ∈ valueLengths vals, 0 ≤ n) →
      filled (7 + (cstr key).length) (valueLengths vals) ≤ 513 → ∀ v ∈ vals, v.length < 65536)

/-! ## Responses -/

/-- Items of any lengths, each with a separator: one more byte than their frame has. -/
theorem filled_lengths (l : Int) : ∀ {aa : List Bytes}, aa ≠ [] →
    filled l (aa.map fun s => (s.length : Int)) = l + (joinItems aa).length + 1 := by
  intro aa
  induction aa generalizing l with
  | nil => exact fun h => absurd rfl h
  | cons s rest ih =>
    intro _
    rw [List.map_cons, filled_cons]
    cases rest with
    | nil => rw [joinItems_single, List.map_nil, filled_nil]
    | cons t rest =>
      rw [ih _ (List.cons_ne_nil t rest), joinItems_cons]
      simp only [List.length_append, List.length_singleton]
      push_cast
      omega

theorem lengths_nonneg (aa : List Bytes) : ∀ n ∈ aa.map fun s => (s.length : Int), 0 ≤ n := by
  intro n hn
  obtain ⟨s, -, rfl⟩ := List.mem_map.mp hn
  exact Int.natCast_nonneg _

/-- The end of an item is where the next would go without the separator. -/
theorem filled_last (l : Int) (pre : List Bytes) (s : Bytes) :
    filled l (pre.map fun s => (s.length : Int)) + s.length
      = l + (joinItems (pre ++ [s])).length := by
  have h := filled_lengths l (show pre ++ [s] ≠ [] by simp)
  rw [List.map_append, filled_append, List.map_singleton, filled_cons, filled_nil] at h
  omega

/-- For true lengths `Packable` is about full buffers only. -/
theorem packable_lengths (aa : List Bytes) :
    Packable 1024 5 (aa.map fun s => (s.length : Int)) ↔ ResponsePackable aa := by
  constructor
  · intro h pre s rest heq hrest hfull
    have hend := filled_last 5 pre s
    have hitem := (h (pre.map fun s => (s.length : Int)) s.length
      (rest.map fun s => (s.length : Int)) (by rw [heq]; simp) (lengths_nonneg pre) (by omega)).2
    exact hitem (by simpa using hrest) (by omega)
  · intro h pre n rest heq _ _
    obtain ⟨pre', tail, rfl, rfl, htail⟩ := List.map_eq_append_iff.mp heq
    obtain ⟨s, rest', rfl, rfl, rfl⟩ := List.map_eq_cons_iff.mp htail
    refine ⟨fun hneg => ?_, fun hrest hfull => ?_⟩
    · have := Int.natCast_nonneg s.length
      omega
    · rw [filled_last] at hfull
      exact h pre' s rest' rfl (by simpa using hrest) (by omega)

theorem responseInside_iff (reqid : UInt16) (rCode : Byte) (aa : List Bytes) :
    ResponseInside reqid rCode aa ↔ ResponsePackable aa := by
  rw [← packable_lengths, ← packStores_inside (by decide) (by decide) (by decide)]
  constructor
  · intro h i hi
    exact h.stores i (List.mem_append_left _ (List.mem_append_right _ hi))
  · intro h
    refine ⟨fun i hi => ?_, fun hbig => ?_⟩
    · rcases List.mem_append.mp hi with hi | hi
      · rcases List.mem_append.mp hi with hi | hi
        · have hhead : i = 2 ∨ i = 3 ∨ i = 4 := by simpa using hi
          omega
        · exact h i hi
      · split at hi
        · have hlen : i = 0 ∨ i = 1 := by simpa using hi
          omega
        · exact absurd hi List.not_mem_nil
    · rw [arrSendResponse_eq]
      exact if_neg (Nat.not_le.mpr hbig)

/-! ## Updates -/

/-- What the end of the loop over the values says about their lengths. -/
def EndTells (l : Int) (lens : List Int) : Option (Option Int) → Prop
  | none => l ≤ 512 → ¬ Packable 512 l lens
  | some none => ¬ ((∀ n ∈ lens, 0 ≤ n) ∧ filled l lens ≤ 513)
  | some (some e) =>
    (∀ n ∈ lens, 0 ≤ n) ∧ (lens = [] ∧ e = l ∨ e + 1 = filled l lens ∧ e ≤ 512)

theorem valuesEnd_tells :
    ∀ {lens : List Int} {l : Int}, 0 ≤ l → l ≤ 513 → EndTells l lens (valuesEnd l lens) := by
  intro lens
  induction lens with
  | nil =>
    intro l _ _
    exact ⟨fun n hn => absurd hn List.not_mem_nil, Or.inl ⟨rfl, rfl⟩⟩
  | cons n rest ih =>
    intro l hl hmax
    rw [valuesEnd]
    by_cases hroom : l + n < 0 ∨ l + n > 512
    · rw [if_pos hroom]
      intro hfits
      obtain ⟨hall, hfit⟩ := hfits
      obtain ⟨hn, hrest⟩ := List.forall_mem_cons.mp hall
      have := le_filled (l := l + n + 1) hrest
      rw [filled_cons] at hfit
      omega
    rw [if_neg hroom]
    by_cases hneg : n < 0
    · rw [if_pos (Or.inr hneg)]
      intro hle hpack
      exact ((packable_cons hle).mp hpack).1.1 ⟨hneg, by omega⟩
    rw [if_neg (by omega)]
    by_cases hlast : rest = []
    · subst hlast
      rw [if_pos rfl]
      refine ⟨fun m hm => ?_, Or.inr ⟨filled_nil.symm, by omega⟩⟩
      rw [List.mem_singleton.mp hm]
      omega
    rw [if_neg hlast]
    have hih := ih (l := l + n + 1) (by omega) (by omega)
    generalize valuesEnd (l + n + 1) rest = r at hih ⊢
    cases r with
    | none =>
      intro hle hpack
      obtain ⟨⟨-, hfull⟩, htail⟩ := (packable_cons hle).mp hpack
      have hne := hfull hlast
      exact hih (by omega) (htail (by omega))
    | some r =>
      cases r with
      | none =>
        intro hfits
        exact hih ⟨(List.forall_mem_cons.mp hfits.1).2, hfits.2⟩
      | some e =>
        obtain ⟨hall, hend⟩ := hih
        refine ⟨List.forall_mem_cons.mpr ⟨by omega, hall⟩, Or.inr (hend.resolve_left ?_)⟩
        exact fun h => hlast h.1

/-- A length below 65536 that is not negative as a `short` is that `short`. -/
theorem short_ofNat_nonneg {n : Nat} (hn : n < 65536) (h : 0 ≤ short (UInt16.ofNat n)) :
    short (UInt16.ofNat n) = n := by
  have htn : (UInt16.ofNat n).toNat = n := by
    rw [UInt16.toNat_ofNat']
    omega
  unfold short at h ⊢
  rw [htn] at h ⊢
  split
  · rfl
  · next hlarge =>
    rw [if_neg hlarge] at h
    omega

theorem valueLengths_eq {vals : List Bytes} (hall : ∀ n ∈ valueLengths vals, 0 ≤ n)
    (hlt : ∀ v ∈ vals, v.length < 65536) :
    valueLengths vals = vals.map fun v => (v.length : Int) := by
  refine List.map_congr_left fun v hv => ?_
  exact short_ofNat_nonneg (hlt v hv) (hall _ (List.mem_map_of_mem hv))

/-- A frame with a value of 65536 bytes does not fit. -/
theorem length_le_joinItems {vals : List Bytes} {v : Bytes} (hv : v ∈ vals) :
    v.length ≤ (joinItems vals).length := by
  induction vals with
  | nil => exact absurd hv List.not_mem_nil
  | cons s rest ih =>
    cases rest with
    | nil =>
      rw [List.mem_singleton.mp hv, joinItems_single]
    | cons t rest =>
      rw [joinItems_cons]
      simp only [List.length_append, List.length_singleton]
      rcases List.mem_cons.mp hv with rfl | hv
      · omega
      · have := ih hv
        omega

section Upd

variable {tid : UInt16} {key : Bytes} {vals : List Bytes} {behind : Nat → Byte} {answer : Int}

/-- The header of an update. -/
theorem upd_header (hkey : 7 + (cstr key).length ≤ 512) :
    short (UInt16.ofNat (4 + ([NASTCMD, NASTUPD] ++ cstr key ++ [NASTSEP]).length))
      = 7 + (cstr key).length := by
  have hlen : 4 + ([NASTCMD, NASTUPD] ++ cstr key ++ [NASTSEP]).length
      = 7 + (cstr key).length := by
    simp only [List.length_append, List.length_cons, List.length_nil]
    omega
  rw [hlen, short_ofNat (by omega)]
  omega

theorem updStores_iff (hkey : 7 + (cstr key).length ≤ 512) :
    (∀ i ∈ updStores key vals, 0 ≤ i ∧ i < 512)
      ↔ Packable 512 (7 + (cstr key).length) (valueLengths vals) := by
  rw [← packStores_inside (by decide) (by omega) (by omega)]
  unfold updStores
  dsimp only
  rw [upd_header hkey]
  constructor
  · intro h i hi
    exact h i (List.mem_append_left _ (List.mem_append_right _ hi))
  · intro h i hi
    rcases List.mem_append.mp hi with hi | hi
    · rcases List.mem_append.mp hi with hi | hi
      · rcases List.mem_append.mp hi with hi | hi
        · have hid : i = 2 ∨ i = 3 := by simpa using hi
          omega
        · obtain ⟨k, hk, rfl⟩ := List.mem_map.mp hi
          have hlt := List.mem_range.mp hk
          rw [snprintf_length] at hlt
          omega
      · exact h i hi
    · split at hi
      · have hlen : i = 0 ∨ i = 1 := by simpa using hi
        omega
      · exact absurd hi List.not_mem_nil

/-- Where the stores are inside, what does not fit is refused unless a length of 65536 or more
was taken for a small one. -/
theorem updRefused_iff (hkey : 7 + (cstr key).length ≤ 512)
    (hpack : Packable 512 (7 + (cstr key).length) (valueLengths vals)) :
    (512 < 7 + (cstr key).length + (joinItems vals).length →
        ∃ c, nastUpdCall tid key vals behind answer = some c ∧ c.sent = []) ↔
      ((∀ n ∈ valueLengths vals, 0 ≤ n) →
        filled (7 + (cstr key).length) (valueLengths vals) ≤ 513 →
          ∀ v ∈ vals, v.length < 65536) := by
  have hcases := @valuesEnd_tells (valueLengths vals) (7 + (cstr key).length) (by omega)
    (by omega)
  have hend := updLoop_end vals
    (bufferMem ([0, 0] ++ htons tid ++
      snprintf 508 ([NASTCMD, NASTUPD] ++ cstr key ++ [NASTSEP])) behind)
    (7 + (cstr key).length)
  unfold nastUpdCall
  dsimp only
  rw [upd_header hkey]
  generalize updLoop _ _ vals = r at hend ⊢
  cases r with
  | wild =>
    rw [hend] at hcases
    exact absurd hpack (hcases (by omega))
  | refused =>
    rw [hend] at hcases
    refine iff_of_true (fun _ => ⟨_, rfl, rfl⟩) fun hall hfit => ?_
    exact absurd ⟨hall, hfit⟩ hcases
  | built mem e =>
    obtain ⟨hvals, hle, -⟩ := hend
    rw [hvals] at hcases
    obtain ⟨hall, hsum⟩ := hcases
    constructor
    · intro hrefused _ _ v hv
      by_contra hlong
      have := length_le_joinItems hv
      obtain ⟨c, hc, hnil⟩ := hrefused (by omega)
      rw [← Option.some.inj hc, sendcmdWrites_eq_nil] at hnil
      omega
    · intro hshort hbig
      rcases hsum with ⟨hnil, -⟩ | ⟨hfilled, hmax⟩
      · rw [List.map_eq_nil_iff.mp hnil, joinItems_nil, List.length_nil] at hbig
        omega
      · have hlens := valueLengths_eq hall (hshort hall (by omega))
        have hne : vals ≠ [] := by
          intro hnil
          rw [hnil, joinItems_nil, List.length_nil] at hbig
          omega
        rw [hlens, filled_lengths _ hne] at hfilled
        omega

theorem updInside_iff (hkey : 7 + (cstr key).length ≤ 512) :
    UpdInside tid key vals behind answer ↔ UpdPackable key vals := by
  constructor
  · intro h
    have hpack := (updStores_iff hkey).mp h.stores
    exact ⟨hpack, (updRefused_iff hkey hpack).mp h.refused⟩
  · intro ⟨hpack, hshort⟩
    exact ⟨(updStores_iff hkey).mpr hpack, (updRefused_iff hkey hpack).mpr hshort⟩

end Upd

/-! ## Both -/

/-- `arr_send_response` stays inside its 1024 bytes and sends nothing that does not fit if and
only if no item with another behind it ends with the last of them; `nast_upd`, for any key
that fits, if and only if that holds of the lengths it computes with and those are the
lengths of the values. -/
theorem builders_inside_iff (reqid : UInt16) (rCode : Byte) (aa : List Bytes) (tid : UInt16)
    (key : Bytes) (vals : List Bytes) (behind : Nat → Byte) (answer : Int)
    (hkey : 7 + (cstr key).length ≤ 512) :
    (ResponseInside reqid rCode aa ↔ ResponsePackable aa) ∧
      (UpdInside tid key vals behind answer ↔ UpdPackable key vals) :=
  ⟨responseInside_iff reqid rCode aa, updInside_iff hkey⟩

/-- A response of two items, and an update of one. -/
theorem builders_inside_small :
    ResponseInside 7 NASTOK [[65], [66]] ∧ UpdInside 7 [98, 111, 98] [[55]] (fun _ => 0) 0 := by
  have h := builders_inside_iff 7 NASTOK [[65], [66]] 7 [98, 111, 98] [[55]] (fun _ => 0) 0
    (by decide)
  refine ⟨h.1.mpr ?_, h.2.mpr ⟨?_, fun _ _ v hv => ?_⟩⟩
  · intro pre s rest heq hrest
    cases pre with
    | nil =>
      obtain ⟨rfl, -⟩ := List.cons.inj heq
      decide
    | cons t pre =>
      have hlen := congrArg List.length heq
      have hpos := List.length_pos_of_ne_nil hrest
      simp only [List.length_append, List.length_cons, List.length_nil] at hlen
      omega
  · exact (packable_cons (by decide)).mpr ⟨⟨by decide, fun h => absurd rfl h⟩,
      fun _ => packable_nil⟩
  · rw [List.mem_singleton.mp hv]
    decide

/-- 1019 bytes and an empty item behind them: the separator is stored at index 1024. -/
theorem separator_past_buffer :
    ¬ ∀ (reqid : UInt16) (rCode : Byte) (aa : List Bytes) (tid : UInt16) (key : Bytes)
      (vals : List Bytes) (behind : Nat → Byte) (answer : Int), 7 + (cstr key).length ≤ 512 →
      ResponseInside reqid rCode aa ∧ UpdInside tid key vals behind answer := by
  intro h
  have hpack := (responseInside_iff 7 NASTOK [List.replicate 1019 65, []]).mp
    (h 7 NASTOK [List.replicate 1019 65, []] 7 [] [] (fun _ => 0) 0 (by decide)).1
  refine hpack [] (List.replicate 1019 65) [[]] rfl (by simp) ?_
  rw [List.nil_append, joinItems_single, List.length_replicate]

end Nastd.Server
