import Nastd.Client.Receive
import Nastd.Lib.Cuts

/-!
# Responses in pieces

A stream socket may deliver the frames in any pieces. `getresponse` keeps nothing from one
`recv` to the next: it takes the start of every chunk for the start of a frame, and a
frame that begins in a chunk for one that ends in it.

`cut_harmless_iff`: the pieces do no harm, whatever lies in memory behind the buffer, if
and only if every chunk is whole frames.
-/

namespace Nastd.Client

open Nastd.Server Nastd.Lib

/-- What all reads together add to the table, and whether no call ended in
`NAST_UNKNOWN_RESPONSE`; each with the memory around its buffer. -/
def readAll : List (Bytes × (Int → Byte)) → List Added × Bool
  | [] => ([], true)
  | (chunk, around) :: reads =>
    ((readChunk chunk around).1 ++ (readAll reads).1,
      (readChunk chunk around).2 && (readAll reads).2)

/-- The chunks add what the frames add when each is a chunk of its own, and no call fails. -/
def CutHarmless (frames chunks : List Bytes) : Prop :=
  ∀ reads own : List (Bytes × (Int → Byte)), reads.map Prod.fst = chunks →
    own.map Prod.fst = frames → (readAll reads).1 = (readAll own).1 ∧ (readAll reads).2 = true

theorem readAll_cons_frames {rs : List Reply} (hne : rs ≠ []) (hfits : ∀ r ∈ rs, Fits r.aa)
    (around : Int → Byte) (reads : List (Bytes × (Int → Byte))) :
    readAll (((rs.map Reply.frame).flatten, around) :: reads)
      = (rs.map Reply.added ++ (readAll reads).1, (readAll reads).2) := by
  rw [readAll, readChunk_frames hne hfits around, Bool.true_and]

/-- Every frame in a chunk of its own. -/
theorem readAll_own :
    ∀ {rs : List Reply} {own : List (Bytes × (Int → Byte))}, (∀ r ∈ rs, Fits r.aa) →
      own.map Prod.fst = rs.map Reply.frame → readAll own = (rs.map Reply.added, true) := by
  intro rs
  induction rs with
  | nil =>
    intro own _ hown
    obtain rfl := List.map_eq_nil_iff.mp hown
    rfl
  | cons r rs ih =>
    intro own hfits hown
    cases own with
    | nil => exact absurd hown (by simp)
    | cons x own =>
      obtain ⟨chunk, around⟩ := x
      obtain ⟨hchunk, hown⟩ := List.cons.inj hown
      have hone : chunk = ([r].map Reply.frame).flatten := by
        simpa using hchunk
      rw [hone, readAll_cons_frames (by simp)
        (fun x hx => hfits x (by rw [List.mem_singleton.mp hx]; exact List.mem_cons_self)) around,
        ih (fun x hx => hfits x (List.mem_cons_of_mem _ hx)) hown]
      rfl

/-- Whole frames do no harm. -/
theorem readAll_aligned :
    ∀ {groups : List (List Bytes)} {rs : List Reply} {reads : List (Bytes × (Int → Byte))},
      (∀ r ∈ rs, Fits r.aa) → groups.flatten = rs.map Reply.frame →
      reads.map Prod.fst = groups.map List.flatten → (∀ x ∈ reads, x.1 ≠ []) →
      readAll reads = (rs.map Reply.added, true) := by
  intro groups
  induction groups with
  | nil =>
    intro rs reads _ hrs hreads _
    obtain rfl := List.map_eq_nil_iff.mp hreads
    obtain rfl := List.map_eq_nil_iff.mp hrs.symm
    rfl
  | cons g groups ih =>
    intro rs reads hfits hrs hreads hne
    obtain ⟨rs₁, rs₂, rfl, rfl, hrest⟩ := List.map_eq_append_iff.mp hrs.symm
    cases reads with
    | nil => exact absurd hreads (by simp)
    | cons x reads =>
      obtain ⟨chunk, around⟩ := x
      obtain ⟨hchunk, hreads⟩ := List.cons.inj hreads
      have hchunk : chunk = (rs₁.map Reply.frame).flatten := hchunk
      have hrs₁ : rs₁ ≠ [] := by
        rintro rfl
        exact hne _ List.mem_cons_self hchunk
      rw [hchunk, readAll_cons_frames hrs₁
        (fun r hr => hfits r (List.mem_append_left _ hr)) around,
        ih (fun r hr => hfits r (List.mem_append_right _ hr)) hrest.symm hreads
          (fun x hx => hne x (List.mem_cons_of_mem _ hx)), List.map_append]

/-! ## A cut inside a frame -/

/-- A frame is put on the table as itself only if it is in memory, whole. -/
theorem at_of_addedAt {mem : Int → Byte} {p : Int} {r : Reply}
    (hadded : addedAt mem p (short (ntohs (mem p) (mem (p + 1)))) = r.added) :
    At mem p r.frame := by
  unfold addedAt at hadded
  dsimp only at hadded
  split at hadded
  next => exact absurd hadded (by simp [Reply.added])
  next hlen =>
    obtain ⟨hid, hcode, hbody⟩ := Added.response.inj hadded
    -- the length field is read back from the length of the body
    have hcount := congrArg List.length hbody
    rw [List.length_map, List.length_range] at hcount
    have hsize : short (ntohs (mem p) (mem (p + 1)))
        = ((5 + (joinItems r.aa).length : Nat) : Int) := by omega
    have hhead : htons (UInt16.ofNat (5 + (joinItems r.aa).length)) = [mem p, mem (p + 1)] := by
      rw [← ofNat_of_short hsize, htons_ntohs]
    have hreqid : htons r.reqid = [mem (p + 2), mem (p + 3)] := by
      rw [← hid, htons_ntohs]
    have hframe : r.frame = [mem p, mem (p + 1), mem (p + 2), mem (p + 3), mem (p + 4)]
        ++ joinItems r.aa := by
      unfold Reply.frame responseFrame
      rw [hhead, hreqid, ← hcode]
      rfl
    rw [hframe]
    intro j hj
    rcases Nat.lt_or_ge j 5 with hj5 | hj5
    · rw [List.getElem_append_left hj5]
      match j with
      | 0 => simp
      | 1 => simp
      | 2 => simp
      | 3 => simp
      | 4 => simp
    · obtain ⟨k, rfl⟩ := Nat.exists_eq_add_of_le hj5
      rw [List.getElem_append_right hj5]
      have hk : k < (joinItems r.aa).length := by
        simp only [List.length_append, List.length_cons, List.length_nil] at hj
        omega
      have hget : (joinItems r.aa)[k] = mem (p + 5 + k) := by
        simp [← hbody]
      have hpos : p + ((5 + k : Nat) : Int) = p + 5 + k := by omega
      have hidx : 5 + k - 5 = k := by omega
      rw [hpos, ← hget]
      congr 1
      exact hidx.symm

/-- A chunk that ends inside the frame of `r` adds something else for `r`, or the call fails,
with this byte behind the chunk. -/
theorem readChunk_inside {rs : List Reply} {r : Reply} {a b : Bytes} {v : Byte}
    (hfits : ∀ x ∈ rs, Fits x.aa) (hr : r.frame = a ++ b) (ha : a ≠ []) (hb : b ≠ [])
    (hv : ∀ h : a.length < r.frame.length, r.frame[a.length] ≠ v)
    (hok : (readChunk ((rs.map Reply.frame).flatten ++ a) fun _ => v).2 = true) :
    ∃ x more, x ≠ r.added ∧
      (readChunk ((rs.map Reply.frame).flatten ++ a) fun _ => v).1
        = rs.map Reply.added ++ x :: more := by
  have hapos := List.length_pos_of_ne_nil ha
  have hbpos := List.length_pos_of_ne_nil hb
  have hle := length_frames rs
  have hlen : ((rs.map Reply.frame).flatten ++ a).length
      = (rs.map Reply.frame).flatten.length + a.length := List.length_append
  obtain ⟨k, hk⟩ := Nat.exists_eq_add_of_le (by omega : rs.length + 1 ≤
    ((rs.map Reply.frame).flatten ++ a).length)
  obtain ⟨hwhole, -⟩ := at_append (bufMem_at ((rs.map Reply.frame).flatten ++ a) fun _ => v)
  unfold readChunk at hok ⊢
  split at hok
  next => exact absurd hok (by simp)
  next hlong =>
    have hend : 0 + ((rs.map Reply.frame).flatten.length : Int)
        ≤ ((rs.map Reply.frame).flatten ++ a).length := by omega
    have hloop := frameLoop_append (k := 1 + k) hfits hwhole (Int.le_refl 0) hend
    rw [← Nat.add_assoc, ← hk, Int.zero_add] at hloop
    rw [if_neg hlong]
    rw [hloop] at hok ⊢
    rw [Nat.add_comm 1 k, frameLoop, if_pos (by omega)] at hok ⊢
    dsimp only at hok ⊢
    split at hok
    next => exact absurd hok (by simp)
    next hbad =>
      rw [if_neg hbad]
      refine ⟨_, _, fun hadded => ?_, rfl⟩
      -- `r` itself would be in memory whole, but behind the chunk is `v`
      have hat := at_of_addedAt hadded a.length (by rw [hr, List.length_append]; omega)
      refine hv (by rw [hr, List.length_append]; omega) ?_
      rw [← hat, bufMem, if_neg (by omega)]

/-! ## Which cuts do no harm -/

/-- Every read with the same bytes around its buffer. -/
def withMem (around : Int → Byte) (chunks : List Bytes) : List (Bytes × (Int → Byte)) :=
  chunks.map fun c => (c, around)

theorem withMem_fst (around : Int → Byte) (chunks : List Bytes) :
    (withMem around chunks).map Prod.fst = chunks := by
  unfold withMem
  rw [List.map_map]
  exact List.map_id chunks

theorem aligned_of_harmless :
    ∀ {chunks : List Bytes} {rs : List Reply}, (∀ r ∈ rs, Fits r.aa) →
      Cut 1024 (rs.map Reply.frame) chunks → CutHarmless (rs.map Reply.frame) chunks →
      Aligned (rs.map Reply.frame) chunks := by
  intro chunks
  induction chunks with
  | nil =>
    intro rs _ hcut _
    cases rs with
    | nil => exact aligned_nil
    | cons r rs =>
      have hlen := congrArg List.length hcut.stream
      have hle := length_frames (r :: rs)
      rw [← hlen, List.length_cons] at hle
      exact absurd hle (by simp)
  | cons c chunks ih =>
    intro rs hfits hcut hharm
    have hown := readAll_own hfits (withMem_fst (fun _ => 0) (rs.map Reply.frame))
    rcases flatten_cut hcut.stream with ⟨g, h, hframes, rfl, hrest⟩
      | ⟨g, f, h, a, b, hframes, hf, ha, hb, rfl, hrest⟩
    · -- behind a whole frame: the rest has to do no harm either
      obtain ⟨rs₁, rs₂, rfl, rfl, rfl⟩ := List.map_eq_append_iff.mp hframes
      have hfits₁ : ∀ r ∈ rs₁, Fits r.aa := fun r hr => hfits r (List.mem_append_left _ hr)
      have hfits₂ : ∀ r ∈ rs₂, Fits r.aa := fun r hr => hfits r (List.mem_append_right _ hr)
      have hne : rs₁ ≠ [] := by
        rintro rfl
        exact hcut.nonempty _ List.mem_cons_self rfl
      rw [List.map_append]
      have hcut₂ : Cut 1024 (rs₂.map Reply.frame) chunks :=
        ⟨hrest, fun c hc => hcut.nonempty c (List.mem_cons_of_mem _ hc),
          fun c hc => hcut.fits c (List.mem_cons_of_mem _ hc)⟩
      refine aligned_cons (ih hfits₂ hcut₂ ?_)
      intro reads own hreads hown₂
      obtain ⟨hsame, hok⟩ := hharm (((rs₁.map Reply.frame).flatten, fun _ => 0) :: reads) _
        (by rw [List.map_cons, hreads]) (withMem_fst (fun _ => 0) _)
      rw [hown, readAll_cons_frames hne hfits₁, List.map_append] at hsame
      rw [readAll_cons_frames hne hfits₁] at hok
      rw [readAll_own hfits₂ hown₂]
      exact ⟨List.append_cancel_left hsame, hok⟩
    · -- inside a frame: some memory behind the chunk does harm
      exfalso
      obtain ⟨rs₁, rs₂, rfl, rfl, hrs₂⟩ := List.map_eq_append_iff.mp hframes
      obtain ⟨r, rs₃, rfl, hr, rfl⟩ := List.map_eq_cons_iff.mp hrs₂
      have hfits₁ : ∀ r ∈ rs₁, Fits r.aa := fun r hr => hfits r (List.mem_append_left _ hr)
      obtain ⟨v, hv⟩ : ∃ v : Byte, ∀ h : a.length < r.frame.length, r.frame[a.length] ≠ v := by
        by_cases hz : ∃ h : a.length < r.frame.length, r.frame[a.length] = 0
        · obtain ⟨h, hz⟩ := hz
          exact ⟨1, fun _ => by rw [hz]; decide⟩
        · exact ⟨0, fun h he => hz ⟨h, he⟩⟩
      obtain ⟨hsame, hok⟩ := hharm (withMem (fun _ => v) _) _ (withMem_fst _ _)
        (withMem_fst (fun _ => 0) _)
      rw [hown] at hsame
      unfold withMem at hsame hok
      rw [List.map_cons, readAll] at hsame hok
      obtain ⟨x, more, hx, hadds⟩ := readChunk_inside hfits₁ (hr.trans hf) ha hb hv
        (Bool.and_eq_true_iff.mp hok).1
      dsimp only at hsame
      rw [hadds, List.map_append, List.append_assoc] at hsame
      exact hx (List.cons.inj (List.append_cancel_left hsame)).1

/-- The reads of a stream of responses add what the frames add one by one, and none fails,
if and only if every chunk is whole frames. -/
theorem cut_harmless_iff {rs : List Reply} {frames chunks : List Bytes}
    (hsent : rs.map (fun r => arrSendResponse r.reqid r.rCode r.aa) = frames.map some)
    (hcut : Cut 1024 frames chunks) : CutHarmless frames chunks ↔ Aligned frames chunks := by
  obtain ⟨hfits, rfl⟩ := sent_frames hsent
  constructor
  · exact aligned_of_harmless hfits hcut
  · rintro ⟨groups, hgroups, rfl⟩ reads own hreads hown
    rw [readAll_own hfits hown, readAll_aligned hfits hgroups hreads]
    · exact ⟨rfl, rfl⟩
    · intro x hx
      exact hcut.nonempty _ (hreads ▸ List.mem_map_of_mem hx)

/-- Two responses in one chunk. -/
theorem cut_harmless_iff_together :
    CutHarmless [[0, 7, 0, 2, 0xf1, 97, 98], [0, 5, 0, 1, 0xf2]]
      [[0, 7, 0, 2, 0xf1, 97, 98, 0, 5, 0, 1, 0xf2]] := by
  have hsent : [⟨2, NASTOK, [[97, 98]]⟩, ⟨1, NASTERR, []⟩].map
      (fun r : Reply => arrSendResponse r.reqid r.rCode r.aa)
        = [[0, 7, 0, 2, 0xf1, 97, 98], [0, 5, 0, 1, 0xf2]].map some := by decide
  refine (cut_harmless_iff hsent ⟨by decide, by decide, by decide⟩).mpr ?_
  exact ⟨[[[0, 7, 0, 2, 0xf1, 97, 98], [0, 5, 0, 1, 0xf2]]], by decide, by decide⟩

/-- One response in two chunks: the first holds its header, and its call ends in
`NAST_UNKNOWN_RESPONSE`. -/
theorem split_response :
    arrSendResponse 2 NASTOK [[97, 98, 99]] = some [0, 8, 0, 2, 0xf1, 97, 98, 99] ∧
      Cut 1024 [[0, 8, 0, 2, 0xf1, 97, 98, 99]] [[0, 8, 0, 2, 0xf1, 97], [98, 99]] ∧
      ¬ CutHarmless [[0, 8, 0, 2, 0xf1, 97, 98, 99]] [[0, 8, 0, 2, 0xf1, 97], [98, 99]] := by
  refine ⟨by decide, ⟨rfl, by decide, by decide⟩, fun h => ?_⟩
  have hok := (h (withMem (fun _ => 0) [[0, 8, 0, 2, 0xf1, 97], [98, 99]]) _ (withMem_fst _ _)
    (withMem_fst (fun _ => 0) _)).2
  exact absurd hok (by decide)

end Nastd.Client
