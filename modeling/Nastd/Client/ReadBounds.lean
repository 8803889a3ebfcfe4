import Nastd.Client.Receive
import Nastd.Server.InputBounds

/-!
# What a read of responses touches

The loop of `getresponse` takes a frame's length from the frame, and compares it with the
number of bytes that `recv` brought but not with how many of them are left. `frameReads`
is every byte it looks at or hands to `addresponse`.

* `chunk_reads`: for any bytes at all it stays below twice their number, and keeps to them
  exactly if they are `Whole` frames up to the first length that makes no sense.
* `whole_frames`: what the server sends is, when it comes whole.
-/

namespace Nastd.Client

open Nastd.Server

/-- Where the loop reads, the bytes that it hands to `addresponse` among them. -/
def frameReads (mem : Int → Byte) (nbytes : Int) : Nat → Int → List Int
  | 0, _ => []
  | fuel + 1, p =>
    if p < nbytes then
      let bufflen := short (ntohs (mem p) (mem (p + 1)))
      if bufflen ≤ 0 ∨ bufflen > nbytes then [p, p + 1]
      else
        [p, p + 1, p + 2, p + 3, p + 4] ++
          (List.range (bufflen - 5).toNat).map (fun j : Nat => p + 5 + j) ++
          frameReads mem nbytes fuel (p + bufflen)
    else []

/-- Where a call reads that got `chunk`. -/
def chunkReads (chunk : Bytes) (around : Int → Byte) : List Int :=
  frameReads (bufMem chunk around) chunk.length chunk.length 0

/-- Of `n` bytes received these are left: frames that end within them, each with room for its
code, up to the end or to a length that the loop refuses. -/
inductive Whole (n : Nat) : Bytes → Prop where
  | done : Whole n []
  | refused {hi lo : Byte} {rest : Bytes} :
      short (ntohs hi lo) ≤ 0 ∨ short (ntohs hi lo) > n → Whole n (hi :: lo :: rest)
  | next {hi lo : Byte} {rest : Bytes} : 0 < short (ntohs hi lo) → short (ntohs hi lo) ≤ n →
      3 ≤ rest.length → short (ntohs hi lo) ≤ 2 + rest.length →
      Whole n ((hi :: lo :: rest).drop (short (ntohs hi lo)).toNat) → Whole n (hi :: lo :: rest)

section Loop

variable {mem mem' : Int → Byte} {nbytes : Int}

/-- A length that the loop goes by. -/
def Sensible (nbytes bufflen : Int) : Prop := 0 < bufflen ∧ bufflen ≤ nbytes

theorem frameReads_stop {p : Int} (hp : p < nbytes)
    (hlen : ¬ Sensible nbytes (short (ntohs (mem p) (mem (p + 1))))) (fuel : Nat) :
    frameReads mem nbytes (fuel + 1) p = [p, p + 1] := by
  unfold Sensible at hlen
  rw [frameReads, if_pos hp]
  dsimp only
  rw [if_pos (by omega)]

theorem frameReads_next {p : Int} (hp : p < nbytes)
    (hlen : Sensible nbytes (short (ntohs (mem p) (mem (p + 1))))) (fuel : Nat) :
    frameReads mem nbytes (fuel + 1) p = [p, p + 1, p + 2, p + 3, p + 4] ++
      (List.range (short (ntohs (mem p) (mem (p + 1))) - 5).toNat).map (fun j : Nat => p + 5 + j) ++
      frameReads mem nbytes fuel (p + short (ntohs (mem p) (mem (p + 1)))) := by
  unfold Sensible at hlen
  rw [frameReads, if_pos hp]
  dsimp only
  rw [if_neg (by omega)]

theorem frameReads_end {p : Int} (hp : ¬ p < nbytes) (fuel : Nat) :
    frameReads mem nbytes fuel p = [] := by
  cases fuel with
  | zero => rfl
  | succ fuel => rw [frameReads, if_neg hp]

/-- One frame reads its header and code, and its body if it has one. -/
theorem mem_reads {p bufflen i : Int} {rest : List Int} :
    i ∈ [p, p + 1, p + 2, p + 3, p + 4] ++
        (List.range (bufflen - 5).toNat).map (fun j : Nat => p + 5 + j) ++ rest ↔
      (p ≤ i ∧ i < p + 5) ∨ (p + 5 ≤ i ∧ i < p + bufflen) ∨ i ∈ rest := by
  rw [List.mem_append, List.mem_append, or_assoc]
  apply or_congr
  · simp only [List.mem_cons, List.not_mem_nil, or_false]
    omega
  · apply or_congr _ Iff.rfl
    rw [List.mem_map]
    constructor
    · rintro ⟨j, hj, rfl⟩
      have hlt := List.mem_range.mp hj
      omega
    · intro hi
      refine ⟨(i - (p + 5)).toNat, List.mem_range.mpr ?_, ?_⟩
      · omega
      · omega

/-- The loop knows the memory by what it reads. -/
theorem frameLoop_congr {fuel : Nat} {p : Int}
    (h : ∀ i ∈ frameReads mem nbytes fuel p, mem' i = mem i) :
    frameLoop mem' nbytes fuel p = frameLoop mem nbytes fuel p := by
  induction fuel generalizing p with
  | zero => rfl
  | succ fuel ih =>
    by_cases hp : p < nbytes
    · by_cases hlen : Sensible nbytes (short (ntohs (mem p) (mem (p + 1))))
      · rw [frameReads_next hp hlen] at h
        have hat : ∀ i, p ≤ i → i < p + 5 → mem' i = mem i := fun i h1 h2 =>
          h i (mem_reads.mpr (Or.inl ⟨h1, h2⟩))
        have hadded : addedAt mem' p (short (ntohs (mem p) (mem (p + 1))))
            = addedAt mem p (short (ntohs (mem p) (mem (p + 1)))) := by
          unfold addedAt
          rw [hat (p + 2) (by omega) (by omega), hat (p + 3) (by omega) (by omega),
            hat (p + 4) (by omega) (by omega)]
          refine if_congr Iff.rfl rfl (congrArg _ (List.map_congr_left fun j hj => ?_))
          have hlt := List.mem_range.mp hj
          exact h _ (mem_reads.mpr (Or.inr (Or.inl ⟨by omega, by omega⟩)))
        -- the frame is the same in both, and so is where the next one starts
        have hrest := ih fun i hi => h i (mem_reads.mpr (Or.inr (Or.inr hi)))
        rw [frameLoop, frameLoop, if_pos hp, if_pos hp]
        dsimp only
        rw [hat p (Int.le_refl p) (by omega), hat (p + 1) (by omega) (by omega), hadded, hrest]
      · rw [frameReads_stop hp hlen] at h
        rw [frameLoop, frameLoop, if_pos hp, if_pos hp]
        dsimp only
        unfold Sensible at hlen
        rw [h p (by simp), h (p + 1) (by simp), if_pos (by omega), if_pos (by omega)]
    · rw [frameLoop, frameLoop, if_neg hp, if_neg hp]

/-- It needs no more rounds than there are bytes. -/
theorem frameLoop_fuel {fuel : Nat} {p : Int} (h : nbytes - p ≤ fuel) (more : Nat) :
    frameLoop mem nbytes (fuel + more) p = frameLoop mem nbytes fuel p := by
  induction fuel generalizing p with
  | zero => rw [frameLoop_end (by omega), frameLoop_end (by omega)]
  | succ fuel ih =>
    rw [Nat.add_right_comm]
    by_cases hp : p < nbytes
    · rw [frameLoop, frameLoop, if_pos hp, if_pos hp]
      dsimp only
      split
      next => rfl
      next hlen => rw [ih (by omega)]
    · rw [frameLoop_end hp, frameLoop_end hp]

/-- It reads less than twice as far as there are bytes. -/
theorem frameReads_lt {fuel : Nat} {p : Int} (h5 : 5 ≤ nbytes) (hpos : 0 ≤ p) :
    ∀ i ∈ frameReads mem nbytes fuel p, 0 ≤ i ∧ i < 2 * nbytes - 1 := by
  induction fuel generalizing p with
  | zero => exact fun i hi => absurd hi (by simp [frameReads])
  | succ fuel ih =>
    intro i hi
    by_cases hp : p < nbytes
    · by_cases hlen : Sensible nbytes (short (ntohs (mem p) (mem (p + 1))))
      · rw [frameReads_next hp hlen] at hi
        unfold Sensible at hlen
        rcases mem_reads.mp hi with ⟨h1, h2⟩ | ⟨h1, h2⟩ | hrest
        · omega
        · omega
        · exact ih (by omega) i hrest
      · rw [frameReads_stop hp hlen] at hi
        simp only [List.mem_cons, List.not_mem_nil, or_false] at hi
        omega
    · rw [frameReads_end hp] at hi
      exact absurd hi (by simp)

end Loop

/-! ## Whole frames -/

section Frames

variable {mem : Int → Byte} {n : Nat}

/-- From here on the loop keeps to the bytes that are left if and only if they are whole. -/
theorem reads_inside_iff {fuel : Nat} {p : Int} {bytes : Bytes} (hat : At mem p bytes)
    (hend : p + bytes.length = n) (hfuel : bytes.length ≤ fuel) :
    (∀ i ∈ frameReads mem n fuel p, i < n) ↔ Whole n bytes := by
  induction fuel generalizing p bytes with
  | zero =>
    have hnil : bytes = [] := List.length_eq_zero_iff.mp (Nat.le_zero.mp hfuel)
    subst hnil
    exact iff_of_true (fun i hi => absurd hi (by simp [frameReads])) .done
  | succ fuel ih =>
    rcases bytes with _ | ⟨hi, _ | ⟨lo, rest⟩⟩
    · have hp : ¬ p < (n : Int) := by
        rw [List.length_nil] at hend
        omega
      rw [frameReads_end hp]
      exact iff_of_true (fun i hi => absurd hi (by simp)) .done
    · -- the second byte of the length is not there
      have hp : p < (n : Int) := by
        simp only [List.length_singleton] at hend
        omega
      have hbehind : p + 1 ∈ frameReads mem n (fuel + 1) p := by
        by_cases hlen : Sensible n (short (ntohs (mem p) (mem (p + 1))))
        · rw [frameReads_next hp hlen]
          exact mem_reads.mpr (Or.inl ⟨by omega, by omega⟩)
        · rw [frameReads_stop hp hlen]
          simp
      refine iff_of_false (fun hall => ?_) (fun hwhole => nomatch hwhole)
      have hlt := hall _ hbehind
      simp only [List.length_singleton] at hend
      omega
    · have h0 : mem p = hi := by
        have hget := hat 0 (by simp)
        rwa [Int.natCast_zero, Int.add_zero] at hget
      have h1 : mem (p + 1) = lo := hat 1 (by simp)
      simp only [List.length_cons] at hend hfuel
      have hp : p < (n : Int) := by omega
      by_cases hlen : Sensible n (short (ntohs hi lo))
      · have hlen' : Sensible n (short (ntohs (mem p) (mem (p + 1)))) := by rw [h0, h1]; exact hlen
        rw [frameReads_next hp hlen', h0, h1]
        obtain ⟨hpos, hle⟩ := hlen
        have hrest : ∀ (hin : short (ntohs hi lo) ≤ 2 + rest.length),
            (∀ i ∈ frameReads mem n fuel (p + short (ntohs hi lo)), i < n) ↔
              Whole n ((hi :: lo :: rest).drop (short (ntohs hi lo)).toNat) := by
          intro hin
          have hskip : p + short (ntohs hi lo) = p + ((short (ntohs hi lo)).toNat : Int) := by
            omega
          rw [hskip]
          apply ih (at_drop hat _)
          · rw [List.length_drop]
            simp only [List.length_cons]
            omega
          · rw [List.length_drop]
            simp only [List.length_cons]
            omega
        -- the code and the last byte of the frame are read, and then the next frame
        constructor
        · intro hall
          have hcode := hall (p + 4) (mem_reads.mpr (Or.inl ⟨by omega, by omega⟩))
          have hin : short (ntohs hi lo) ≤ 2 + rest.length := by
            by_contra hout
            have hlast := hall (p + short (ntohs hi lo) - 1)
              (mem_reads.mpr (Or.inr (Or.inl ⟨by omega, by omega⟩)))
            omega
          refine .next hpos hle (by omega) hin ((hrest hin).mp fun i hi => hall i ?_)
          exact mem_reads.mpr (Or.inr (Or.inr hi))
        · intro hwhole
          cases hwhole with
          | refused hbad => omega
          | next _ _ hcode hin hwhole =>
            intro i hi
            rcases mem_reads.mp hi with ⟨h1, h2⟩ | ⟨h1, h2⟩ | hi
            · omega
            · omega
            · exact (hrest hin).mpr hwhole i hi
      · have hlen' : ¬ Sensible n (short (ntohs (mem p) (mem (p + 1)))) := by
          rw [h0, h1]
          exact hlen
        -- only the length was read, and its bytes are there
        rw [frameReads_stop hp hlen']
        refine iff_of_true (fun i hi => ?_) (.refused ?_)
        · simp only [List.mem_cons, List.not_mem_nil, or_false] at hi
          omega
        · unfold Sensible at hlen
          omega

/-- A frame of the server in front of whole frames. -/
theorem whole_append {r : Reply} {rest : Bytes} (hfits : Fits r.aa)
    (hle : r.frame.length ≤ n) (hrest : Whole n rest) : Whole n (r.frame ++ rest) := by
  have hlen := r.frame_length
  have hsize : 5 + (joinItems r.aa).length < 0x8000 := by
    have hle : 5 + (joinItems r.aa).length ≤ 1024 := hfits
    omega
  have hshort : short (ntohs
      (UInt8.ofNat ((UInt16.ofNat (5 + (joinItems r.aa).length)).toNat / 256))
      (UInt8.ofNat ((UInt16.ofNat (5 + (joinItems r.aa).length)).toNat % 256)))
      = (r.frame.length : Int) := by
    rw [ntohs_htons, short_ofNat hsize, hlen]
  have hcons : ∃ hi lo tail, r.frame = hi :: lo :: tail ∧ 3 ≤ tail.length ∧
      short (ntohs hi lo) = (r.frame.length : Int) :=
    ⟨_, _, _, rfl, by simp [htons], hshort⟩
  obtain ⟨hi, lo, tail, hframe, htail, hlenAt⟩ := hcons
  have hcount : r.frame.length = tail.length + 2 := by
    rw [hframe]
    rfl
  rw [hframe, List.cons_append, List.cons_append]
  apply Whole.next
  · omega
  · omega
  · rw [List.length_append]
    omega
  · rw [List.length_append]
    omega
  · have hdrop : (r.frame ++ rest).drop r.frame.length = rest := List.drop_left
    rw [hframe, List.cons_append, List.cons_append] at hdrop
    rw [hlenAt, Int.toNat_natCast, hframe, hdrop]
    exact hrest

/-- What the server sends, whole, is whole. -/
theorem whole_frames {rs : List Reply} (hfits : ∀ r ∈ rs, Fits r.aa)
    (hle : (rs.map Reply.frame).flatten.length ≤ n) : Whole n (rs.map Reply.frame).flatten := by
  induction rs with
  | nil => exact .done
  | cons r rs ih =>
    rw [List.map_cons, List.flatten_cons, List.length_append] at hle
    rw [List.map_cons, List.flatten_cons]
    apply whole_append (hfits r List.mem_cons_self)
    · omega
    · exact ih (fun x hx => hfits x (List.mem_cons_of_mem _ hx)) (by omega)

end Frames

/-- **What a read touches.** Of any five bytes or more the loop is done after as many rounds as
there are bytes, and what it makes of them depends on nothing but what it reads; that
lies below twice their number, and within them if and only if they are whole. -/
theorem chunk_reads (chunk : Bytes) (around : Int → Byte) (h5 : 5 ≤ chunk.length) :
    (∀ fuel, chunk.length ≤ fuel →
      frameLoop (bufMem chunk around) chunk.length fuel 0 = readChunk chunk around) ∧
    (∀ around' : Int → Byte,
      (∀ i ∈ chunkReads chunk around, chunk.length ≤ i → around' i = around i) →
      readChunk chunk around' = readChunk chunk around) ∧
    (∀ i ∈ chunkReads chunk around, 0 ≤ i ∧ i < 2 * chunk.length - 1) ∧
    ((∀ i ∈ chunkReads chunk around, i < chunk.length) ↔ Whole chunk.length chunk) := by
  have hbounds : ∀ i ∈ chunkReads chunk around, 0 ≤ i ∧ i < 2 * (chunk.length : Int) - 1 :=
    frameReads_lt (by omega) (Int.le_refl 0)
  have hread : ∀ around', readChunk chunk around'
      = frameLoop (bufMem chunk around') chunk.length chunk.length 0 := fun around' =>
    if_neg (by omega)
  refine ⟨fun fuel hfuel => ?_, fun around' hsame => ?_, hbounds, ?_⟩
  · obtain ⟨more, rfl⟩ := Nat.exists_eq_add_of_le hfuel
    rw [hread]
    exact frameLoop_fuel (by omega) more
  · rw [hread, hread]
    apply frameLoop_congr
    intro i hi
    unfold bufMem
    split
    next => rfl
    next hout =>
      have hpos := (hbounds i hi).1
      exact hsame i hi (by omega)
  · exact reads_inside_iff (bufMem_at chunk around) (by omega) (Nat.le_refl _)

/-- A frame, and one byte of the next: the other byte of its length is not there. -/
theorem chunk_reads_torn :
    (∀ i ∈ chunkReads [0, 5, 0, 1, NASTOK, 0] (fun _ => 0), 0 ≤ i ∧ i < 11) ∧
    ¬ ∀ i ∈ chunkReads [0, 5, 0, 1, NASTOK, 0] (fun _ => 0), i < 6 := by
  have h := chunk_reads [0, 5, 0, 1, NASTOK, 0] (fun _ => 0) (by decide)
  exact ⟨h.2.2.1, by decide⟩

end Nastd.Client
