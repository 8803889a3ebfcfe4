import Mathlib.Data.List.Basic

/-!
# Streams of frames in chunks

A sender writes frames one behind the other; a receiver gets the same bytes in chunks that
are cut anywhere. `Aligned frames chunks` says that the cuts are all between frames.

* `flatten_cut`: a cut is between two frames or inside one.
-/

namespace Nastd.Lib

variable {β : Type}

/-- The chunks that reads of at most `limit` bytes bring of a stream of frames. -/
structure Cut (limit : Nat) (frames chunks : List (List β)) : Prop where
  stream : chunks.flatten = frames.flatten
  nonempty : ∀ c ∈ chunks, c ≠ []
  fits : ∀ c ∈ chunks, c.length ≤ limit

/-- Every chunk is whole frames. -/
def Aligned (frames chunks : List (List β)) : Prop :=
  ∃ groups : List (List (List β)), groups.flatten = frames ∧ chunks = groups.map List.flatten

theorem aligned_nil : Aligned ([] : List (List β)) [] := ⟨[], rfl, rfl⟩

theorem aligned_cons {g frames chunks : List (List β)} (h : Aligned frames chunks) :
    Aligned (g ++ frames) (g.flatten :: chunks) := by
  obtain ⟨groups, rfl, rfl⟩ := h
  exact ⟨g :: groups, rfl, rfl⟩

/-- The first part of a stream of frames ends behind a frame, or inside one. -/
theorem flatten_cut :
    ∀ {frames : List (List β)} {c rest : List β}, c ++ rest = frames.flatten →
      (∃ g h, frames = g ++ h ∧ c = g.flatten ∧ rest = h.flatten) ∨
      ∃ g f h a b, frames = g ++ f :: h ∧ f = a ++ b ∧ a ≠ [] ∧ b ≠ [] ∧
        c = g.flatten ++ a ∧ rest = b ++ h.flatten := by
  intro frames
  induction frames with
  | nil =>
    intro c rest h
    obtain ⟨rfl, rfl⟩ := List.append_eq_nil_iff.mp h
    exact Or.inl ⟨[], [], rfl, rfl, rfl⟩
  | cons f frames ih =>
    intro c rest h
    rw [List.flatten_cons] at h
    rcases List.append_eq_append_iff.mp h with ⟨b, rfl, rfl⟩ | ⟨c', rfl, hrest⟩
    · -- the cut is in the first frame, or at one of its ends
      by_cases hc : c = []
      · subst hc
        exact Or.inl ⟨[], b :: frames, rfl, rfl, by simp⟩
      by_cases hb : b = []
      · subst hb
        exact Or.inl ⟨[c ++ []], frames, rfl, by simp, by simp⟩
      · exact Or.inr ⟨[], c ++ b, frames, c, b, rfl, rfl, hc, hb, rfl, rfl⟩
    · rcases ih hrest.symm with ⟨g, h', rfl, rfl, rfl⟩
        | ⟨g, f', h', a, b, rfl, rfl, ha, hb, rfl, rfl⟩
      · exact Or.inl ⟨f :: g, h', rfl, rfl, rfl⟩
      · refine Or.inr ⟨f :: g, a ++ b, h', a, b, rfl, rfl, ha, hb, ?_, rfl⟩
        rw [List.flatten_cons, List.append_assoc]

end Nastd.Lib
