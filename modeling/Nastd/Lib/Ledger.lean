import Mathlib.Data.List.Nodup
import Mathlib.Logic.Function.Basic

/-!
# The books of a queue

What a queue between producers `π` and consumers `ω` owes, apart from how it is stored.
An item is made by a producer, accepted (linked at the end), returned (taken off the
front) to a consumer, and handed on by it. The lists of what was accepted, returned and
handed on are the books.

* `Ledger.Step`: the entries that are made in them.
* `Ledger.Ok`: what the books must show. `Ledger.Ok.step`: every entry keeps it.

A program that stores a queue somehow is shown right by giving the ledger of its state
and showing that each of its steps is a `Ledger.Step`.
-/

namespace Nastd.Lib

/-- Where every item is, and the books. -/
structure Ledger (π ω α : Type) where
  /-- The items made so far are among these. -/
  known : α → Prop
  made : π → Option α
  linked : List α
  carried : ω → Option α
  accepted : List α
  returned : List α
  handed : List α

variable {π ω α : Type} [DecidableEq π] [DecidableEq ω]

/-- One entry. -/
inductive Ledger.Step : Ledger π ω α → Ledger π ω α → Prop
  | stay (L) : Step L L
  | make (L : Ledger π ω α) (p : π) (j : α) (known : α → Prop) (hnew : ¬ L.known j)
      (hkeep : ∀ i, L.known i → known i) (hknown : known j) :
      Step L { L with known := known, made := Function.update L.made p (some j) }
  | drop (L : Ledger π ω α) (p : π) : Step L { L with made := Function.update L.made p none }
  | accept (L : Ledger π ω α) (p : π) (j : α) (hmade : L.made p = some j) :
      Step L { L with
        made := Function.update L.made p none
        linked := L.linked ++ [j]
        accepted := L.accepted ++ [j] }
  | take (L : Ledger π ω α) (w : ω) (j : α) (rest : List α) (hfront : L.linked = j :: rest)
      (hfree : L.carried w = none) :
      Step L { L with
        linked := rest
        carried := Function.update L.carried w (some j)
        returned := L.returned ++ [j] }
  | hand (L : Ledger π ω α) (w : ω) (j : α) (hcarried : L.carried w = some j) :
      Step L { L with
        carried := Function.update L.carried w none
        handed := L.handed ++ [j] }

/-- What was accepted is what was returned and then what is linked, each item once; what
was returned has been handed on, once, or is with one consumer. -/
structure Ledger.Ok (L : Ledger π ω α) : Prop where
  order : L.accepted = L.returned ++ L.linked
  nodup : L.accepted.Nodup
  old : ∀ j ∈ L.accepted, L.known j
  made : ∀ p j, L.made p = some j → L.known j ∧ j ∉ L.accepted
  maker : ∀ p p' j, L.made p = some j → L.made p' = some j → p = p'
  carried : ∀ w j, L.carried w = some j → j ∈ L.returned ∧ j ∉ L.handed
  carrier : ∀ w w' j, L.carried w = some j → L.carried w' = some j → w = w'
  once : L.handed.Nodup
  handed : ∀ j ∈ L.handed, j ∈ L.returned
  covered : ∀ j ∈ L.returned, j ∈ L.handed ∨ ∃ w, L.carried w = some j

/-- One entry of a map changed: what is found elsewhere was there before. -/
theorem update_some_cases {κ β : Type} [DecidableEq κ] {f : κ → Option β} {k k' : κ}
    {x : Option β} {b : β} (h : Function.update f k x k' = some b) :
    k' = k ∧ x = some b ∨ k' ≠ k ∧ f k' = some b := by
  by_cases hk : k' = k
  · subst hk
    rw [Function.update_self] at h
    exact Or.inl ⟨rfl, h⟩
  · rw [Function.update_of_ne hk] at h
    exact Or.inr ⟨hk, h⟩

/-- A map that is one-to-one stays so when a value nobody else has is entered. -/
theorem update_one_to_one {κ β : Type} [DecidableEq κ] {f : κ → Option β} {k : κ} {x : Option β}
    (hf : ∀ i i' b, f i = some b → f i' = some b → i = i')
    (hx : ∀ i b, i ≠ k → x = some b → f i ≠ some b) :
    ∀ i i' b, Function.update f k x i = some b → Function.update f k x i' = some b → i = i' := by
  intro i i' b h h'
  rcases update_some_cases h with ⟨hk, hb⟩ | ⟨hne, hb⟩
  · rcases update_some_cases h' with ⟨hk', -⟩ | ⟨hne', hb'⟩
    · rw [hk, hk']
    · exact absurd hb' (hx i' b hne' hb)
  · rcases update_some_cases h' with ⟨-, hb'⟩ | ⟨-, hb'⟩
    · exact absurd hb (hx i b hne hb')
    · exact hf i i' b hb hb'

/-- What is found after an entry is cleared is in another place. -/
theorem update_none_cases {κ β : Type} [DecidableEq κ] {f : κ → Option β} {k k' : κ} {b : β}
    (h : Function.update f k none k' = some b) : k' ≠ k ∧ f k' = some b := by
  rcases update_some_cases h with ⟨-, heq⟩ | hother
  · exact absurd heq (by simp)
  · exact hother

theorem update_none_one_to_one {κ β : Type} [DecidableEq κ] {f : κ → Option β} {k : κ}
    (hf : ∀ i i' b, f i = some b → f i' = some b → i = i') :
    ∀ i i' b, Function.update f k none i = some b → Function.update f k none i' = some b →
      i = i' :=
  fun i i' b h h' => hf i i' b (update_none_cases h).2 (update_none_cases h').2

/-- Every entry keeps the books in order. -/
theorem Ledger.Ok.step {L L' : Ledger π ω α} (h : L.Ok) (hstep : L.Step L') : L'.Ok := by
  cases hstep with
  | stay => exact h
  | make p j known hnew hkeep hknown =>
    have hmade : ∀ p' i, Function.update L.made p (some j) p' = some i →
        known i ∧ i ∉ L.accepted := by
      intro p' i hi
      rcases update_some_cases hi with ⟨-, heq⟩ | ⟨-, hi⟩
      · obtain rfl := Option.some.inj heq
        exact ⟨hknown, fun hmem => hnew (h.old j hmem)⟩
      · exact ⟨hkeep i (h.made p' i hi).1, (h.made p' i hi).2⟩
    have hmaker := update_one_to_one (k := p) h.maker (x := some j) fun i b _ hb hi => by
      obtain rfl := Option.some.inj hb
      exact hnew (h.made i j hi).1
    exact { h with old := fun i hi => hkeep i (h.old i hi), made := hmade, maker := hmaker }
  | drop p =>
    have hmade : ∀ p' i, Function.update L.made p none p' = some i →
        L.known i ∧ i ∉ L.accepted :=
      fun p' i hi => h.made p' i (update_none_cases hi).2
    exact { h with made := hmade, maker := update_none_one_to_one h.maker }
  | accept p j hj =>
    obtain ⟨hknown, hnot⟩ := h.made p j hj
    have hmade : ∀ p' i, Function.update L.made p none p' = some i →
        L.known i ∧ i ∉ L.accepted ++ [j] := by
      intro p' i hi
      obtain ⟨hne, hi⟩ := update_none_cases hi
      refine ⟨(h.made p' i hi).1, fun hmem => ?_⟩
      rcases List.mem_append.mp hmem with hmem | hmem
      · exact (h.made p' i hi).2 hmem
      · obtain rfl := List.mem_singleton.mp hmem
        exact hne (h.maker p' p i hi hj)
    refine { h with
      order := ?_, nodup := ?_, old := ?_, made := hmade, maker := update_none_one_to_one h.maker }
    · show L.accepted ++ [j] = L.returned ++ (L.linked ++ [j])
      rw [h.order, List.append_assoc]
    · exact h.nodup.append (List.nodup_singleton j) (List.disjoint_singleton.mpr hnot)
    · intro i hi
      rcases List.mem_append.mp hi with hi | hi
      · exact h.old i hi
      · obtain rfl := List.mem_singleton.mp hi
        exact hknown
  | take w j rest hfront hfree =>
    have horder : L.accepted = (L.returned ++ [j]) ++ rest := by
      rw [h.order, hfront, List.append_assoc]
      rfl
    have hnew : j ∉ L.returned := by
      have hnodup := h.nodup
      rw [h.order, hfront, List.nodup_append] at hnodup
      exact fun hmem => hnodup.2.2 j hmem j List.mem_cons_self rfl
    have hcarried : ∀ w' i, Function.update L.carried w (some j) w' = some i →
        i ∈ L.returned ++ [j] ∧ i ∉ L.handed := by
      intro w' i hi
      rcases update_some_cases hi with ⟨-, heq⟩ | ⟨-, hi⟩
      · obtain rfl := Option.some.inj heq
        exact ⟨List.mem_append_right _ List.mem_cons_self, fun hmem => hnew (h.handed j hmem)⟩
      · exact ⟨List.mem_append_left _ (h.carried w' i hi).1, (h.carried w' i hi).2⟩
    have hcarrier := update_one_to_one (k := w) h.carrier (x := some j) fun i b _ hb hi => by
      obtain rfl := Option.some.inj hb
      exact hnew (h.carried i j hi).1
    refine { h with
      order := horder, carried := hcarried, carrier := hcarrier, handed := ?_, covered := ?_ }
    · intro i hi
      exact List.mem_append_left _ (h.handed i hi)
    · intro i hi
      rcases List.mem_append.mp hi with hi | hi
      · rcases h.covered i hi with hh | ⟨w', hw'⟩
        · exact Or.inl hh
        · have hne : w' ≠ w := by
            rintro rfl
            rw [hfree] at hw'
            exact absurd hw' (by simp)
          exact Or.inr ⟨w', (Function.update_of_ne hne _ _).trans hw'⟩
      · obtain rfl := List.mem_singleton.mp hi
        exact Or.inr ⟨w, Function.update_self ..⟩
  | hand w j hj =>
    obtain ⟨hret, hnot⟩ := h.carried w j hj
    have hcarried : ∀ w' i, Function.update L.carried w none w' = some i →
        i ∈ L.returned ∧ i ∉ L.handed ++ [j] := by
      intro w' i hi
      obtain ⟨hne, hi⟩ := update_none_cases hi
      refine ⟨(h.carried w' i hi).1, fun hmem => ?_⟩
      rcases List.mem_append.mp hmem with hmem | hmem
      · exact (h.carried w' i hi).2 hmem
      · obtain rfl := List.mem_singleton.mp hmem
        exact hne (h.carrier w' w i hi hj)
    refine { h with
      carried := hcarried, carrier := update_none_one_to_one h.carrier
      once := ?_, handed := ?_, covered := ?_ }
    · exact h.once.append (List.nodup_singleton j) (List.disjoint_singleton.mpr hnot)
    · intro i hi
      rcases List.mem_append.mp hi with hi | hi
      · exact h.handed i hi
      · obtain rfl := List.mem_singleton.mp hi
        exact hret
    · intro i hi
      rcases h.covered i hi with hh | ⟨w', hw'⟩
      · exact Or.inl (List.mem_append_left _ hh)
      · by_cases hw : w' = w
        · subst hw
          obtain rfl := Option.some.inj (hj.symm.trans hw')
          exact Or.inl (List.mem_append_right _ List.mem_cons_self)
        · exact Or.inr ⟨w', (Function.update_of_ne hw _ _).trans hw'⟩

end Nastd.Lib
