import Nastd.Libconfig.Parts

/-!
# What the parser makes of a configuration

`Parts.verdict` follows a configuration with final semicolons left out through the loops of the
parser. A last value without its semicolon loses its last byte (`Part.cut`): a number its last
digit, a string its quote, an array or a dictionary its closing bracket. What is inside these
(`Parts.unclosed`) may go through if the last entry there is of the same kind: its closing bracket
is taken for theirs, and it loses the byte before too (`Part.robbed`).

`Judged` says that the readings of a text, from some depth of nesting on, are as the verdict says.
-/

namespace Nastd.Libconfig

/-- What the parser makes of a text: it is read as it was meant, refused, or read as something
else. `unsettled` is for what is not looked into. -/
inductive Verdict where
  | exact
  | refused
  | misread
  | unsettled
  deriving DecidableEq, Repr

/-- Of two children together. -/
def Verdict.both : Verdict → Verdict → Verdict
  | .refused, _ => .refused
  | .unsettled, .refused => .refused
  | .unsettled, _ => .unsettled
  | .misread, .exact => .misread
  | .misread, v => v
  | .exact, v => v

/-- A number of one digit. -/
def Part.single : Part → Bool
  | .num n => decide (0 ≤ n ∧ n ≤ 9)
  | _ => false

mutual

/-- A value that is all there. -/
def Part.whole : Part → Verdict
  | .num _ => .exact
  | .str s => if s.isEmpty then .refused else .exact
  | .node kind entries closed _ => if closed then entries.whole else entries.short kind

def Parts.whole : Parts → Verdict
  | .nil => .exact
  | .cons _ value rest => value.whole.both rest.whole

/-- Entries without the last byte of the last one. An element of one byte that directly follows
what is before it is not seen at all. -/
def Parts.short (kind : Kind) : Parts → Verdict
  | .nil => .exact
  | .cons lead value rest =>
    if rest.isNil then
      if kind = .array ∧ lead.before = [] ∧ value.single then .misread else value.cut
    else value.whole.both (rest.short kind)

/-- A value without its last byte. -/
def Part.cut : Part → Verdict
  | .num n => if n = 0 then .exact else if -9 ≤ n ∧ n < 0 then .refused else .misread
  | .str _ => .refused
  | .node kind entries closed _ => if closed then .refused else entries.unclosed kind

/-- An array or a dictionary without its closing bracket; a last entry of the same kind gives its
own away. -/
def Parts.unclosed (kind : Kind) : Parts → Verdict
  | .nil => .refused
  | .cons _ value rest =>
    if rest.isNil then if value.isNode kind then value.robbed else .refused
    else value.whole.both (rest.unclosed kind)

/-- An array or a dictionary without its closing bracket and the byte before. -/
def Part.robbed : Part → Verdict
  | .num _ => .refused
  | .str _ => .refused
  | .node kind entries closed _ =>
    if entries.isNil then .misread
    else if closed then entries.unclosed kind
    else if entries.bracketless then .refused else .unsettled

end

/-- A file. -/
def Parts.verdict (closed : Bool) (es : Parts) : Verdict :=
  if closed then es.whole else es.short .dict

/-! ## Snoc -/

theorem Verdict.both_assoc (a b c : Verdict) : (a.both b).both c = a.both (b.both c) := by
  cases a <;> cases b <;> cases c <;> rfl

theorem Verdict.both_exact (a : Verdict) : a.both .exact = a := by
  cases a <;> rfl

theorem Verdict.both_refused (a : Verdict) : a.both .refused = .refused := by
  cases a <;> rfl

section Snoc

variable {lead : Lead} {v : Part}

theorem Parts.whole_snoc : ∀ pre : Parts, (pre.snoc lead v).whole = pre.whole.both v.whole
  | .nil => Verdict.both_exact _
  | .cons _ v' pre => by
    rw [Parts.snoc, Parts.whole, Parts.whole, pre.whole_snoc, Verdict.both_assoc]

/-- The last one of entries without its last byte. -/
def Part.lastCut (kind : Kind) (lead : Lead) (v : Part) : Verdict :=
  if kind = .array ∧ lead.before = [] ∧ v.single then .misread else v.cut

theorem Parts.short_snoc (kind : Kind) : ∀ pre : Parts,
    (pre.snoc lead v).short kind = pre.whole.both (v.lastCut kind lead)
  | .nil => rfl
  | .cons _ v' pre => by
    rw [Parts.snoc, Parts.short, pre.snoc_isNil, if_neg Bool.false_ne_true, pre.short_snoc kind,
      Parts.whole, Verdict.both_assoc]

theorem Parts.unclosed_snoc (kind : Kind) : ∀ pre : Parts,
    (pre.snoc lead v).unclosed kind
      = pre.whole.both (if v.isNode kind then v.robbed else .refused)
  | .nil => rfl
  | .cons _ v' pre => by
    rw [Parts.snoc, Parts.unclosed, pre.snoc_isNil, if_neg Bool.false_ne_true,
      pre.unclosed_snoc kind, Parts.whole, Verdict.both_assoc]

end Snoc

/-! ## Readings -/

/-- What is read at each depth is, from some depth on, what the verdict says of what was meant. -/
def Judged {α : Type} (verdict : Verdict) (read : Nat → Option α) (meant : α) : Prop :=
  match verdict with
  | .exact => ∃ least, ∀ depth, least ≤ depth → read depth = some meant
  | .refused => ∀ depth, read depth = none
  | .misread => ∃ other, other ≠ meant ∧ ∃ least, ∀ depth, least ≤ depth → read depth = some other
  | .unsettled => True

section Judged

variable {α β γ : Type} {a b : Verdict} {read : Nat → Option α} {meant : α}

theorem Judged.refused (h : ∀ depth, read depth = none) : Judged .refused read meant := h

/-- One level of nesting more. -/
theorem Judged.nest {read' : Nat → Option β} {f : α → β} (h : Judged a read meant)
    (hf : ∀ x, f x = f meant → x = meant) (hzero : read' 0 = none)
    (hsucc : ∀ depth, read' (depth + 1) = (read depth).map f) : Judged a read' (f meant) := by
  cases a with
  | exact =>
    obtain ⟨least, hread⟩ := h
    refine ⟨least + 1, fun depth hdepth => ?_⟩
    obtain ⟨depth, rfl⟩ := Nat.exists_eq_add_of_le' hdepth
    rw [← Nat.add_assoc, hsucc, hread _ (Nat.le_add_left _ _)]
    rfl
  | refused =>
    intro depth
    cases depth with
    | zero => exact hzero
    | succ depth =>
      rw [hsucc, h depth]
      rfl
  | misread =>
    obtain ⟨other, hother, least, hread⟩ := h
    refine ⟨f other, fun heq => hother (hf other heq), least + 1, fun depth hdepth => ?_⟩
    obtain ⟨depth, rfl⟩ := Nat.exists_eq_add_of_le' hdepth
    rw [← Nat.add_assoc, hsucc, hread _ (Nat.le_add_left _ _)]
    rfl
  | unsettled => trivial

/-- Two readings, one after the other. -/
theorem Judged.both {read' : Nat → Option β} {meant' : β} {both : Nat → Option γ} {f : α → β → γ}
    (h : Judged a read meant) (h' : Judged b read' meant')
    (hf : ∀ x y, f x y = f meant meant' → x = meant ∧ y = meant')
    (heq : ∀ depth, both depth = (read depth).bind fun x => (read' depth).map (f x)) :
    Judged (a.both b) both (f meant meant') := by
  -- what both are from some depth on
  have hsome : ∀ {x y}, (∃ least, ∀ depth, least ≤ depth → read depth = some x) →
      (∃ least, ∀ depth, least ≤ depth → read' depth = some y) →
      ∃ least, ∀ depth, least ≤ depth → both depth = some (f x y) := by
    intro x y ⟨least, hread⟩ ⟨least', hread'⟩
    refine ⟨max least least', fun depth hdepth => ?_⟩
    rw [heq, hread depth (Nat.le_trans (Nat.le_max_left _ _) hdepth),
      hread' depth (Nat.le_trans (Nat.le_max_right _ _) hdepth)]
    rfl
  have hleft : (∀ depth, read depth = none) → ∀ depth, both depth = none := by
    intro hnone depth
    rw [heq, hnone depth]
    rfl
  have hright : (∀ depth, read' depth = none) → ∀ depth, both depth = none := by
    intro hnone depth
    rw [heq, hnone depth]
    cases read depth with
    | none => rfl
    | some x => rfl
  cases a with
  | refused => exact hleft h
  | unsettled =>
    cases b with
    | refused => exact hright h'
    | _ => trivial
  | exact =>
    cases b with
    | exact => exact hsome h h'
    | refused => exact hright h'
    | misread =>
      obtain ⟨other, hother, hread'⟩ := h'
      exact ⟨_, fun hxy => hother (hf _ _ hxy).2, hsome h hread'⟩
    | unsettled => trivial
  | misread =>
    obtain ⟨other, hother, hread⟩ := h
    cases b with
    | exact => exact ⟨_, fun hxy => hother (hf _ _ hxy).1, hsome hread h'⟩
    | refused => exact hright h'
    | misread =>
      obtain ⟨other', -, hread'⟩ := h'
      exact ⟨_, fun hxy => hother (hf _ _ hxy).1, hsome hread hread'⟩
    | unsettled => trivial

/-- Where more depth changes nothing that was read, all that is read is what was meant, if and
only if the verdict says so. -/
theorem Judged.iff (h : Judged a read meant) (hset : a ≠ .unsettled)
    (hmono : ∀ {depth depth' x}, depth ≤ depth' → read depth = some x → read depth' = some x) :
    (∀ depth x, read depth = some x → x = meant) ↔ a = .exact ∨ a = .refused := by
  cases a with
  | exact =>
    obtain ⟨least, hread⟩ := h
    refine iff_of_true (fun depth x hx => ?_) (Or.inl rfl)
    have hmore := hmono (Nat.le_max_left depth least) hx
    exact Option.some.inj (hmore.symm.trans (hread _ (Nat.le_max_right depth least)))
  | refused =>
    refine iff_of_true (fun depth x hx => ?_) (Or.inr rfl)
    exact absurd (hx.symm.trans (h depth)) (by simp)
  | misread =>
    obtain ⟨other, hother, least, hread⟩ := h
    refine iff_of_false (fun hall => ?_) (by simp)
    exact hother (hall least other (hread least (Nat.le_refl _)))
  | unsettled => exact absurd rfl hset

end Judged

/-! ## More depth -/

theorem readChildren_mono {g g' : Bytes → Option Data}
    (hg : ∀ {text d}, g text = some d → g' text = some d) (kind : Kind) (stop : Nat) :
    ∀ {n : Nat} {offset : Bytes} {ds : Children}, readChildren g kind stop n offset = some ds →
      readChildren g' kind stop n offset = some ds := by
  intro n
  induction n with
  | zero => exact fun h => h
  | succ n ih =>
    intro offset ds h
    rw [readChildren] at h ⊢
    split at h
    · next hlt =>
      obtain ⟨x, hx, hvalue⟩ := Option.bind_eq_some_iff.mp h
      obtain ⟨d, hd, hrest⟩ := Option.bind_eq_some_iff.mp hvalue
      obtain ⟨rest, hr, heq⟩ := Option.map_eq_some_iff.mp hrest
      rw [if_pos hlt, hx, Option.bind_some]
      dsimp only
      rw [hg hd, Option.bind_some, ih hr, ← heq]
      rfl
    · next hge =>
      rw [if_neg hge]
      exact h

theorem containerFromBuffer_mono {g g' : Bytes → Option Data}
    (hg : ∀ {text d}, g text = some d → g' text = some d) {kind : Kind} {buffer : Bytes}
    {ds : Children} (h : containerFromBuffer g kind buffer = some ds) :
    containerFromBuffer g' kind buffer = some ds := by
  unfold containerFromBuffer at h ⊢
  dsimp only at h ⊢
  split at h
  · next hopen =>
    rw [if_pos hopen]
    split at h
    · next hclose =>
      rw [if_pos hclose]
      exact readChildren_mono hg kind _ h
    · exact absurd h (by simp)
  · next hopen =>
    rw [if_neg hopen]
    exact readChildren_mono hg kind _ h

theorem getDataFrom_succ : ∀ {depth : Nat} {text : Bytes} {d : Data},
    getDataFrom depth text = some d → getDataFrom (depth + 1) text = some d := by
  intro depth
  induction depth with
  | zero =>
    intro text d h
    exact absurd h (by simp [getDataFrom])
  | succ depth ih =>
    intro text d h
    rw [getDataFrom] at h ⊢
    split at h
    · next hbrace =>
      obtain ⟨ds, hds, heq⟩ := Option.map_eq_some_iff.mp h
      rw [if_pos hbrace, dictFromBuffer, containerFromBuffer_mono ih hds, ← heq]
      rfl
    · next hbrace =>
      rw [if_neg hbrace]
      split at h
      · next hbracket =>
        obtain ⟨ds, hds, heq⟩ := Option.map_eq_some_iff.mp h
        rw [if_pos hbracket, arrayFromBuffer, containerFromBuffer_mono ih hds, ← heq]
        rfl
      · next hbracket =>
        rw [if_neg hbracket]
        exact h

theorem getDataFrom_mono {depth depth' : Nat} {text : Bytes} {d : Data} (hle : depth ≤ depth')
    (h : getDataFrom depth text = some d) : getDataFrom depth' text = some d := by
  induction hle with
  | refl => exact h
  | step _ ih => exact getDataFrom_succ ih

end Nastd.Libconfig
