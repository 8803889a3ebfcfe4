import Nastd.Libconfig.RoundTrip

/-!
# Configurations with final semicolons left out

A configuration as in `Libconfig.Layout`, and for every dictionary and array in it whether the
semicolon behind its last entry is there. `Parts.doc` is the configuration with all of them.

The loops of the parser stop in front of the last byte of what they are to read. That is the
semicolon if there is one; otherwise it is the last byte of the last value.
-/

namespace Nastd.Libconfig

mutual

/-- A value. -/
inductive Part where
  | num (n : Int)
  | str (s : Bytes)
  /-- `closed`: the last entry has its semicolon. -/
  | node (kind : Kind) (entries : Parts) (closed : Bool) (trail : Bytes)

inductive Parts where
  | nil
  | cons (lead : Lead) (value : Part) (rest : Parts)

end

def Parts.isNil : Parts → Bool
  | .nil => true
  | .cons _ _ _ => false

mutual

def Part.text : Part → Bytes
  | .num n => decimal n
  | .str s => QUOTE :: (s ++ [QUOTE])
  | .node kind entries closed trail =>
    kind.opening :: (entries.text kind closed ++ (trail ++ [kind.closing]))

def Parts.text (kind : Kind) (closed : Bool) : Parts → Bytes
  | .nil => []
  | .cons lead value rest =>
    lead.text kind ++ (value.text ++
      ((if rest.isNil && !closed then [] else [SEMICOLON]) ++ rest.text kind closed))

end

mutual

/-- With all semicolons. -/
def Part.doc : Part → Doc
  | .num n => .num n
  | .str s => .str s
  | .node kind entries _ trail => .node kind entries.doc trail

def Parts.doc : Parts → Docs
  | .nil => .nil
  | .cons lead value rest => .cons lead value.doc rest.doc

end

mutual

/-- No semicolon is left out. -/
def Part.terminated : Part → Bool
  | .num _ => true
  | .str _ => true
  | .node _ entries closed _ => (closed || entries.isNil) && entries.terminated

def Parts.terminated : Parts → Bool
  | .nil => true
  | .cons _ value rest => value.terminated && rest.terminated

end

mutual

/-- Then it is written as in `Libconfig.Layout`. -/
theorem Part.text_terminated : ∀ v : Part, v.terminated = true → v.text = v.doc.text
  | .num _, _ => rfl
  | .str _, _ => rfl
  | .node kind entries closed trail, h => by
    obtain ⟨hclosed, hentries⟩ := (Bool.and_eq_true _ _).mp h
    rw [Part.text, Part.doc, Doc.text, entries.text_terminated kind closed hclosed hentries]

theorem Parts.text_terminated (kind : Kind) (closed : Bool) : ∀ es : Parts,
    (closed || es.isNil) = true → es.terminated = true → es.text kind closed = es.doc.text kind
  | .nil, _, _ => rfl
  | .cons lead value rest, hclosed, h => by
    obtain ⟨hvalue, hrest⟩ := (Bool.and_eq_true _ _).mp h
    rw [Parts.isNil, Bool.or_false] at hclosed
    rw [Parts.text, Parts.doc, Docs.text, value.text_terminated hvalue, hclosed,
      rest.text_terminated kind true (Bool.true_or _) hrest, Bool.not_true, Bool.and_false]
    rfl

end

mutual

/-- No bracket stands in a string. -/
def Part.bracketless : Part → Bool
  | .num _ => true
  | .str s => s.all fun c => decide (c ∉ [LBRACE, RBRACE, LBRACKET, RBRACKET])
  | .node _ entries _ _ => entries.bracketless

def Parts.bracketless : Parts → Bool
  | .nil => true
  | .cons _ value rest => value.bracketless && rest.bracketless

end

mutual

/-- What is open behind a value, as in `Doc.opened`. -/
def Part.opened (n : Nat × Nat) : Part → Option (Nat × Nat)
  | .num _ => some n
  | .str s => some (s.foldl bracket n)
  | .node kind entries closed _ =>
    (entries.opened closed (bracket n kind.opening)).map fun m => bracket m kind.closing

def Parts.opened (closed : Bool) (n : Nat × Nat) : Parts → Option (Nat × Nat)
  | .nil => some n
  | .cons _ value rest =>
    (value.opened n).bind fun m =>
      if rest.isNil && !closed then some m
      else if m = (0, 0) then none else rest.opened closed m

end

mutual

/-- The line ends where the value does, for every value in it. -/
def Part.straight : Part → Bool
  | .num _ => true
  | .str _ => true
  | .node _ entries _ _ => entries.straight

def Parts.straight : Parts → Bool
  | .nil => true
  | .cons _ value rest =>
    value.straight && (value.opened (0, 0)).any (fun n => rest.isNil || decide (n = (0, 0))) &&
      rest.straight

end

/-! ## Lines -/

mutual

/-- What the loop of `getLineLenFrom:to:` counts in a value. -/
theorem Part.run_text : ∀ v : Part, v.doc.Ok → ∀ n : Nat × Nat,
    (Scan.counts false n).run v.text = (v.opened n).map (Scan.counts false)
  | .num n, _, _ => Scan.run_plain (decimal_plain n) _ _
  | .str s, hok, n => (Doc.str s).run_text hok n
  | .node kind entries closed trail, hok, n => by
    have hopening : kind.opening ≠ SEMICOLON ∧ kind.opening ≠ QUOTE := by cases kind <;> decide
    have hclosing : kind.closing ≠ SEMICOLON ∧ kind.closing ≠ QUOTE := by cases kind <;> decide
    rw [Part.text, Part.opened, Scan.counts_run hopening.1 hopening.2, Scan.run_append,
      entries.run_text kind closed hok.1]
    cases entries.opened closed (bracket n kind.opening) with
    | none => rfl
    | some m =>
      rw [Option.map_some, Option.bind_some, Scan.run_append, Scan.run_plain hok.2.plain,
        Option.bind_some, Scan.counts_run hclosing.1 hclosing.2]
      rfl

theorem Parts.run_text (kind : Kind) (closed : Bool) : ∀ es : Parts, es.doc.Ok kind →
    ∀ n : Nat × Nat,
    (Scan.counts false n).run (es.text kind closed)
      = (es.opened closed n).map (Scan.counts false)
  | .nil, _, _ => rfl
  | .cons lead value rest, hok, n => by
    obtain ⟨hlead, hvalue, hrest⟩ := hok
    rw [Parts.text, Parts.opened, Scan.run_append, Scan.run_plain (Lead.plain hlead),
      Option.bind_some, Scan.run_append, value.run_text hvalue]
    cases value.opened n with
    | none => rfl
    | some m =>
      rw [Option.map_some, Option.bind_some, Option.bind_some]
      by_cases hend : (rest.isNil && !closed) = true
      · -- the last value, and no semicolon behind it
        rw [if_pos hend, if_pos hend]
        cases rest with
        | nil => rfl
        | cons lead value rest => exact absurd hend (by simp [Parts.isNil])
      · rw [if_neg hend, if_neg hend, List.singleton_append, Scan.run]
        by_cases hm : m = (0, 0)
        · rw [if_pos hm, if_pos ⟨by rw [hm]; rfl, rfl⟩]
          rfl
        · have hne : ¬(Scan.counts false m = .start ∧ SEMICOLON = SEMICOLON) := by
            intro ⟨heq, _⟩
            exact hm (Prod.ext (congrArg Scan.french heq) (congrArg Scan.square heq))
          rw [if_neg hm, if_neg hne]
          exact rest.run_text kind closed hrest m

end

mutual

theorem Part.opened_bracketless : ∀ v : Part, v.bracketless = true → ∀ n : Nat × Nat,
    v.opened n = some n
  | .num _, _, _ => rfl
  | .str _, h, n => congrArg some (foldl_bracket h n)
  | .node kind entries closed _, h, n => by
    obtain ⟨hne, hclose⟩ := bracket_node kind n
    rw [Part.opened, entries.opened_bracketless closed h _ hne, Option.map_some, hclose]

theorem Parts.opened_bracketless (closed : Bool) : ∀ es : Parts, es.bracketless = true →
    ∀ n : Nat × Nat, n ≠ (0, 0) → es.opened closed n = some n
  | .nil, _, _, _ => rfl
  | .cons _ value rest, h, n, hn => by
    obtain ⟨hvalue, hrest⟩ := (Bool.and_eq_true _ _).mp h
    rw [Parts.opened, value.opened_bracketless hvalue, Option.bind_some, if_neg hn,
      rest.opened_bracketless closed hrest n hn]
    cases rest with
    | nil => exact ite_self _
    | cons lead value rest => rfl

end

mutual

theorem Part.straight_bracketless : ∀ v : Part, v.bracketless = true → v.straight = true
  | .num _, _ => rfl
  | .str _, _ => rfl
  | .node _ entries _ _, h => entries.straight_bracketless h

theorem Parts.straight_bracketless : ∀ es : Parts, es.bracketless = true → es.straight = true
  | .nil, _ => rfl
  | .cons _ value rest, h => by
    obtain ⟨hvalue, hrest⟩ := (Bool.and_eq_true _ _).mp h
    rw [Parts.straight, value.straight_bracketless hvalue, value.opened_bracketless hvalue,
      rest.straight_bracketless hrest, Option.any_some, decide_eq_true rfl, Bool.or_true]
    rfl

end

/-! ## The last entry -/

/-- The property holds of every value. -/
def Parts.All (p : Part → Prop) : Parts → Prop
  | .nil => True
  | .cons _ value rest => p value ∧ rest.All p

def Parts.snoc : Parts → Lead → Part → Parts
  | .nil, lead, value => .cons lead value .nil
  | .cons lead' value' rest, lead, value => .cons lead' value' (rest.snoc lead value)

def Children.append : Children → Children → Children
  | .nil, ds => ds
  | .cons key value rest, ds => .cons key value (rest.append ds)

theorem Parts.eq_nil_or_snoc : ∀ es : Parts,
    es = .nil ∨ ∃ (pre : Parts) (lead : Lead) (v : Part), es = pre.snoc lead v
  | .nil => Or.inl rfl
  | .cons lead v rest => by
    apply Or.inr
    rcases rest.eq_nil_or_snoc with rfl | ⟨pre, lead', v', rfl⟩
    · exact ⟨.nil, lead, v, rfl⟩
    · exact ⟨.cons lead v pre, lead', v', rfl⟩

section Snoc

variable {kind : Kind} {lead : Lead} {v : Part}

theorem Parts.snoc_isNil (pre : Parts) : (pre.snoc lead v).isNil = false := by
  cases pre with
  | nil => rfl
  | cons _ _ _ => rfl

theorem Parts.text_snoc (closed : Bool) : ∀ pre : Parts, (pre.snoc lead v).text kind closed
    = pre.text kind true ++ (lead.text kind ++ (v.text ++ if closed then [SEMICOLON] else []))
  | .nil => by
    cases closed with
    | true => rfl
    | false => rfl
  | .cons lead' v' pre => by
    rw [Parts.snoc, Parts.text, Parts.text, pre.text_snoc closed, pre.snoc_isNil, Bool.not_true,
      Bool.and_false, Bool.false_and]
    simp only [Bool.false_eq_true, if_false, List.append_assoc]

/-- An entry with its semicolon, and what follows. -/
theorem Parts.text_cons (pre : Parts) (q : Bytes) :
    (Parts.cons lead v pre).text kind true ++ q
      = lead.text kind ++ (v.text ++ SEMICOLON :: (pre.text kind true ++ q)) := by
  simp only [Parts.text, Bool.not_true, Bool.and_false, Bool.false_eq_true, if_false,
    List.append_assoc, List.cons_append, List.nil_append]

theorem Parts.data_snoc : ∀ pre : Parts, (pre.snoc lead v).doc.data
    = pre.doc.data.append (.cons lead.key v.doc.data .nil)
  | .nil => rfl
  | .cons lead' v' pre => congrArg (Children.cons lead'.key v'.doc.data) pre.data_snoc

theorem Parts.ok_snoc : ∀ {pre : Parts}, (pre.snoc lead v).doc.Ok kind →
    pre.doc.Ok kind ∧ lead.Ok kind ∧ v.doc.Ok
  | .nil, h => ⟨trivial, h.1, h.2.1⟩
  | .cons _ _ _, h => by
    obtain ⟨hpre, hlead, hv⟩ := Parts.ok_snoc h.2.2
    exact ⟨⟨h.1, h.2.1, hpre⟩, hlead, hv⟩

theorem Parts.all_snoc {p : Part → Prop} : ∀ {pre : Parts}, (pre.snoc lead v).All p →
    pre.All p ∧ p v
  | .nil, h => ⟨trivial, h.1⟩
  | .cons _ _ _, h => by
    obtain ⟨hpre, hv⟩ := Parts.all_snoc h.2
    exact ⟨⟨h.1, hpre⟩, hv⟩

theorem Parts.bracketless_snoc : ∀ {pre : Parts}, (pre.snoc lead v).bracketless = true →
    pre.bracketless = true ∧ v.bracketless = true
  | .nil, h => ⟨rfl, ((Bool.and_eq_true _ _).mp h).1⟩
  | .cons _ _ _, h => by
    obtain ⟨hfirst, hrest⟩ := (Bool.and_eq_true _ _).mp h
    obtain ⟨hpre, hv⟩ := Parts.bracketless_snoc hrest
    exact ⟨(Bool.and_eq_true _ _).mpr ⟨hfirst, hpre⟩, hv⟩

/-- The lines of the values but the last end at their semicolons, that of the last one wherever
the loop stops. -/
theorem Parts.lines_snoc : ∀ {pre : Parts}, (pre.snoc lead v).doc.Ok kind →
    (pre.snoc lead v).straight = true →
    pre.All (fun u => Scan.start.run u.text = some .start) ∧
      ∃ r, Scan.start.run v.text = some r
  | .nil, hok, h => by
    have hopened := ((Bool.and_eq_true _ _).mp ((Bool.and_eq_true _ _).mp h).1).2
    obtain ⟨m, hm, -⟩ := (Option.any_eq_true _ _).mp hopened
    refine ⟨trivial, .counts false m, ?_⟩
    have hrun := v.run_text hok.2.1 (0, 0)
    rwa [hm] at hrun
  | .cons lead' v' pre, hok, h => by
    obtain ⟨hfirst, hrest⟩ := (Bool.and_eq_true _ _).mp h
    obtain ⟨m, hm, hend⟩ := (Option.any_eq_true _ _).mp ((Bool.and_eq_true _ _).mp hfirst).2
    obtain ⟨hpre, hv⟩ := Parts.lines_snoc hok.2.2 hrest
    refine ⟨⟨?_, hpre⟩, hv⟩
    rw [pre.snoc_isNil, Bool.false_or] at hend
    obtain rfl := of_decide_eq_true hend
    have hrun := v'.run_text hok.2.1 (0, 0)
    rwa [hm] at hrun

end Snoc

/-! ## The last byte -/

def Part.isNode (kind : Kind) : Part → Bool
  | .node kind' _ _ _ => decide (kind' = kind)
  | _ => false

theorem digits_last (n : Nat) : ∃ a x, digits n = a ++ [x] ∧ isDigit 10 x = true := by
  obtain ⟨c, rest, hds, -⟩ := digits_head n
  rcases List.eq_nil_or_concat' (digits n) with hnil | ⟨a, x, hax⟩
  · exact absurd (hds.symm.trans hnil) (List.cons_ne_nil c rest)
  · exact ⟨a, x, hax, (digits_spec n).1 x (by rw [hax]; simp)⟩

theorem decimal_last (n : Int) : ∃ a x, decimal n = a ++ [x] ∧ isDigit 10 x = true := by
  obtain ⟨a, x, hax, hx⟩ := digits_last n.natAbs
  unfold decimal
  split
  · exact ⟨0x2d :: a, x, by rw [hax]; rfl, hx⟩
  · exact ⟨a, x, hax, hx⟩

/-- The last byte of a value is no white space, and a closing bracket only of an array or a
dictionary. -/
theorem Part.text_last (v : Part) : ∃ x, v.text = v.text.dropLast ++ [x] ∧
    isspace x = false ∧ ∀ kind : Kind, x = kind.closing → v.isNode kind = true := by
  have hdrop : ∀ {text a : Bytes} {x : Byte}, text = a ++ [x] → text = text.dropLast ++ [x] := by
    rintro text a x rfl
    rw [List.dropLast_concat]
  cases v with
  | num n =>
    obtain ⟨a, x, hax, hx⟩ := decimal_last n
    have hword : isWord x = true := by
      unfold isWord
      rw [hx, Bool.or_true]
    refine ⟨x, hdrop hax, isspace_word hword, fun kind h => absurd h (isWord_ne hword ?_)⟩
    cases kind <;> decide
  | str s =>
    refine ⟨QUOTE, hdrop (a := QUOTE :: s) rfl, by decide, fun kind h => absurd h ?_⟩
    cases kind <;> decide
  | node kind' entries closed trail =>
    refine ⟨kind'.closing, hdrop (a := kind'.opening :: (entries.text kind' closed ++ trail)) ?_,
      kind'.closing_space, fun kind h => decide_eq_true ?_⟩
    · simp only [Part.text, List.cons_append, List.append_assoc]
    · cases kind <;> cases kind' <;> first | rfl | exact absurd h (by decide)

/-- An array or a dictionary up to its last entry. -/
def Part.core : Part → Bytes
  | .node kind entries closed _ => kind.opening :: entries.text kind closed
  | v => v.text

theorem Part.core_last (kind : Kind) (entries : Parts) (closed : Bool) (trail : Bytes) :
    ∃ x, (Part.node kind entries closed trail).core
        = (Part.node kind entries closed trail).core.dropLast ++ [x] ∧ isspace x = false := by
  have hdrop : ∀ {text a : Bytes} {x : Byte}, text = a ++ [x] → text = text.dropLast ++ [x] := by
    rintro text a x rfl
    rw [List.dropLast_concat]
  rcases entries.eq_nil_or_snoc with rfl | ⟨pre, lead, v, rfl⟩
  · exact ⟨kind.opening, rfl, kind.opening_space⟩
  · cases closed with
    | true =>
      refine ⟨SEMICOLON, hdrop
        (a := kind.opening :: (pre.text kind true ++ (lead.text kind ++ v.text))) ?_, by decide⟩
      rw [Part.core, Parts.text_snoc, if_pos rfl]
      simp only [List.cons_append, List.append_assoc]
    | false =>
      obtain ⟨x, hx, hspace, -⟩ := v.text_last
      refine ⟨x, hdrop
        (a := kind.opening :: (pre.text kind true ++ (lead.text kind ++ v.text.dropLast))) ?_,
        hspace⟩
      rw [Part.core, Parts.text_snoc, if_neg (by simp), List.append_nil]
      conv_lhs => rw [hx]
      simp only [List.cons_append, List.append_assoc]

theorem Part.text_head (v : Part) : ∃ c rest, v.text = c :: rest ∧ isspace c = false := by
  cases v with
  | num n =>
    obtain ⟨c, rest, htext, hc, -⟩ := decimal_head n
    exact ⟨c, rest, htext, hc⟩
  | str s => exact ⟨_, _, rfl, by decide⟩
  | node kind entries closed trail => exact ⟨_, _, rfl, kind.opening_space⟩

theorem Part.text_ne_nil (v : Part) : v.text ≠ [] := by
  obtain ⟨c, rest, htext, -⟩ := v.text_head
  rw [htext]
  exact List.cons_ne_nil c rest

/-- Whatever stands behind it, a value begins with no white space. -/
theorem Part.head_space (v : Part) (behind : Bytes) (c : Byte)
    (h : (v.text ++ behind).head? = some c) :
    isspace c = false := by
  obtain ⟨d, rest, htext, hd⟩ := v.text_head
  rw [htext] at h
  obtain rfl := Option.some.inj h
  exact hd

theorem Part.dropLast_str (s : Bytes) : (Part.str s).text.dropLast = QUOTE :: s := by
  rw [Part.text, ← List.cons_append, List.dropLast_concat]

theorem Part.dropLast_node (kind : Kind) (entries : Parts) (closed : Bool) (trail : Bytes) :
    (Part.node kind entries closed trail).text.dropLast
      = kind.opening :: (entries.text kind closed ++ trail) := by
  rw [Part.text, ← List.append_assoc, ← List.cons_append, List.dropLast_concat]

/-- The beginning of a text is a part of its line. -/
theorem Scan.run_prefix {s r : Scan} {a b : Bytes} (h : s.run (a ++ b) = some r) :
    ∃ r', s.run a = some r' := by
  rw [Scan.run_append] at h
  obtain ⟨r', hr', -⟩ := Option.bind_eq_some_iff.mp h
  exact ⟨r', hr'⟩

/-! ## The loop over the children -/

section Loop

variable (g : Bytes → Option Data) {kind : Kind} {lead : Lead}

/-- A value with its semicolon, in front of where the loop stops. -/
theorem readChildren_value (hlead : lead.Ok kind) {text : Bytes} {c : Byte} {more : Bytes}
    (htext : text = c :: more) (hc : isspace c = false) (hline : Scan.start.run text = some .start)
    {stop : Nat} {q : Bytes} (hq : stop ≤ q.length) (n : Nat) :
    readChildren g kind stop (n + 1) (lead.text kind ++ (text ++ SEMICOLON :: q)) =
      (g text).bind fun d => (readChildren g kind stop n q).map fun rest =>
        .cons lead.key d rest := by
  have hstop : stop < (lead.text kind ++ (text ++ SEMICOLON :: q)).length := by
    simp only [List.length_append, List.length_cons]
    omega
  have hkey : readKey kind stop (skipSpace stop (lead.text kind ++ (text ++ SEMICOLON :: q)))
      = some (lead.key, text ++ SEMICOLON :: q) := by
    rw [htext]
    refine readKey_lead hlead hc ?_
    change stop ≤ (more ++ SEMICOLON :: q).length + 1
    rw [List.length_append, List.length_cons]
    omega
  have hregion : (text ++ SEMICOLON :: q).take ((text ++ SEMICOLON :: q).length - stop)
      = text ++ SEMICOLON :: q.take (q.length - stop) := by
    rw [List.take_append, List.take_of_length_le
      (by simp only [List.length_append, List.length_cons]; omega)]
    congr 1
    rw [show (text ++ SEMICOLON :: q).length - stop - text.length = (q.length - stop) + 1 by
      simp only [List.length_append, List.length_cons]
      omega]
    rfl
  have hlen : getLineLenFrom (text ++ SEMICOLON :: q.take (q.length - stop)) = text.length := by
    unfold getLineLenFrom
    rw [lineLen_append _ _ hline, lineLen, if_pos ⟨rfl, rfl⟩, Nat.add_zero]
  rw [readChildren, if_pos hstop, hkey, Option.bind_some]
  dsimp only
  rw [hregion, hlen, List.take_left, drop_line]

/-- The last value: the loop stops in front of the byte behind `region`. -/
theorem readChildren_final (hlead : lead.Ok kind) {region tail : Bytes} {b : Byte}
    (hhead : ∀ c, (region ++ [b]).head? = some c → isspace c = false)
    (hline : ∃ r, Scan.start.run region = some r) (hseen : lead.text kind ++ region ≠ [])
    (n : Nat) :
    readChildren g kind (tail.length + 1) (n + 1) (lead.text kind ++ (region ++ b :: tail)) =
      (g region).map fun d => .cons lead.key d .nil := by
  have hpos := List.length_pos_iff.mpr hseen
  rw [List.length_append] at hpos
  have hstop : tail.length + 1 < (lead.text kind ++ (region ++ b :: tail)).length := by
    simp only [List.length_append, List.length_cons]
    omega
  have hkey : readKey kind (tail.length + 1)
      (skipSpace (tail.length + 1) (lead.text kind ++ (region ++ b :: tail)))
      = some (lead.key, region ++ b :: tail) := by
    cases region with
    | nil => exact readKey_lead hlead (hhead b rfl) (Nat.le_refl _)
    | cons c more =>
      refine readKey_lead hlead (hhead c rfl) ?_
      change tail.length + 1 ≤ (more ++ b :: tail).length + 1
      rw [List.length_append, List.length_cons]
      omega
  have hregion : (region ++ b :: tail).take ((region ++ b :: tail).length - (tail.length + 1))
      = region := by
    apply List.take_left'
    simp only [List.length_append, List.length_cons]
    omega
  obtain ⟨r, hr⟩ := hline
  have hlen : getLineLenFrom region = region.length := by
    have happ := lineLen_append [] region hr
    rw [List.append_nil] at happ
    exact happ
  rw [readChildren, if_pos hstop, hkey, Option.bind_some]
  dsimp only
  rw [hregion, hlen, List.take_left, drop_line, readChildren_done g kind (Nat.le_succ _)]
  cases g region with
  | none => rfl
  | some d => rfl

end Loop

end Nastd.Libconfig
