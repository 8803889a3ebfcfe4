import Nastd.Libconfig.Parts

/-!
# Texts with two brackets open

An array or a dictionary whose text breaks off inside an array or a dictionary that is its last
entry is refused, whatever depth it breaks off at, if there are no brackets in strings. Where the
text ends in a closing bracket, that one is taken for the missing one of the outermost; what is
left of the last entry then is again such a text (`Stub.tail`), or it ends in no closing bracket.
-/

namespace Nastd.Libconfig

/-- What has no closing bracket in it, and ends no line while a bracket is open. -/
structure Loose (text : Bytes) : Prop where
  shut : ∀ c ∈ text, c ≠ RBRACE ∧ c ≠ RBRACKET
  line : ∀ n : Nat × Nat, n ≠ (0, 0) → ∃ r, (Scan.counts false n).run text = some r

/-- An array or a dictionary that breaks off: `pre` are its entries with their semicolons. -/
inductive Stub where
  /-- In something that is no array and no dictionary, or before it. -/
  | ends (kind : Kind) (pre : Parts) (text : Bytes)
  /-- Behind an array or a dictionary. -/
  | whole (kind : Kind) (pre : Parts) (lead : Lead) (v : Part)
  /-- Inside one. -/
  | deep (kind : Kind) (pre : Parts) (lead : Lead) (sub : Stub)

def Stub.kind : Stub → Kind
  | .ends kind _ _ => kind
  | .whole kind _ _ _ => kind
  | .deep kind _ _ _ => kind

def Stub.text : Stub → Bytes
  | .ends kind pre text => kind.opening :: (pre.text kind true ++ text)
  | .whole kind pre lead v =>
    kind.opening :: (pre.text kind true ++ (lead.text kind ++ v.text))
  | .deep kind pre lead sub =>
    kind.opening :: (pre.text kind true ++ (lead.text kind ++ sub.text))

def Stub.Ok : Stub → Prop
  | .ends kind pre text => pre.doc.Ok kind ∧ pre.bracketless = true ∧ Loose text
  | .whole kind pre lead v => pre.doc.Ok kind ∧ pre.bracketless = true ∧ lead.Ok kind ∧
    v.doc.Ok ∧ v.bracketless = true
  | .deep kind pre lead sub => pre.doc.Ok kind ∧ pre.bracketless = true ∧ lead.Ok kind ∧ sub.Ok

/-- It does not break off behind an array or a dictionary of its own. -/
def Stub.Torn : Stub → Prop
  | .whole _ _ _ _ => False
  | _ => True

/-! ## Lines -/

theorem loose_nil : Loose [] :=
  ⟨fun _ hc => absurd hc List.not_mem_nil, fun n _ => ⟨.counts false n, rfl⟩⟩

theorem Loose.left {a b : Bytes} (h : Loose (a ++ b)) : Loose a :=
  ⟨fun c hc => h.shut c (List.mem_append_left b hc),
    fun n hn => (h.line n hn).elim fun _ hr => Scan.run_prefix hr⟩

theorem Plain.loose {text : Bytes} (h : Plain text) : Loose text := by
  refine ⟨fun c hc => ?_, fun n _ => ⟨_, Scan.run_plain h false n⟩⟩
  obtain ⟨-, -, hbrace, -, hbracket, -⟩ := isPlain_ne (h c hc)
  exact ⟨hbrace, hbracket⟩

theorem Loose.lead {kind : Kind} {lead : Lead} {text : Bytes} (hlead : lead.Ok kind)
    (h : Loose text) : Loose (lead.text kind ++ text) := by
  have hplain := Lead.plain hlead
  refine ⟨fun c hc => ?_, fun n hn => ?_⟩
  · rcases List.mem_append.mp hc with hc | hc
    · exact hplain.loose.shut c hc
    · exact h.shut c hc
  · rw [Scan.run_append, Scan.run_plain hplain]
    exact h.line n hn

/-- A number or a string. -/
theorem Part.loose {v : Part} (hok : v.doc.Ok) (hv : v.bracketless = true)
    (hnode : ∀ kind, v.isNode kind = false) : Loose v.text := by
  have hline : ∀ n, (Scan.counts false n).run v.text = some (.counts false n) := by
    intro n
    rw [v.run_text hok, v.opened_bracketless hv]
    rfl
  refine ⟨?_, fun n _ => ⟨_, hline n⟩⟩
  · cases v with
    | num n => exact (decimal_plain n).loose.shut
    | str s =>
      intro c hc
      have hquote : QUOTE ≠ RBRACE ∧ QUOTE ≠ RBRACKET := by decide
      rcases List.mem_cons.mp hc with rfl | hc
      · exact hquote
      · rcases List.mem_append.mp hc with hc | hc
        · have hin := of_decide_eq_true (List.all_eq_true.mp hv c hc)
          simp only [List.mem_cons, List.not_mem_nil, or_false, not_or] at hin
          exact ⟨hin.2.1, hin.2.2.2⟩
        · rw [List.mem_singleton.mp hc]
          exact hquote
    | node kind entries closed trail => exact absurd (hnode kind) (by simp [Part.isNode])

/-- No line ends in a stub. -/
theorem Stub.line : ∀ {S : Stub}, S.Ok → ∀ n : Nat × Nat,
    ∃ r, (Scan.counts false n).run S.text = some r := by
  -- up to the last entry
  have hfront : ∀ {kind : Kind} {pre : Parts} {text : Bytes}, pre.doc.Ok kind →
      pre.bracketless = true → ∀ n : Nat × Nat,
      (∃ r, (Scan.counts false (bracket n kind.opening)).run text = some r) →
      ∃ r, (Scan.counts false n).run (kind.opening :: (pre.text kind true ++ text)) = some r := by
    intro kind pre text hpre hbare n ⟨r, hr⟩
    have hopening : kind.opening ≠ SEMICOLON ∧ kind.opening ≠ QUOTE := by cases kind <;> decide
    refine ⟨r, ?_⟩
    rw [Scan.counts_run hopening.1 hopening.2, Scan.run_append, pre.run_text kind true hpre,
      pre.opened_bracketless true hbare _ (bracket_node kind n).1]
    exact hr
  intro S
  induction S with
  | ends kind pre text =>
    intro ⟨hpre, hbare, htext⟩ n
    exact hfront hpre hbare n (htext.line _ (bracket_node kind n).1)
  | whole kind pre lead v =>
    intro ⟨hpre, hbare, hlead, hv, hvbare⟩ n
    refine hfront hpre hbare n ?_
    rw [Scan.run_append, Scan.run_plain (Lead.plain hlead), Option.bind_some, v.run_text hv,
      v.opened_bracketless hvbare]
    exact ⟨_, rfl⟩
  | deep kind pre lead sub ih =>
    intro ⟨hpre, hbare, hlead, hsub⟩ n
    refine hfront hpre hbare n ?_
    rw [Scan.run_append, Scan.run_plain (Lead.plain hlead), Option.bind_some]
    exact ih hsub _

/-! ## The last byte -/

/-- The last byte, but for white space, is no closing bracket. -/
def EndsShut (text : Bytes) : Prop :=
  ∃ a x w, text = a ++ x :: w ∧ isspace x = false ∧ (∀ kind : Kind, x ≠ kind.closing) ∧ Spaces w

theorem EndsShut.prepend {text : Bytes} (h : EndsShut text) (a : Bytes) : EndsShut (a ++ text) := by
  obtain ⟨a', x, w, rfl, hx, hne, hw⟩ := h
  exact ⟨a ++ a', x, w, (List.append_assoc ..).symm, hx, hne, hw⟩

theorem EndsShut.append {a : Bytes} (h : EndsShut a) : ∀ {b : Bytes},
    (∀ c ∈ b, c ≠ RBRACE ∧ c ≠ RBRACKET) → EndsShut (a ++ b) := by
  intro b
  induction b using List.reverseRecOn with
  | nil =>
    intro _
    rw [List.append_nil]
    exact h
  | append_singleton b c ih =>
    intro hb
    rw [← List.append_assoc]
    by_cases hc : isspace c = true
    · obtain ⟨a', x, w, heq, hx, hne, hw⟩ := ih fun d hd => hb d (List.mem_append_left _ hd)
      refine ⟨a', x, w ++ [c], by rw [heq]; simp, hx, hne, fun d hd => ?_⟩
      rcases List.mem_append.mp hd with hd | hd
      · exact hw d hd
      · rw [List.mem_singleton.mp hd]
        exact hc
    · obtain ⟨hbrace, hbracket⟩ := hb c (by simp)
      refine ⟨a ++ b, c, [], rfl, by simpa using hc, fun kind => ?_, spaces_nil⟩
      cases kind with
      | array => exact hbracket
      | dict => exact hbrace

theorem Spaces.shut {w : Bytes} (h : Spaces w) : ∀ c ∈ w, c ≠ RBRACE ∧ c ≠ RBRACKET :=
  h.plain.loose.shut

/-- With all semicolons. -/
theorem Parts.ends_shut (kind : Kind) (pre : Parts) :
    EndsShut (kind.opening :: pre.text kind true) := by
  rcases pre.eq_nil_or_snoc with rfl | ⟨pre, lead, v, rfl⟩
  · refine ⟨[], kind.opening, [], rfl, kind.opening_space, fun kind' => ?_, spaces_nil⟩
    cases kind <;> cases kind' <;> decide
  · refine ⟨kind.opening :: (pre.text kind true ++ (lead.text kind ++ v.text)), SEMICOLON, [],
      ?_, by decide, fun kind' => ?_, spaces_nil⟩
    · rw [Parts.text_snoc, if_pos rfl]
      simp only [List.cons_append, List.append_assoc]
    · cases kind' <;> decide

theorem Stub.ends_shut {kind : Kind} {pre : Parts} {text : Bytes} (htext : Loose text) :
    EndsShut (Stub.ends kind pre text).text :=
  (pre.ends_shut kind).append htext.shut

/-! ## What is left -/

/-- An array or a dictionary up to a last value that is all there. -/
theorem Stub.full {kind : Kind} {pre : Parts} {lead : Lead} {v : Part} (hpre : pre.doc.Ok kind)
    (hbare : pre.bracketless = true) (hlead : lead.Ok kind) (hv : v.doc.Ok)
    (hvbare : v.bracketless = true) :
    ∃ S : Stub, S.text = kind.opening :: (pre.text kind true ++ (lead.text kind ++ v.text)) ∧
      S.Ok := by
  by_cases hnode : ∃ kind', v.isNode kind' = true
  · exact ⟨.whole kind pre lead v, rfl, hpre, hbare, hlead, hv, hvbare⟩
  · have hno : ∀ kind', v.isNode kind' = false := fun kind' =>
      Bool.eq_false_iff.mpr fun h => hnode ⟨kind', h⟩
    exact ⟨.ends kind pre (lead.text kind ++ v.text), rfl, hpre, hbare,
      (Part.loose hv hvbare hno).lead hlead⟩

/-- Up to its last entry. -/
theorem Stub.core {kind : Kind} {entries : Parts} (hok : entries.doc.Ok kind)
    (hbare : entries.bracketless = true) (closed : Bool) :
    ∃ S : Stub, S.text = kind.opening :: entries.text kind closed ∧ S.Ok := by
  cases closed with
  | true =>
    refine ⟨.ends kind entries [], ?_, hok, hbare, loose_nil⟩
    rw [Stub.text, List.append_nil]
  | false =>
    rcases entries.eq_nil_or_snoc with rfl | ⟨pre, lead, v, rfl⟩
    · exact ⟨.ends kind .nil [], rfl, trivial, rfl, loose_nil⟩
    · obtain ⟨hpre, hlead, hv⟩ := Parts.ok_snoc hok
      obtain ⟨hpbare, hvbare⟩ := Parts.bracketless_snoc hbare
      rw [Parts.text_snoc, if_neg Bool.false_ne_true, List.append_nil]
      exact Stub.full hpre hpbare hlead hv hvbare

/-- Up to its last value without the last byte. -/
theorem Stub.torn {kind : Kind} {pre : Parts} {lead : Lead} {v : Part} (hpre : pre.doc.Ok kind)
    (hbare : pre.bracketless = true) (hlead : lead.Ok kind) (hv : v.doc.Ok)
    (hvbare : v.bracketless = true) :
    ∃ (S : Stub) (w : Bytes),
      kind.opening :: (pre.text kind true ++ (lead.text kind ++ v.text.dropLast)) = S.text ++ w ∧
        S.Ok ∧ S.Torn ∧ Spaces w := by
  have hends : (∀ kind', v.isNode kind' = false) → ∃ (S : Stub) (w : Bytes),
      kind.opening :: (pre.text kind true ++ (lead.text kind ++ v.text.dropLast)) = S.text ++ w ∧
        S.Ok ∧ S.Torn ∧ Spaces w := by
    intro hno
    obtain ⟨x, hx, -⟩ := v.text_last
    have hloose := Part.loose hv hvbare hno
    rw [hx] at hloose
    exact ⟨.ends kind pre (lead.text kind ++ v.text.dropLast), [], (List.append_nil _).symm,
      ⟨hpre, hbare, hloose.left.lead hlead⟩, trivial, spaces_nil⟩
  cases v with
  | num n => exact hends fun _ => rfl
  | str s => exact hends fun _ => rfl
  | node kind' entries closed trail =>
    obtain ⟨S, hS, hSok⟩ := Stub.core hv.1 hvbare closed
    refine ⟨.deep kind pre lead S, trail, ?_, ⟨hpre, hbare, hlead, hSok⟩, trivial, hv.2⟩
    rw [Part.dropLast_node, Stub.text, hS]
    simp only [List.cons_append, List.append_assoc]

/-- A stub ends in no closing bracket; or what stands before the byte before that bracket is a
stub that is torn. -/
theorem Stub.tail : ∀ {S : Stub}, S.Ok → EndsShut S.text ∨
    ∃ (S' : Stub) (w : Bytes) (b : Byte) (u : Bytes) (kind : Kind),
      S.text = S'.text ++ (w ++ b :: (u ++ [kind.closing])) ∧ S'.Ok ∧ S'.Torn ∧ Spaces w ∧
        isspace b = false ∧ Spaces u := by
  intro S
  induction S with
  | ends kind pre text => exact fun h => Or.inl (Stub.ends_shut h.2.2)
  | whole kind pre lead v =>
    intro ⟨hpre, hbare, hlead, hv, hvbare⟩
    by_cases hnode : ∃ kind', v.isNode kind' = true
    · apply Or.inr
      obtain ⟨kind', hnode⟩ := hnode
      cases v with
      | num n => exact absurd hnode Bool.false_ne_true
      | str s => exact absurd hnode Bool.false_ne_true
      | node kind'' entries closed trail =>
        rcases entries.eq_nil_or_snoc with rfl | ⟨pre', lead', v', rfl⟩
        · refine ⟨.ends kind pre (lead.text kind), [], kind''.opening, trail, kind'', ?_,
            ⟨hpre, hbare, ?_⟩, trivial, spaces_nil, kind''.opening_space, hv.2⟩
          · simp only [Stub.text, Part.text, Parts.text, List.cons_append, List.append_assoc,
              List.nil_append]
          · exact (Lead.plain hlead).loose
        · obtain ⟨hpre', hlead', hv'⟩ := Parts.ok_snoc hv.1
          obtain ⟨hbare', hvbare'⟩ := Parts.bracketless_snoc hvbare
          cases closed with
          | true =>
            obtain ⟨S, hS, hSok⟩ := Stub.full hpre' hbare' hlead' hv' hvbare'
            refine ⟨.deep kind pre lead S, [], SEMICOLON, trail, kind'', ?_,
              ⟨hpre, hbare, hlead, hSok⟩, trivial, spaces_nil, by decide, hv.2⟩
            rw [Stub.text, Stub.text, hS, Part.text, Parts.text_snoc, if_pos rfl]
            simp only [List.cons_append, List.append_assoc, List.nil_append]
          | false =>
            obtain ⟨S, w, hS, hSok, -, hw⟩ := Stub.torn hpre' hbare' hlead' hv' hvbare'
            obtain ⟨x, hx, hspace, -⟩ := v'.text_last
            refine ⟨.deep kind pre lead S, w, x, trail, kind'', ?_, ⟨hpre, hbare, hlead, hSok⟩,
              trivial, hw, hspace, hv.2⟩
            have htext : kind''.opening :: (pre'.snoc lead' v').text kind'' false
                = S.text ++ (w ++ [x]) := by
              rw [Parts.text_snoc, if_neg Bool.false_ne_true, List.append_nil, hx,
                ← List.append_assoc S.text, ← hS]
              simp only [List.cons_append, List.append_assoc]
            have hwhole := congrArg (· ++ (trail ++ [kind''.closing])) htext
            simp only [List.cons_append, List.append_assoc, List.nil_append] at hwhole
            rw [Stub.text, Stub.text, Part.text, hwhole]
            simp only [List.cons_append, List.append_assoc]
    · have hno : ∀ kind', v.isNode kind' = false := fun kind' =>
        Bool.eq_false_iff.mpr fun h => hnode ⟨kind', h⟩
      exact Or.inl (Stub.ends_shut ((Part.loose hv hvbare hno).lead hlead))
  | deep kind pre lead sub ih =>
    intro ⟨hpre, hbare, hlead, hsub⟩
    rcases ih hsub with hshut | ⟨S', w, b, u, kind', heq, hok, -, hw, hb, hu⟩
    · have h := hshut.prepend (kind.opening :: (pre.text kind true ++ lead.text kind))
      rw [List.cons_append, List.append_assoc] at h
      exact Or.inl h
    · refine Or.inr ⟨.deep kind pre lead S', w, b, u, kind', ?_, ⟨hpre, hbare, hlead, hok⟩,
        trivial, hw, hb, hu⟩
      rw [Stub.text, Stub.text, heq]
      simp only [List.cons_append, List.append_assoc]

/-! ## Refused -/

theorem Kind.closing_inj {kind kind' : Kind} (h : kind.closing = kind'.closing) : kind = kind' := by
  cases kind <;> cases kind' <;> first | rfl | exact absurd h (by decide)

theorem Parts.lines_bracketless {kind : Kind} : ∀ {es : Parts}, es.doc.Ok kind →
    es.bracketless = true → es.All fun v => Scan.start.run v.text = some .start
  | .nil, _, _ => trivial
  | .cons lead v rest, hok, h => by
    obtain ⟨hv, hrest⟩ := (Bool.and_eq_true _ _).mp h
    refine ⟨?_, Parts.lines_bracketless hok.2.2 hrest⟩
    have hrun := v.run_text hok.2.1 (0, 0)
    rwa [v.opened_bracketless hv] at hrun

/-- Where what follows is refused, all is. -/
theorem readChildren_front_none (g : Bytes → Option Data) {kind : Kind} {stop : Nat} {q : Bytes}
    (hq : stop < q.length) (hnone : ∀ n, readChildren g kind stop n q = none) :
    ∀ {pre : Parts}, pre.doc.Ok kind → (pre.All fun v => Scan.start.run v.text = some .start) →
      ∀ n, readChildren g kind stop n (pre.text kind true ++ q) = none
  | .nil, _, _, n => hnone n
  | .cons lead v pre, hok, hlines, n => by
    obtain ⟨c, more, htext, hc⟩ := v.text_head
    rw [Parts.text_cons]
    cases n with
    | zero =>
      refine if_pos ?_
      simp only [List.length_append, List.length_cons]
      omega
    | succ n =>
      rw [readChildren_value g hok.1 htext hc hlines.1
        (by rw [List.length_append]; omega),
        readChildren_front_none g hq hnone hok.2.2 hlines.2]
      cases g v.text with
      | none => rfl
      | some d => rfl

theorem getDataFrom_unbalanced {kind : Kind} {text a w : Bytes} {x : Byte}
    (hhead : text.head? = some kind.opening) (heq : text = a ++ x :: w)
    (hx : isspace x = false) (hne : x ≠ kind.closing) (hw : Spaces w) (depth : Nat) :
    getDataFrom depth text = none := by
  cases depth with
  | zero => rfl
  | succ depth =>
    obtain ⟨rest, rfl⟩ := List.head?_eq_some_iff.mp hhead
    rw [getDataFrom_container, containerFromBuffer_unbalanced _ hhead heq hx hne hw]
    rfl

theorem EndsShut.refused {kind : Kind} {text : Bytes} (h : EndsShut text)
    (hhead : text.head? = some kind.opening) (depth : Nat) : getDataFrom depth text = none := by
  obtain ⟨a, x, w, heq, hx, hne, hw⟩ := h
  exact getDataFrom_unbalanced hhead heq hx (hne kind) hw depth

/-- Where what the loop sees of the last entry is refused, all is. -/
theorem getDataFrom_last_none {kind : Kind} {pre : Parts} {lead : Lead} {region u w : Bytes}
    {b : Byte} (hpre : pre.doc.Ok kind)
    (hlines : pre.All fun v => Scan.start.run v.text = some .start) (hlead : lead.Ok kind)
    (hhead : ∀ c, (region ++ [b]).head? = some c → isspace c = false)
    (hline : ∃ r, Scan.start.run region = some r) (hseen : region ≠ [])
    (hb : isspace b = false) (hu : Spaces u) (hw : Spaces w) (depth : Nat)
    (hnone : getDataFrom depth region = none) :
    getDataFrom (depth + 1) (kind.opening :: (pre.text kind true ++
      (lead.text kind ++ (region ++ b :: (u ++ kind.closing :: w))))) = none := by
  have hlast : kind.opening :: (pre.text kind true ++
        (lead.text kind ++ (region ++ b :: (u ++ kind.closing :: w))))
      = (kind.opening :: (pre.text kind true ++ (lead.text kind ++ region)))
        ++ b :: (u ++ kind.closing :: w) := by
    simp only [List.cons_append, List.append_assoc]
  have hpos := List.length_pos_iff.mpr hseen
  have hstop : (u ++ kind.closing :: w).length + 1
      < (lead.text kind ++ (region ++ b :: (u ++ kind.closing :: w))).length := by
    simp only [List.length_append, List.length_cons]
    omega
  rw [getDataFrom_container, containerFromBuffer_taken _ rfl hlast hb hu hw, List.tail_cons,
    readChildren_front_none _ hstop ?_ hpre hlines]
  · rfl
  · intro n
    cases n with
    | zero => exact if_pos hstop
    | succ n =>
      rw [readChildren_final _ hlead hhead hline (List.append_ne_nil_of_right_ne_nil _ hseen),
        hnone]
      rfl

theorem Stub.text_head (S : Stub) : ∃ rest, S.text = S.kind.opening :: rest := by
  cases S <;> exact ⟨_, rfl⟩

/-- A stub that is torn is refused. -/
theorem Stub.refused : ∀ (depth : Nat) {S : Stub} {w : Bytes}, S.Ok → S.Torn → Spaces w →
    getDataFrom depth (S.text ++ w) = none := by
  intro depth
  induction depth with
  | zero => exact fun _ _ _ => rfl
  | succ depth ih =>
    intro S w hok htorn hw
    cases S with
    | ends kind pre text =>
      exact ((Stub.ends_shut hok.2.2).append hw.shut).refused rfl _
    | whole kind pre lead v => exact absurd htorn id
    | deep kind pre lead sub =>
      obtain ⟨hpre, hbare, hlead, hsub⟩ := hok
      rcases Stub.tail hsub with hshut | ⟨S, w', b, u, kind', heq, hSok, hStorn, hw', hb, hu⟩
      · have h := hshut.prepend (kind.opening :: (pre.text kind true ++ lead.text kind))
        rw [List.cons_append, List.append_assoc] at h
        exact (h.append hw.shut).refused rfl _
      · have hstub : (Stub.deep kind pre lead sub).text ++ w
            = kind.opening :: (pre.text kind true ++ (lead.text kind ++
                ((S.text ++ w') ++ b :: (u ++ kind'.closing :: w)))) := by
          rw [Stub.text, heq]
          simp only [List.cons_append, List.append_assoc, List.nil_append]
        rw [hstub]
        by_cases hkind : kind' = kind
        · -- The bracket is taken for the one that is missing.
          subst hkind
          obtain ⟨rest, hS⟩ := S.text_head
          refine getDataFrom_last_none hpre (Parts.lines_bracketless hpre hbare) hlead ?_ ?_ ?_ hb
            hu hw depth (ih hSok hStorn hw')
          · intro c hc
            rw [hS] at hc
            obtain rfl := Option.some.inj hc
            exact S.kind.opening_space
          · obtain ⟨r, hr⟩ := Stub.line hsub (0, 0)
            rw [heq, ← List.append_assoc] at hr
            exact Scan.run_prefix hr
          · rw [hS]
            exact List.cons_ne_nil _ _
        · have hlast : kind.opening :: (pre.text kind true ++ (lead.text kind ++
                ((S.text ++ w') ++ b :: (u ++ kind'.closing :: w))))
              = (kind.opening :: (pre.text kind true ++ (lead.text kind ++
                  ((S.text ++ w') ++ b :: u)))) ++ kind'.closing :: w := by
            simp only [List.cons_append, List.append_assoc]
          exact getDataFrom_unbalanced rfl hlast kind'.closing_space
            (fun h => hkind (Kind.closing_inj h)) hw _

end Nastd.Libconfig
