import Nastd.Libconfig.Bounds

/-!
# What is not read

The condition of `Libconfig.RoundTrip` is exact. Where a line ends too early, the value is read from
a text that is too light for it (`weight_le`); where it ends too late, the rest of the children are.
-/

namespace Nastd.Libconfig

theorem Docs.data_nil {es : Docs} (h : es.data = .nil) : es = .nil := by
  cases es with
  | nil => rfl
  | cons lead value rest => exact absurd h (by simp [Docs.data])

/-- What stands before the last semicolon of the children is neat, behind the first key. -/
theorem Docs.neat_region {kind : Kind} {value : Doc} {rest : Docs} {body : Bytes}
    (hvalue : value.Ok) (hrest : rest.Ok kind)
    (hbody : SEMICOLON :: rest.text kind = body ++ [SEMICOLON]) : Neat (value.text ++ body) := by
  obtain ⟨m, hm⟩ := value.shape hvalue true
  have hrun : Shape.start.run (value.text ++ body ++ [SEMICOLON]) = some .start := by
    rw [List.append_assoc, ← hbody, Shape.run_append]
    show ((Shape.run ⟨false, true⟩ value.text).bind _) = _
    rw [hm, Option.bind_some, Shape.run, Shape.next_mark (by decide), Option.bind_some]
    exact rest.shape kind hrest
  obtain ⟨f, hf, hlast⟩ := Shape.run_split hrun
  rw [Shape.run, Shape.next_mark (by decide)] at hlast
  have hquote : f.quote = false := congrArg Shape.quote (Option.some.inj hlast)
  exact ⟨f.marked, by rw [hf, ← hquote]⟩

/-- A value is not read from a part of its text. -/
theorem Doc.not_cut {value : Doc} (hok : value.Ok) {a b : Bytes}
    (htext : value.text = a ++ SEMICOLON :: b) (ha : Neat a) (depth : Nat) :
    getDataFrom depth a ≠ some value.data := by
  intro hread
  have hle := weight_le depth a value.data ha hread (value.keyed hok)
  rw [value.weight hok, htext, marks_append, marks_cons (by decide)] at hle
  omega

/-- Nor are children. -/
theorem Docs.not_cut {kind : Kind} {rest : Docs} (hok : rest.Ok kind) {a b : Bytes}
    (htext : rest.text kind = a ++ SEMICOLON :: (b ++ [SEMICOLON])) (hb : Neat b)
    (depth n : Nat) (tail : Bytes) :
    readChildren (getDataFrom depth) kind (tail.length + 1) n (b ++ SEMICOLON :: tail)
      ≠ some rest.data := by
  intro hread
  have hle := readChildren_weight (weight_le depth) (by decide) tail n b rest.data hb hread
    (rest.keyed kind hok)
  rw [rest.weight kind hok, htext, marks_append, marks_cons (by decide), marks_append] at hle
  have hlast : marks [SEMICOLON] = 1 := by decide
  omega

/-- The line that was read as the first value is that value. -/
theorem Docs.line_exact {kind : Kind} {value : Doc} {rest : Docs} {body tail : Bytes}
    {depth n : Nat} (hvalue : value.Ok) (hrest : rest.Ok kind)
    (hbody : SEMICOLON :: rest.text kind = body ++ [SEMICOLON])
    (hread : getDataFrom depth ((value.text ++ body).take (getLineLenFrom (value.text ++ body)))
      = some value.data)
    (hchildren : readChildren (getDataFrom depth) kind (tail.length + 1) n
      ((value.text ++ body ++ SEMICOLON :: tail).drop (getLineLenFrom (value.text ++ body) + 1))
      = some rest.data) :
    (∃ r, Scan.start.run value.text = some r ∧ (rest.isNil = true ∨ r = .start)) ∧
      getLineLenFrom (value.text ++ body) = value.text.length := by
  have hneat := Docs.neat_region hvalue hrest hbody
  unfold getLineLenFrom at hread hchildren ⊢
  rcases lineLen_cases .start (value.text ++ body) with ⟨r, hr, hline⟩ | ⟨a, b, heq, ha, hline⟩
  · -- No semicolon ended the line, so nothing may follow.
    rw [hline, drop_line, readChildren_done _ kind (Nat.le_succ _)] at hchildren
    obtain rfl := Docs.data_nil (Option.some.inj hchildren).symm
    obtain rfl : body = [] := List.append_left_eq_self.mp hbody.symm
    rw [List.append_nil] at hr hline ⊢
    exact ⟨⟨r, hr, Or.inl rfl⟩, hline⟩
  · rw [heq] at hneat
    obtain ⟨hneata, hneatb⟩ := hneat.cut ha
    rw [hline, heq, List.take_left] at hread
    rw [hline, heq, List.append_assoc, List.cons_append, drop_line] at hchildren
    rcases List.append_eq_append_iff.mp heq with ⟨a', rfl, hbehind⟩ | ⟨a', htext, hbehind⟩
    · cases a' with
      | nil =>
        rw [List.append_nil] at ha hline
        exact ⟨⟨.start, ha, Or.inr rfl⟩, hline⟩
      | cons c a' =>
        -- The line went on into the next child.
        rw [hbehind, List.append_assoc, List.cons_append] at hbody
        have hcut := (List.cons.inj hbody).2
        exact absurd hchildren (Docs.not_cut hrest hcut hneatb depth n tail)
    · cases a' with
      | nil =>
        rw [List.append_nil] at htext
        rw [← htext] at ha hline
        exact ⟨⟨.start, ha, Or.inr rfl⟩, hline⟩
      | cons c a' =>
        -- The line ended inside the value.
        obtain rfl : SEMICOLON = c := (List.cons.inj hbehind).1
        exact absurd hread (Doc.not_cut hvalue htext hneata depth)

mutual

theorem Doc.exact : ∀ v : Doc, v.Ok → ∀ depth, getDataFrom depth v.text = some v.data →
    v.fine = true
  | .num _, _, _, _ => rfl
  | .str s, hok, depth, hread => by
    cases depth with
    | zero => exact absurd hread (by simp [getDataFrom])
    | succ depth =>
      have h := (getDataFrom_str depth hok.2).symm.trans hread
      cases s with
      | nil => exact absurd h (by simp)
      | cons c s => rfl
  | .node kind entries trail, hok, depth, hread => by
    cases depth with
    | zero => exact absurd hread (by simp [getDataFrom])
    | succ depth =>
      rw [getDataFrom_node depth kind entries hok.2] at hread
      obtain ⟨cs, hcs, hdata⟩ := Option.map_eq_some_iff.mp hread
      obtain ⟨-, rfl⟩ := Data.node.inj hdata
      exact entries.exact kind hok.1 depth _ _ hcs

theorem Docs.exact (kind : Kind) : ∀ es : Docs, es.Ok kind →
    ∀ (depth : Nat) (tail : Bytes) (n : Nat),
    readChildren (getDataFrom depth) kind (tail.length + 1) n (es.text kind ++ tail)
      = some es.data → es.fine = true
  | .nil, _, _, _, _, _ => rfl
  | .cons lead value rest, hok, depth, tail, n, hread => by
    obtain ⟨hlead, hvalue, hrest⟩ := hok
    obtain ⟨body, hbody, -⟩ := rest.behind kind
    cases n with
    | zero =>
      have hpos := Docs.text_pos kind lead value rest
      rw [readChildren, if_pos (by rw [List.length_append]; omega)] at hread
      exact absurd hread (by simp)
    | succ n =>
      rw [readChildren_cons _ hlead value hbody] at hread
      obtain ⟨d, hd, hchildren⟩ := Option.bind_eq_some_iff.mp hread
      obtain ⟨cs, hcs, hdata⟩ := Option.map_eq_some_iff.mp hchildren
      obtain ⟨-, rfl, rfl⟩ := Children.cons.inj hdata
      obtain ⟨⟨r, hr, hend⟩, hline⟩ := Docs.line_exact hvalue hrest hbody hd hcs
      rw [hline, List.take_left] at hd
      rw [hline, Docs.drop_value value hbody] at hcs
      have hfvalue := value.exact hvalue depth hd
      have hfrest := rest.exact kind hrest depth tail n hcs
      have hopened : (value.opened (0, 0)).any (fun m => rest.isNil || decide (m = (0, 0)))
          = true := by
        have hrun : (value.opened (0, 0)).map (Scan.counts false) = some r :=
          (value.run_text hvalue (0, 0)).symm.trans hr
        obtain ⟨m, hm, rfl⟩ := Option.map_eq_some_iff.mp hrun
        rw [hm, Option.any_some]
        rcases hend with hnil | hstart
        · rw [hnil]
          rfl
        · have hzero : m = (0, 0) :=
            Prod.ext (congrArg Scan.french hstart) (congrArg Scan.square hstart)
          rw [decide_eq_true hzero, Bool.or_true]
      rw [Docs.fine, hfvalue, hopened, hfrest]
      rfl

end

theorem Docs.fine_of_accepts {es : Docs} (hok : es.Ok .dict) {w : Bytes} (hw : Spaces w)
    (h : Accepts (es.text .dict ++ w) es.data) : es.fine = true := by
  obtain ⟨depth, hread⟩ := h
  rw [dictFromBuffer_text _ hok hw, ← es.strip_data] at hread
  rw [← es.strip_fine]
  exact es.strip.exact .dict (Docs.strip_ok hok) depth w _ hread

/-! ## Round trip -/

/-- A configuration is read back exactly if it is fine. -/
theorem config_roundtrip_iff {es : Docs} (hok : es.Ok .dict) {w : Bytes} (hw : Spaces w) :
    Accepts (es.text .dict ++ w) es.data ↔ es.fine = true :=
  ⟨Docs.fine_of_accepts hok hw, fun hfine => accepts_of_fine hok hfine hw⟩

/-- `user = "nast"; ports = [ 31337; ];` and the end of the line. -/
def userAndPorts : Docs :=
  .cons ⟨[], [0x75, 0x73, 0x65, 0x72], [0x20], [0x20]⟩ (.str [0x6e, 0x61, 0x73, 0x74])
    (.cons ⟨[0x20], [0x70, 0x6f, 0x72, 0x74, 0x73], [0x20], [0x20]⟩
      (.node .array (.cons ⟨[0x20], [], [], []⟩ (.num 31337) .nil) [0x20]) .nil)

theorem userAndPorts_read : Accepts (userAndPorts.text .dict ++ [0x0a]) userAndPorts.data :=
  (config_roundtrip_iff (by decide) (by decide)).mpr (by decide)

/-- `pass = "";` -/
def emptyPass : Docs := .cons ⟨[], [0x70, 0x61, 0x73, 0x73], [0x20], [0x20]⟩ (.str []) .nil

/-- `a = "{"; b = "}";` -/
def openAndShut : Docs :=
  .cons ⟨[], [0x61], [0x20], [0x20]⟩ (.str [LBRACE])
    (.cons ⟨[0x20], [0x62], [0x20], [0x20]⟩ (.str [RBRACE]) .nil)

/-- The first is refused, and the second is taken for one entry. -/
theorem strings_lost :
    (emptyPass.Ok .dict ∧ ¬Accepts (emptyPass.text .dict) emptyPass.data) ∧
      openAndShut.Ok .dict ∧ ¬Accepts (openAndShut.text .dict) openAndShut.data ∧
        Accepts (openAndShut.text .dict) (.cons [0x61] (.str
          [LBRACE, QUOTE, SEMICOLON, 0x20, 0x62, 0x20, EQUALS, 0x20, QUOTE, RBRACE]) .nil) := by
  have hlost : ∀ es : Docs, es.Ok .dict → es.fine = false → ¬Accepts (es.text .dict) es.data := by
    intro es hok hfine h
    have hacc : Accepts (es.text .dict ++ []) es.data := by rwa [List.append_nil]
    exact absurd (Docs.fine_of_accepts hok spaces_nil hacc) (by rw [hfine]; simp)
  have hpass : emptyPass.Ok .dict := by decide
  have hshut : openAndShut.Ok .dict := by decide
  exact ⟨⟨hpass, hlost emptyPass hpass (by decide)⟩, hshut, hlost openAndShut hshut (by decide),
    ⟨1, rfl⟩⟩

end Nastd.Libconfig
