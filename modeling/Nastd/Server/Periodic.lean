import Nastd.Server.Reload

/-!
# The periodic thread

`periodic_looper` of `server/periodic.c`, which wakes up about once a second and every
`PERIODICITY` turns has `cdb_periodic` of `server/cdb.c` look at the CDB file, with everything
in `cdb_new` that can fail (`Server/Reload.lean`). A turn is one of the loop, however long it
waited; the rates that it has collated are left out.

* `cdbPeriodicSteps_quiet`: with no failure this is the `cdbPeriodic` the server model has.
* `inPlace_turns`: what any number of turns come to while one file is in place.
* `file_in_place`: so a newer file is loaded within `PERIODICITY` turns and once only, one that
  cannot be loaded is tried again every `PERIODICITY` turns, and any other is left alone.
-/

namespace Nastd.Server

open Nastd.Lib

/-- How many turns lie between two looks at the file. -/
def PERIODICITY : Nat := 30

theorem PERIODICITY_pos : 0 < PERIODICITY := by decide

/-- What the outside does in one turn: the file that `stat` sees, the one that `open` finds, and
what fails in between. -/
structure Tick where
  seen : Option CdbFile
  opened : Option CdbFile
  fails : Failures

/-- The thread's counter, and the globals of `cdb.c`. -/
structure Looper where
  count : Nat
  cdb : CdbState

/-- `cdb_periodic`; the code is that of `cdb_new` where it is called. -/
def cdbPeriodicSteps (turn : Tick) (s : CdbState) : Option (Option Int × CdbState) :=
  match turn.seen with
  | none => some (none, s)
  | some sb =>
    if sb.image.len = 0 then some (none, s)
    else if s.globals.cdbMtime < sb.mtime then
      (cdbNewSteps turn.fails turn.opened s).map fun r => (some r.1, r.2)
    else some (none, s)

/-- One turn of `periodic_looper`. -/
def looperTurn (s : Looper) (turn : Tick) : Option (Option Int × Looper) :=
  if s.count + 1 = PERIODICITY then
    (cdbPeriodicSteps turn s.cdb).map fun r => (r.1, ⟨0, r.2⟩)
  else some (none, ⟨s.count + 1, s.cdb⟩)

/-- The codes of the calls of `cdb_new` in a run. -/
def cdbNewCalls (outs : List (Option Int)) : List Int := outs.reduceOption

/-- The file is there, and nothing fails. -/
def inPlace (f : CdbFile) : Tick := ⟨some f, some f, noFailures⟩

/-- `cdb_periodic` would load this file. -/
def Newer (f : CdbFile) (s : CdbState) : Prop := f.image.len ≠ 0 ∧ s.globals.cdbMtime < f.mtime

/-! ## One look at the file -/

/-- With no failure this is `cdbPeriodic`. -/
theorem cdbPeriodicSteps_quiet {seen opened : Option CdbFile} (s : CdbState)
    (hshort : ∀ f, opened = some f → MetadataShort f.image) :
    (cdbPeriodicSteps ⟨seen, opened, noFailures⟩ s).map (fun r => r.2.globals.toCdb)
      = cdbPeriodic seen opened s.globals.toCdb := by
  cases seen with
  | none => rfl
  | some sb =>
    unfold cdbPeriodicSteps cdbPeriodic
    dsimp only
    by_cases hlen : sb.image.len = 0
    · rw [if_pos hlen, if_pos hlen]
      rfl
    · rw [if_neg hlen, if_neg hlen]
      by_cases hnew : s.globals.cdbMtime < sb.mtime
      · have hmtime : s.globals.toCdb.cdbMtime < sb.mtime := hnew
        rw [if_pos hnew, if_pos hmtime, ← cdbNewSteps_quiet s hshort, Option.map_map,
          Option.map_map]
        rfl
      · have hmtime : ¬ s.globals.toCdb.cdbMtime < sb.mtime := hnew
        rw [if_neg hnew, if_neg hmtime]
        rfl

/-- With no failure, `cdb_new` gives up on a file that is not complete. -/
theorem givesUp_inPlace {f : CdbFile} (s : CdbState) (hlen : f.image.len ≠ 0) :
    GivesUp noFailures (some f) s ↔ ¬ Complete f.image := by
  constructor
  · rintro (⟨-, h | h⟩ | h | h | h | h | h | ⟨i, -, h⟩)
    · exact absurd h Bool.false_ne_true
    · exact absurd h Bool.false_ne_true
    · exact absurd h Bool.false_ne_true
    · exact absurd h Bool.false_ne_true
    · exact absurd h hlen
    · exact h
    · exact absurd h Bool.false_ne_true
    · exact absurd h Bool.false_ne_true
  · intro h
    exact Or.inr (Or.inr (Or.inr (Or.inr (Or.inl h))))

/-- What `cdb_new` does with a file that is there when nothing fails. -/
theorem cdbNewSteps_inPlace {f : CdbFile} (s : CdbState) (hwhole : MetadataWhole f.image)
    (hlen : f.image.len ≠ 0) :
    ∃ rc s', cdbNewSteps noFailures (some f) s = some (rc, s') ∧
      ((Complete f.image ∧ rc = 0 ∧ s'.globals.LoadedFrom f) ∨
        (¬ Complete f.image ∧ rc = -1 ∧ s'.globals = s.globals)) := by
  obtain ⟨rc, s', hstep, hres⟩ := cdbNewSteps_reloaded noFailures (some f) s fun g hg => by
    obtain rfl := Option.some.inj hg
    exact hwhole.short
  have hres' := hres.congr (givesUp_inPlace s hlen)
  refine ⟨rc, s', hstep, ?_⟩
  generalize s'.globals = g' at hres' ⊢
  cases hres' with
  | kept hnot => exact Or.inr ⟨hnot, rfl, rfl⟩
  | replaced hcomplete hf hload =>
    obtain rfl := Option.some.inj hf
    exact Or.inl ⟨not_not.mp hcomplete, rfl, hload hwhole.inside⟩

/-- One look at a file that is in place. -/
theorem inPlace_look {f : CdbFile} (s : CdbState) (hwhole : MetadataWhole f.image) :
    ∃ rc s', cdbPeriodicSteps (inPlace f) s = some (rc, s') ∧
      ((¬ Newer f s ∧ rc = none ∧ s'.globals = s.globals) ∨
        (Newer f s ∧ Complete f.image ∧ rc = some 0 ∧ s'.globals.LoadedFrom f) ∨
        (Newer f s ∧ ¬ Complete f.image ∧ rc = some (-1) ∧ s'.globals = s.globals)) := by
  unfold cdbPeriodicSteps inPlace
  dsimp only
  by_cases hlen : f.image.len = 0
  · rw [if_pos hlen]
    exact ⟨_, _, rfl, Or.inl ⟨fun h => h.1 hlen, rfl, rfl⟩⟩
  by_cases hnew : s.globals.cdbMtime < f.mtime
  · obtain ⟨rc, s', hstep, hres⟩ := cdbNewSteps_inPlace s hwhole hlen
    rw [if_neg hlen, if_pos hnew, hstep]
    refine ⟨_, _, rfl, Or.inr ?_⟩
    rcases hres with ⟨hc, rfl, hfrom⟩ | ⟨hc, rfl, hsame⟩
    · exact Or.inl ⟨⟨hlen, hnew⟩, hc, rfl, hfrom⟩
    · exact Or.inr ⟨⟨hlen, hnew⟩, hc, rfl, hsame⟩
  · rw [if_neg hlen, if_neg hnew]
    exact ⟨_, _, rfl, Or.inl ⟨fun h => hnew h.2, rfl, rfl⟩⟩

/-- Whether a file would be loaded is a matter of the globals. -/
theorem newer_congr {f : CdbFile} {s s' : CdbState} (h : s'.globals = s.globals) :
    Newer f s' ↔ Newer f s := by
  unfold Newer
  rw [h]

/-- A file that is loaded is not loaded again. -/
theorem CdbGlobals.LoadedFrom.not_newer {f : CdbFile} {s : CdbState} (h : s.globals.LoadedFrom f) :
    ¬ Newer f s := fun hnew => absurd h.cdbMtime (Int.ne_of_lt hnew.2)

/-! ## Any number of turns -/

/-- Every `PERIODICITY` turns the counter is where it was. -/
theorem looperTurn_count {s s' : Looper} {turn : Tick} {rc : Option Int}
    (hcount : s.count < PERIODICITY) (h : looperTurn s turn = some (rc, s')) :
    s'.count = (s.count + 1) % PERIODICITY := by
  unfold looperTurn at h
  split at h
  next hlook =>
    obtain ⟨r, -, heq⟩ := Option.map_eq_some_iff.mp h
    obtain ⟨-, rfl⟩ := Prod.mk.inj heq
    rw [hlook, Nat.mod_self]
  next hlook =>
    obtain ⟨-, rfl⟩ := Prod.mk.inj (Option.some.inj h)
    exact (Nat.mod_eq_of_lt (Nat.lt_of_le_of_ne hcount hlook)).symm

theorem looper_count {turns : List Tick} :
    ∀ {s s' : Looper} {outs : List (Option Int)}, s.count < PERIODICITY →
      runs looperTurn s turns = some (outs, s') →
      s'.count = (s.count + turns.length) % PERIODICITY := by
  induction turns with
  | nil =>
    intro s s' outs hcount hrun
    obtain ⟨-, rfl⟩ := Prod.mk.inj (Option.some.inj hrun)
    exact (Nat.mod_eq_of_lt hcount).symm
  | cons turn turns ih =>
    intro s s' outs hcount hrun
    obtain ⟨rc, s₁, outs', hstep, hrest, -⟩ := runs_cons.mp hrun
    have hcount₁ := looperTurn_count hcount hstep
    have hlt : s₁.count < PERIODICITY := hcount₁ ▸ Nat.mod_lt _ PERIODICITY_pos
    rw [ih hlt hrest, hcount₁, Nat.mod_add_mod, List.length_cons, Nat.add_assoc,
      Nat.add_comm 1]

/-- One turn leaves the globals as they are or those of one whole file. -/
theorem looperTurn_whole {s s' : Looper} {turn : Tick} {rc : Option Int}
    (hfiles : ∀ f, turn.opened = some f → MetadataWhole f.image)
    (hwhole : ∃ f, s.cdb.globals.LoadedFrom f) (h : looperTurn s turn = some (rc, s')) :
    ∃ f, s'.cdb.globals.LoadedFrom f := by
  -- only a `cdb_new` that comes to its end writes the globals
  have hlook : ∀ r, cdbPeriodicSteps turn s.cdb = some r → ∃ f, r.2.globals.LoadedFrom f := by
    intro r hr
    unfold cdbPeriodicSteps at hr
    split at hr
    · obtain rfl := Option.some.inj hr
      exact hwhole
    · split at hr
      · obtain rfl := Option.some.inj hr
        exact hwhole
      · split at hr
        · obtain ⟨q, hq, rfl⟩ := Option.map_eq_some_iff.mp hr
          exact cdbNewSteps_whole hfiles hwhole hq
        · obtain rfl := Option.some.inj hr
          exact hwhole
  unfold looperTurn at h
  split at h
  · obtain ⟨r, hr, heq⟩ := Option.map_eq_some_iff.mp h
    obtain ⟨-, rfl⟩ := Prod.mk.inj heq
    exact hlook r hr
  · obtain ⟨-, rfl⟩ := Prod.mk.inj (Option.some.inj h)
    exact hwhole

/-- What a stretch of `n` turns with this file in place comes to. -/
structure Stretch (f : CdbFile) (n : Nat) (s : Looper) (outs : List (Option Int)) (s' : Looper) :
    Prop where
  old : ¬ Newer f s.cdb → cdbNewCalls outs = [] ∧ s'.cdb.globals = s.cdb.globals
  early : s.count + n < PERIODICITY → cdbNewCalls outs = [] ∧ s'.cdb.globals = s.cdb.globals
  loaded : Newer f s.cdb → Complete f.image → PERIODICITY ≤ s.count + n →
    cdbNewCalls outs = [0] ∧ s'.cdb.globals.LoadedFrom f
  refused : Newer f s.cdb → ¬ Complete f.image →
    cdbNewCalls outs = List.replicate ((s.count + n) / PERIODICITY) (-1) ∧
      s'.cdb.globals = s.cdb.globals

/-- A turn in which nobody looks. -/
theorem Stretch.idle {f : CdbFile} {n : Nat} {s s' : Looper} {outs : List (Option Int)}
    (s₁ : Looper) (hcount : s₁.count = s.count + 1) (hcdb : s₁.cdb = s.cdb)
    (h : Stretch f n s₁ outs s') : Stretch f (n + 1) s (none :: outs) s' := by
  have hsum : s.count + (n + 1) = s₁.count + n := by omega
  obtain ⟨hold, hearly, hloaded, hrefused⟩ := h
  rw [hcdb] at hold hearly hloaded hrefused
  rw [← hsum] at hearly hloaded hrefused
  exact ⟨hold, hearly, hloaded, hrefused⟩

/-- A turn with a look at the file. -/
theorem Stretch.look {f : CdbFile} {n : Nat} {s s₁ s' : Looper} {outs : List (Option Int)}
    {rc : Option Int} (hcount : s.count + 1 = PERIODICITY) (hzero : s₁.count = 0)
    (hlook : (¬ Newer f s.cdb ∧ rc = none ∧ s₁.cdb.globals = s.cdb.globals) ∨
      (Newer f s.cdb ∧ Complete f.image ∧ rc = some 0 ∧ s₁.cdb.globals.LoadedFrom f) ∨
      (Newer f s.cdb ∧ ¬ Complete f.image ∧ rc = some (-1) ∧ s₁.cdb.globals = s.cdb.globals))
    (h : Stretch f n s₁ outs s') : Stretch f (n + 1) s (rc :: outs) s' := by
  have hlate : ¬ s.count + (n + 1) < PERIODICITY := by omega
  rcases hlook with ⟨hnew, rfl, hsame⟩ | ⟨hnew, hc, rfl, hfrom⟩ | ⟨hnew, hc, rfl, hsame⟩
  -- what is left of the stretch starts with the file not newer, loaded, or still refused
  · have hnew₁ : ¬ Newer f s₁.cdb := (newer_congr hsame).not.mpr hnew
    obtain ⟨hcalls, hkept⟩ := h.old hnew₁
    exact ⟨fun _ => ⟨hcalls, hkept.trans hsame⟩, fun hlt => absurd hlt hlate,
      fun hn => absurd hn hnew, fun hn => absurd hn hnew⟩
  · obtain ⟨hcalls, hkept⟩ := h.old hfrom.not_newer
    refine ⟨fun hn => absurd hnew hn, fun hlt => absurd hlt hlate, fun _ _ _ => ⟨?_, ?_⟩,
      fun _ hn => absurd hc hn⟩
    · exact congrArg (List.cons 0) hcalls
    · rw [hkept]
      exact hfrom
  · obtain ⟨hcalls, hkept⟩ := h.refused ((newer_congr hsame).mpr hnew) hc
    refine ⟨fun hn => absurd hnew hn, fun hlt => absurd hlt hlate, fun _ hn => absurd hn hc,
      fun _ _ => ⟨?_, hkept.trans hsame⟩⟩
    have hturns : (s.count + (n + 1)) / PERIODICITY = n / PERIODICITY + 1 := by
      rw [← Nat.add_div_right n PERIODICITY_pos]
      congr 1
      omega
    rw [hzero, Nat.zero_add] at hcalls
    rw [hturns, List.replicate_succ]
    exact congrArg (List.cons (-1)) hcalls

/-- **A file in place**, for any number of turns. -/
theorem inPlace_turns {f : CdbFile} (hwhole : MetadataWhole f.image) :
    ∀ (n : Nat) (s : Looper), s.count < PERIODICITY →
      ∃ outs s', runs looperTurn s (List.replicate n (inPlace f)) = some (outs, s') ∧
        Stretch f n s outs s' := by
  intro n
  induction n with
  | zero =>
    intro s hcount
    refine ⟨[], s, rfl, fun _ => ⟨rfl, rfl⟩, fun _ => ⟨rfl, rfl⟩, ?_, ?_⟩
    · intro _ _ hle
      omega
    · intro _ _
      rw [Nat.add_zero, Nat.div_eq_of_lt hcount]
      exact ⟨rfl, rfl⟩
  | succ n ih =>
    intro s hcount
    by_cases hlook : s.count + 1 = PERIODICITY
    · obtain ⟨rc, cdb, hstep, hres⟩ := inPlace_look s.cdb hwhole
      obtain ⟨outs, s', hrun, hstretch⟩ := ih ⟨0, cdb⟩ PERIODICITY_pos
      have hturn : looperTurn s (inPlace f) = some (rc, ⟨0, cdb⟩) := by
        rw [looperTurn, if_pos hlook, hstep]
        rfl
      exact ⟨rc :: outs, s', runs_cons.mpr ⟨rc, _, outs, hturn, hrun, rfl⟩,
        hstretch.look hlook rfl hres⟩
    · obtain ⟨outs, s', hrun, hstretch⟩ := ih ⟨s.count + 1, s.cdb⟩ (by dsimp only; omega)
      have hturn : looperTurn s (inPlace f) = some (none, ⟨s.count + 1, s.cdb⟩) := by
        rw [looperTurn, if_neg hlook]
      exact ⟨none :: outs, s', runs_cons.mpr ⟨none, _, outs, hturn, hrun, rfl⟩,
        Stretch.idle ⟨s.count + 1, s.cdb⟩ rfl rfl hstretch⟩

/-- **Newer files are picked up.** The entries of all files are shorter than the arrays and end in
the file. The thread starts with a file loaded and takes any turns, in which files come and
go and calls fail; then a file stays in place for `n` turns. If it is
empty or no newer than what is loaded, it is left alone. If it is newer and complete, then with
the first turn that makes a multiple of `PERIODICITY` it is loaded, it is not loaded again, and
`cdb_get` answers from it. If it is newer and not complete, `cdb_new` fails at each such turn
and what is loaded stays. -/
theorem file_in_place {f₀ f : CdbFile} {turns : List Tick} {s₀ s : Looper}
    {outs₀ : List (Option Int)} (n : Nat) (hstart : s₀.count = 0)
    (hloaded : s₀.cdb.globals.LoadedFrom f₀)
    (hturns : ∀ turn ∈ turns, ∀ g, turn.opened = some g → MetadataWhole g.image)
    (hrun : runs looperTurn s₀ turns = some (outs₀, s)) (hwhole : MetadataWhole f.image) :
    ∃ outs s', runs looperTurn s (List.replicate n (inPlace f)) = some (outs, s') ∧
      (∃ g, s.cdb.globals.LoadedFrom g ∧
        (¬ (f.image.len ≠ 0 ∧ g.mtime < f.mtime) →
          cdbNewCalls outs = [] ∧ s'.cdb.globals = s.cdb.globals) ∧
        (f.image.len ≠ 0 ∧ g.mtime < f.mtime → Complete f.image →
          if turns.length % PERIODICITY + n < PERIODICITY then
            cdbNewCalls outs = [] ∧ s'.cdb.globals = s.cdb.globals
          else
            cdbNewCalls outs = [0] ∧ s'.cdb.globals.LoadedFrom f) ∧
        (f.image.len ≠ 0 ∧ g.mtime < f.mtime → ¬ Complete f.image →
          cdbNewCalls outs
              = List.replicate ((turns.length % PERIODICITY + n) / PERIODICITY) (-1) ∧
            s'.cdb.globals = s.cdb.globals)) ∧
      ∀ key after, s'.cdb.globals.get key after = cdbGet s'.cdb.globals.toCdb key after := by
  have hcount : s.count = turns.length % PERIODICITY := by
    have hrun' := looper_count (hstart ▸ PERIODICITY_pos) hrun
    rw [hrun', hstart, Nat.zero_add]
  have hlt : s.count < PERIODICITY := hcount ▸ Nat.mod_lt _ PERIODICITY_pos
  -- there is some whole file in the globals, before the stretch and after it
  have hkeep : ∀ (t : Looper) (turn : Tick) (rc : Option Int) (t' : Looper),
      (∃ g, t.cdb.globals.LoadedFrom g) →
        (∀ g, turn.opened = some g → MetadataWhole g.image) →
        looperTurn t turn = some (rc, t') → ∃ g, t'.cdb.globals.LoadedFrom g :=
    fun _ _ _ _ hg hopened hstep => looperTurn_whole hopened hg hstep
  obtain ⟨g, hg⟩ := runs_invariant hkeep ⟨f₀, hloaded⟩ (guarded_of_forall hturns) hrun
  obtain ⟨outs, s', hrun', hstretch⟩ := inPlace_turns hwhole n s hlt
  have hstill : ∀ turn ∈ List.replicate n (inPlace f), ∀ g, turn.opened = some g →
      MetadataWhole g.image := by
    intro turn hturn g' hg'
    obtain rfl := List.eq_of_mem_replicate hturn
    obtain rfl := Option.some.inj hg'
    exact hwhole
  obtain ⟨g', hg'⟩ := runs_invariant hkeep ⟨g, hg⟩ (guarded_of_forall hstill) hrun'
  have hnewer : Newer f s.cdb ↔ f.image.len ≠ 0 ∧ g.mtime < f.mtime := by
    unfold Newer
    rw [hg.cdbMtime]
  rw [← hcount]
  refine ⟨outs, s', hrun', ⟨g, hg, ?_, ?_, ?_⟩, fun key after => get_toCdb hg' key after⟩
  · intro hold
    exact hstretch.old fun hn => hold (hnewer.mp hn)
  · intro hn hc
    split
    next hlate => exact hstretch.early hlate
    next hlate => exact hstretch.loaded (hnewer.mpr hn) hc (by omega)
  · intro hn hc
    exact hstretch.refused (hnewer.mpr hn) hc

/-- `nastd` loads `oneColumn`, and forty turns later `twoColumns` is put in its place. -/
theorem file_in_place_twoColumns :
    ∃ s₀ outs₀ s, runs looperTurn s₀ (List.replicate 40 (inPlace ⟨oneColumn, 3⟩))
        = some (outs₀, s) ∧
      ∃ outs s', runs looperTurn s (List.replicate 20 (inPlace ⟨twoColumns, 5⟩))
          = some (outs, s') ∧
        cdbNewCalls outs = [0] ∧ s'.cdb.globals.LoadedFrom ⟨twoColumns, 5⟩ := by
  have hwhole₁ : MetadataWhole oneColumn :=
    ⟨metadataShort_of_all (by decide +kernel),
      metadataInside_of_all (by decide +kernel) (by decide +kernel)⟩
  have hwhole₂ : MetadataWhole twoColumns :=
    ⟨metadataShort_of_all (by decide +kernel), metadataInside_twoColumns⟩
  have hcomplete : ∀ img : Image, (findLiteral img "_KEY_").isSome = true ∧
      (findLiteral img "_VALUES_").isSome = true → Complete img := fun img h =>
    ⟨Option.isSome_iff_ne_none.mp h.1, Option.isSome_iff_ne_none.mp h.2⟩
  obtain ⟨rc, cdb, -, hload⟩ :=
    cdbNewSteps_inPlace (f := ⟨oneColumn, 3⟩) cdbStart hwhole₁ (by decide)
  rcases hload with ⟨-, -, hload⟩ | ⟨hnot, -⟩
  · obtain ⟨outs₀, s, hrun, hstretch⟩ := inPlace_turns (f := ⟨oneColumn, 3⟩) hwhole₁ 40
      ⟨0, cdb⟩ PERIODICITY_pos
    have hturns : ∀ turn ∈ List.replicate 40 (inPlace ⟨oneColumn, 3⟩), ∀ g,
        turn.opened = some g → MetadataWhole g.image := by
      intro turn hturn g hg
      obtain rfl := List.eq_of_mem_replicate hturn
      obtain rfl := Option.some.inj hg
      exact hwhole₁
    obtain ⟨outs, s', hrun', ⟨g, hg, -, hnew, -⟩, -⟩ :=
      file_in_place (f := ⟨twoColumns, 5⟩) 20 rfl hload hturns hrun hwhole₂
    have hsame := (hstretch.old hload.not_newer).2
    have hmtime : g.mtime = 3 := by rw [← hg.cdbMtime, hsame, hload.cdbMtime]
    have hres := hnew ⟨by decide, by rw [hmtime]; decide⟩ (hcomplete _ (by decide +kernel))
    rw [if_neg (by decide)] at hres
    exact ⟨⟨0, cdb⟩, outs₀, s, hrun, outs, s', hrun', hres⟩
  · exact absurd (hcomplete _ (by decide +kernel)) hnot

end Nastd.Server
