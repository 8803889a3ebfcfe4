import Nastd.Server.MemdbAlloc

/-!
# A write that fails

`memdb_upd` and `memdb_add` return -1 when memory runs out. `Harmless` is what is wanted
then: all later lookups are answered as if the call had not been made, and every entry has
the kind, the stamp and the values it had.

`memdb_add` builds its node before it links it. But `memdb_upd` changes the entry and deletes
its values before it copies the new ones, so whatever `array_new` and `array_dup` leave
behind is what the key has from then on. `failed_write_iff` is when that does not show.

`reachable_alloc` is that every cache the server can come to, failures included, is among
those the theorem is about.
-/

namespace Nastd.Server

open Nastd.Lib

/-- The entry of a key, as it stands in its node. -/
def entryOf (hashkey : Bytes → Fin HASHSIZE) (s : AllocMemdb) (key : Bytes) : Option Mement :=
  match memdbFind hashkey key s.db with
  | some (_, some p) => (s.db.heap.cell p).map Node.ent
  | _ => none

/-- From `now` on lookups have the same answers in `s'` as in `s`. -/
def SameAnswers (hashkey : Bytes → Fin HASHSIZE) (now : Int) (s s' : AllocMemdb) : Prop :=
  ∀ qs : List Lookup, (∀ q ∈ qs, now ≤ q.now) →
    (runs (memdbGetAlloc hashkey) s' qs).map Prod.fst
      = (runs (memdbGetAlloc hashkey) s qs).map Prod.fst

/-- A call at `now` that returns -1 has changed nothing. After freeing a pointer that was never
set nothing can be said. -/
def Harmless (hashkey : Bytes → Fin HASHSIZE) (now : Int) (s : AllocMemdb) : WriteResult → Prop
  | .done rc s' => rc = -1 → SameAnswers hashkey now s s' ∧
      ∀ key, entryOf hashkey s' key = entryOf hashkey s key
  | .crash => True
  | .wild => False

/-- `memdb_add` does not free a pointer that was never set: the node cannot be allocated, or
its key can, or the pointer happens to be NULL. -/
def AddSafe (fails : Nat → Bool) (junk : Bool) : Prop :=
  fails 0 = true ∨ fails 1 = false ∨ junk = false

/-- What a copy into `ent.vals` that fails leaves there; `none` if it does not fail. -/
def leftBehind (fails : Nat → Bool) (vals : List Bytes) : Option ValsPtr :=
  match arrayNew fails 0 with
  | (.null, _) => some .null
  | (_, k) =>
    match arrayDup fails k vals with
    | (true, _, _) => none
    | (false, ptr, _) => some ptr

/-- `memdb_upd` is refused, or adds safely, or ends at `array_delete`, or its copy does not
fail, or the entry is already what is left behind. -/
def UpdSafe (m : AllocMap) (fails : Nat → Bool) (junk : Bool) (dbFieldcount : Nat) (now : Int)
    (key : Bytes) (vals : List Bytes) : Prop :=
  vals.length ≠ dbFieldcount ∨
    match m key with
    | none => AddSafe fails junk
    | some c => c.vals.deletes = false ∨
        ∀ ptr, leftBehind fails vals = some ptr → c = ⟨.value ptr.strings now, ptr⟩

variable {hashkey : Bytes → Fin HASHSIZE} {s s' : AllocMemdb} {m : AllocMap} {fails : Nat → Bool}
  {junk : Bool} {nullCacheTimeout now : Int} {key : Bytes} {vals : List Bytes}

/-! ## The copy -/

theorem dupLoop_ok :
    ∀ {vals : List Bytes} {k : Nat}, (dupLoop fails k vals).1 = true →
      (dupLoop fails k vals).2.1 = vals := by
  intro vals
  induction vals with
  | nil => intro k _; rfl
  | cons str rest ih =>
    intro k h
    rw [dupLoop] at h ⊢
    unfold stringNew at h ⊢
    by_cases hfirst : fails k = true
    · rw [if_pos hfirst] at h
      exact absurd h (by simp)
    rw [if_neg hfirst] at h ⊢
    by_cases hsecond : fails (k + 1) = true
    · rw [if_pos hsecond] at h
      exact absurd h (by simp)
    rw [if_neg hsecond] at h ⊢
    exact congrArg (str :: ·) (ih h)

/-- A copy that succeeds is whole. -/
theorem arrayDup_ok (fails : Nat → Bool) (k : Nat) (vals : List Bytes)
    (h : (arrayDup fails k vals).1 = true) : (arrayDup fails k vals).2.1 = .items vals := by
  unfold arrayDup at h ⊢
  by_cases hitems : fails k = true
  · rw [if_pos hitems] at h
    exact absurd h (by simp)
  · rw [if_neg hitems] at h ⊢
    exact congrArg ValsPtr.items (dupLoop_ok h)

/-! ## How the calls end -/

/-- `memdb_add`: it fails and has changed nothing, or adds, or does not return. -/
inductive AddEnds (hashkey : Bytes → Fin HASHSIZE) (s : AllocMemdb) (m : AllocMap)
    (fails : Nat → Bool) (junk : Bool) (key : Bytes) (c : AllocEntry) : WriteResult → Prop where
  | failed : AddSafe fails junk → AddEnds hashkey s m fails junk key c (.done (-1) s)
  | added {s' : AllocMemdb} : AddSafe fails junk → AllocRep hashkey s' (m.add key c) →
      AddEnds hashkey s m fails junk key c (.done 0 s')
  | crash : AddSafe fails junk → AddEnds hashkey s m fails junk key c .crash
  | wild : ¬ AddSafe fails junk → AddEnds hashkey s m fails junk key c .wild

theorem memdbAddAlloc_ends (h : AllocRep hashkey s m) :
    AddEnds hashkey s m fails junk key ⟨CacheMap.newEntry nullCacheTimeout now vals, .items vals⟩
      (memdbAddAlloc hashkey fails junk nullCacheTimeout now key vals s) := by
  unfold memdbAddAlloc
  by_cases hnode : fails 0 = true
  · rw [if_pos hnode]
    exact .failed (Or.inl hnode)
  rw [if_neg hnode]
  by_cases hkey : fails 1 = true
  · rw [if_pos hkey]
    by_cases hjunk : junk = true
    · rw [if_pos hjunk]
      refine .wild fun hsafe => ?_
      rcases hsafe with h0 | h1 | hj
      · exact hnode h0
      · rw [hkey] at h1
        exact absurd h1 (by simp)
      · rw [hjunk] at hj
        exact absurd hj (by simp)
    · rw [if_neg hjunk]
      exact .failed (Or.inr (Or.inr (by simpa using hjunk)))
  have hsafe : AddSafe fails junk := Or.inr (Or.inl (by simpa using hkey))
  rw [if_neg hkey]
  unfold arrayNew
  by_cases harr : fails 2 = true
  · rw [if_pos harr]
    exact .failed hsafe
  rw [if_neg harr]
  dsimp only
  have hok := arrayDup_ok fails (2 + 1) vals
  generalize arrayDup fails (2 + 1) vals = r at hok
  obtain ⟨ok, ptr, k⟩ := r
  cases ok with
  | false =>
    dsimp only
    split
    · exact .failed hsafe
    · exact .crash hsafe
  | true =>
    obtain rfl : ptr = .items vals := hok rfl
    dsimp only
    split
    · exact .failed hsafe
    · split
      · exact .crash hsafe
      · obtain ⟨db', hrun, hrep⟩ := addLocked_alloc h nullCacheTimeout now key vals
        rw [hrun]
        exact .added hsafe hrep

/-- `memdb_upd` on an entry that is there. -/
theorem memdbUpdAlloc_present {view : Bytes → Option (Nat × Entry)} {dbFieldcount p : Nat}
    {e : Entry} (hr : Rep hashkey s.db view) (hv : view key = some (p, e))
    (hlen : vals.length = dbFieldcount) :
    memdbUpdAlloc hashkey fails junk dbFieldcount nullCacheTimeout now key vals s =
      if (s.vals p).deletes = false then .crash
      else
        match leftBehind fails vals with
        | some ptr => .done (-1)
            { db := memdbUpdWrite p now ptr.strings s.db, vals := Function.update s.vals p ptr }
        | none => .done 0
            { db := memdbUpdWrite p now vals s.db
              vals := Function.update s.vals p (.items vals) } := by
  unfold memdbUpdAlloc
  rw [if_neg (not_not_intro hlen), memdbUpdFind_eq hr, hv]
  dsimp only [Option.map_some]
  split
  · rfl
  unfold leftBehind arrayNew
  by_cases harr : fails 0 = true
  · rw [if_pos harr]
    rfl
  rw [if_neg harr]
  dsimp only
  have hok := arrayDup_ok fails (0 + 1) vals
  generalize arrayDup fails (0 + 1) vals = r at hok
  obtain ⟨ok, ptr, k⟩ := r
  cases ok with
  | false => rfl
  | true =>
    obtain rfl : ptr = .items vals := hok rfl
    rfl

/-! ## What is the same -/

theorem sameAnswers_of_rep (h : AllocRep hashkey s m) (h' : AllocRep hashkey s' m) (now : Int) :
    SameAnswers hashkey now s s' := fun qs _ => (runs_look h' qs).trans (runs_look h qs).symm

/-- The entry of a key is that of the map. -/
theorem entryOf_eq (h : AllocRep hashkey s m) (key : Bytes) :
    entryOf hashkey s key = (m key).map fun c => c.entry.toMement key := by
  obtain ⟨view, hr, hm⟩ := h.rep
  unfold entryOf
  rw [hm key]
  cases hv : view key with
  | none =>
    obtain ⟨chains, hwf, -, hl⟩ := hr.no_slot hv
    rw [memdbFind_none hwf hl]
    rfl
  | some ae =>
    obtain ⟨a, e⟩ := ae
    obtain ⟨chains, pre, post, hwf, -, hl, hpre⟩ := hr.slot hv
    obtain ⟨nx, hn⟩ := hr.cell hv
    rw [memdbFind_some hwf hl rfl hpre]
    dsimp only
    rw [hn]
    rfl

/-- A cache that stands for the same map is as it was. -/
theorem unchanged_of_rep (h : AllocRep hashkey s m) (h' : AllocRep hashkey s' m) (now : Int) :
    SameAnswers hashkey now s s' ∧ ∀ key, entryOf hashkey s' key = entryOf hashkey s key :=
  ⟨sameAnswers_of_rep h h' now, fun key => by rw [entryOf_eq h, entryOf_eq h']⟩

/-! ## What is not -/

/-- If lookups have the same answers, those of one key have. -/
theorem SameAnswers.answer {m' : AllocMap} (hs : SameAnswers hashkey now s s')
    (h : AllocRep hashkey s m) (h' : AllocRep hashkey s' m') {c c' : AllocEntry}
    (hc : m key = some c) (hc' : m' key = some c') {t : Int} (ht : now ≤ t) (cdbMtime : Int) :
    c'.answer t cdbMtime = c.answer t cdbMtime := by
  have hone : ∀ {m : AllocMap} {c : AllocEntry}, m key = some c →
      (runs AllocMap.look m [⟨key, t, cdbMtime⟩]).map Prod.fst
        = (c.answer t cdbMtime).map fun r => [r] := by
    intro m c hc
    rw [runs, AllocMap.look, hc]
    dsimp only
    cases c.answer t cdbMtime with
    | none => rfl
    | some r => rfl
  have hq := hs [⟨key, t, cdbMtime⟩] fun q hq => by
    rw [List.mem_singleton.mp hq]
    exact ht
  rw [runs_look h', runs_look h, hone hc, hone hc'] at hq
  exact Option.map_injective (fun _ _ heq => List.singleton_inj.mp heq) hq

section Answers

variable {strs : List Bytes} {stamp expire t cdbMtime : Int} {ptr ptr' : ValsPtr}

/-- A record is served until `cdb_mtime` is later than its stamp. -/
theorem answer_live (h : cdbMtime ≤ stamp) :
    AllocEntry.answer t cdbMtime ⟨.value strs stamp, ptr⟩
      = ptr.read.map fun strs => (0, strs) := by
  apply if_neg
  simpa [Entry.gone] using h

theorem answer_gone (h : stamp < cdbMtime) :
    AllocEntry.answer t cdbMtime ⟨.value strs stamp, ptr⟩
      = if ptr.deletes then some (-1, []) else none := by
  apply if_pos
  simpa [Entry.gone] using h

/-- An array that is read does not answer as a record that is gone. -/
theorem read_ne_gone (ptr : ValsPtr) :
    ptr.read.map (fun strs => ((0 : Int), strs)) ≠ some (-1, []) := by
  cases ptr with
  | null => simp [ValsPtr.read]
  | noItems => simp [ValsPtr.read]
  | items strs => simp [ValsPtr.read]

/-- An array that can be deleted is known by what is read. -/
theorem eq_of_read (h : ptr.deletes = true) (h' : ptr'.deletes = true)
    (hread : ptr.read = ptr'.read) : ptr = ptr' := by
  cases ptr with
  | noItems => exact absurd h (by simp [ValsPtr.deletes])
  | null =>
    cases ptr' with
    | null => rfl
    | noItems => exact absurd h' (by simp [ValsPtr.deletes])
    | items strs => exact absurd hread (by simp [ValsPtr.read])
  | items strs =>
    cases ptr' with
    | null => exact absurd hread (by simp [ValsPtr.read])
    | noItems => exact absurd h' (by simp [ValsPtr.deletes])
    | items strs' => exact congrArg ValsPtr.items (Option.some.inj hread)

/-- A non-result does not look at `cdb_mtime`, and a record does. -/
theorem value_answers_ne_null :
    ¬ ∀ t cdbMtime, now ≤ t → AllocEntry.answer t cdbMtime ⟨.value strs now, ptr⟩
      = AllocEntry.answer t cdbMtime ⟨.null expire stamp, .items []⟩ := by
  intro hall
  have hnow := hall now now (Int.le_refl _)
  have hlater := hall now (now + 1) (Int.le_refl _)
  have hsame : AllocEntry.answer now now ⟨.null expire stamp, .items []⟩
      = AllocEntry.answer now (now + 1) ⟨.null expire stamp, .items []⟩ := rfl
  have hsome : AllocEntry.answer now (now + 1) ⟨.null expire stamp, .items []⟩ ≠ none := by
    unfold AllocEntry.answer
    split
    · simp [ValsPtr.deletes]
    · simp [ValsPtr.read]
  rw [hsame, ← hlater, answer_live (Int.le_refl _), answer_gone (by omega)] at hnow
  rw [← hlater, answer_gone (by omega)] at hsome
  by_cases hdel : ptr.deletes = true
  · rw [if_pos hdel] at hnow
    exact read_ne_gone ptr hnow
  · rw [if_neg hdel] at hsome
    exact absurd rfl hsome

/-- The answers of two records whose arrays can be deleted tell their stamps and arrays. -/
theorem value_answers_inj {strs' : List Bytes} (hdel' : ptr'.deletes = true)
    (hall : ∀ t cdbMtime, now ≤ t → AllocEntry.answer t cdbMtime ⟨.value strs now, ptr⟩
      = AllocEntry.answer t cdbMtime ⟨.value strs' stamp, ptr'⟩) :
    stamp = now ∧ ptr' = ptr := by
  have hdel : ptr.deletes = true := by
    have hlater := hall now (max stamp now + 1) (Int.le_refl _)
    rw [answer_gone (by omega), answer_gone (by omega), if_pos hdel'] at hlater
    by_contra hne
    rw [if_neg hne] at hlater
    exact absurd hlater (by simp)
  rcases Int.lt_trichotomy stamp now with hlt | heq | hgt
  · have hnow := hall now now (Int.le_refl _)
    rw [answer_live (Int.le_refl _), answer_gone hlt, if_pos hdel'] at hnow
    exact absurd hnow (read_ne_gone ptr)
  · subst heq
    have hnow := hall stamp stamp (Int.le_refl _)
    rw [answer_live (Int.le_refl _), answer_live (Int.le_refl _)] at hnow
    have hread : ptr.read = ptr'.read :=
      Option.map_injective (fun _ _ h => (Prod.mk.inj h).2) hnow
    exact ⟨rfl, (eq_of_read hdel hdel' hread).symm⟩
  · have hthen := hall now stamp (Int.le_refl _)
    rw [answer_gone hgt, answer_live (Int.le_refl _), if_pos hdel] at hthen
    exact absurd hthen.symm (read_ne_gone ptr')

end Answers

/-- The answers tell an entry from what a failed copy leaves. -/
theorem eq_of_answers {c : AllocEntry} {ptr : ValsPtr} (hstored : c.Stored)
    (hdel : c.vals.deletes = true)
    (hall : ∀ t cdbMtime, now ≤ t →
      AllocEntry.answer t cdbMtime ⟨.value ptr.strings now, ptr⟩ = c.answer t cdbMtime) :
    c = ⟨.value ptr.strings now, ptr⟩ := by
  obtain ⟨e, held⟩ := c
  cases e with
  | null expire stamp =>
    obtain rfl : held = .items [] := hstored
    exact absurd hall value_answers_ne_null
  | value strs stamp =>
    obtain rfl : strs = held.strings := hstored
    obtain ⟨rfl, rfl⟩ := value_answers_inj hdel hall
    rfl

/-! ## When a failed write is harmless -/

theorem memdbAddAlloc_harmless (h : AllocRep hashkey s m) :
    Harmless hashkey now s (memdbAddAlloc hashkey fails junk nullCacheTimeout now key vals s) ↔
      AddSafe fails junk := by
  have hends : AddEnds hashkey s m fails junk key
      ⟨CacheMap.newEntry nullCacheTimeout now vals, .items vals⟩
      (memdbAddAlloc hashkey fails junk nullCacheTimeout now key vals s) := memdbAddAlloc_ends h
  generalize memdbAddAlloc hashkey fails junk nullCacheTimeout now key vals s = r at hends
  cases hends with
  | failed hsafe => exact iff_of_true (fun _ => unchanged_of_rep h h now) hsafe
  | added hsafe _ => exact iff_of_true (fun hrc => absurd hrc (by decide)) hsafe
  | crash hsafe => exact iff_of_true trivial hsafe
  | wild hunsafe => exact iff_of_false id hunsafe

theorem memdbUpdAlloc_harmless {dbFieldcount : Nat} (h : AllocRep hashkey s m) :
    Harmless hashkey now s
        (memdbUpdAlloc hashkey fails junk dbFieldcount nullCacheTimeout now key vals s) ↔
      UpdSafe m fails junk dbFieldcount now key vals := by
  unfold UpdSafe
  by_cases hlen : vals.length ≠ dbFieldcount
  · have hrefused : memdbUpdAlloc hashkey fails junk dbFieldcount nullCacheTimeout now key vals s
        = .done (-1) s := if_pos hlen
    rw [hrefused]
    exact iff_of_true (fun _ => unchanged_of_rep h h now) (Or.inl hlen)
  rw [or_iff_right hlen]
  obtain ⟨view, hr, hm⟩ := h.rep
  have hkey := hm key
  cases hv : view key with
  | none =>
    rw [hv] at hkey
    have hadd : memdbUpdAlloc hashkey fails junk dbFieldcount nullCacheTimeout now key vals s
        = memdbAddAlloc hashkey fails junk nullCacheTimeout now key vals s := by
      unfold memdbUpdAlloc
      rw [if_neg hlen, memdbUpdFind_eq hr, hv]
      rfl
    rw [hadd, hkey]
    exact memdbAddAlloc_harmless h
  | some pe =>
    obtain ⟨p, e⟩ := pe
    rw [hv] at hkey
    rw [memdbUpdAlloc_present hr hv (not_not.mp hlen), hkey]
    show _ ↔ (s.vals p).deletes = false ∨ _
    by_cases hdel : (s.vals p).deletes = false
    · rw [if_pos hdel]
      exact iff_of_true trivial (Or.inl hdel)
    rw [if_neg hdel, or_iff_right hdel]
    cases hleft : leftBehind fails vals with
    | none =>
      exact iff_of_true (fun hrc => absurd hrc (by decide)) fun ptr hptr => absurd hptr (by simp)
    | some ptr =>
      have hwritten := updWrite_alloc h hr hm hv now ptr
      constructor
      · intro hharm ptr' hptr
        obtain rfl := Option.some.inj hptr
        obtain ⟨hsame, -⟩ := hharm rfl
        refine eq_of_answers (h.stored key _ hkey) (by simpa using hdel) fun t cdbMtime ht => ?_
        exact hsame.answer h hwritten hkey (Function.update_self ..) ht cdbMtime
      · intro hall _
        have hsame : Function.update m key (some ⟨.value ptr.strings now, ptr⟩) = m := by
          rw [← hall ptr rfl]
          exact Function.update_eq_self_iff.mpr hkey.symm
        rw [hsame] at hwritten
        exact unchanged_of_rep h hwritten now

/-- **When a failed write changes nothing.** Whatever the cache holds and whichever
allocations fail: `memdb_add` always, unless it frees the pointer that was never set.
`memdb_upd` too if it is refused or the key is new; but on an entry only if the copy does
not fail, or its array is broken already, or it is what the failed copy leaves. -/
theorem failed_write_iff (hashkey : Bytes → Fin HASHSIZE) (s : AllocMemdb) (m : AllocMap)
    (fails : Nat → Bool) (junk : Bool) (dbFieldcount : Nat) (nullCacheTimeout now : Int)
    (key : Bytes) (vals : List Bytes) (h : AllocRep hashkey s m) :
    (Harmless hashkey now s (memdbAddAlloc hashkey fails junk nullCacheTimeout now key vals s) ↔
        AddSafe fails junk) ∧
      (Harmless hashkey now s
          (memdbUpdAlloc hashkey fails junk dbFieldcount nullCacheTimeout now key vals s) ↔
        UpdSafe m fails junk dbFieldcount now key vals) :=
  ⟨memdbAddAlloc_harmless h, memdbUpdAlloc_harmless h⟩

/-! ## The caches there are -/

/-- A call, with what it reads and what fails in it. -/
structure AllocCall where
  op : MemOp
  fails : Nat → Bool
  junk : Bool
  now : Int
  cdbMtime : Int
  dbFieldcount : Nat

/-- The call is made; `none` if the server does not survive it. -/
def allocStep (hashkey : Bytes → Fin HASHSIZE) (nullCacheTimeout : Int) (s : AllocMemdb)
    (c : AllocCall) : Option (Int × AllocMemdb) :=
  let written : WriteResult → Option (Int × AllocMemdb) := fun r =>
    match r with
    | .done rc s' => some (rc, s')
    | _ => none
  match c.op with
  | .add key vals =>
    written (memdbAddAlloc hashkey c.fails c.junk nullCacheTimeout c.now key vals s)
  | .upd key vals =>
    written (memdbUpdAlloc hashkey c.fails c.junk c.dbFieldcount nullCacheTimeout c.now key vals s)
  | .get key => (memdbGetAlloc hashkey s ⟨key, c.now, c.cdbMtime⟩).map fun r => (r.1.1, r.2)

theorem memdbAddAlloc_rep {rc : Int} (h : AllocRep hashkey s m)
    (hrun : memdbAddAlloc hashkey fails junk nullCacheTimeout now key vals s = .done rc s') :
    ∃ m', AllocRep hashkey s' m' := by
  have hends : AddEnds hashkey s m fails junk key
      ⟨CacheMap.newEntry nullCacheTimeout now vals, .items vals⟩
      (memdbAddAlloc hashkey fails junk nullCacheTimeout now key vals s) := memdbAddAlloc_ends h
  rw [hrun] at hends
  cases hends with
  | failed _ => exact ⟨m, h⟩
  | added _ hrep => exact ⟨_, hrep⟩

theorem memdbUpdAlloc_rep {rc : Int} {dbFieldcount : Nat} (h : AllocRep hashkey s m)
    (hrun : memdbUpdAlloc hashkey fails junk dbFieldcount nullCacheTimeout now key vals s
      = .done rc s') :
    ∃ m', AllocRep hashkey s' m' := by
  obtain ⟨view, hr, hm⟩ := h.rep
  by_cases hlen : vals.length = dbFieldcount
  · cases hv : view key with
    | none =>
      unfold memdbUpdAlloc at hrun
      rw [if_neg (not_not_intro hlen), memdbUpdFind_eq hr, hv] at hrun
      exact memdbAddAlloc_rep h hrun
    | some pe =>
      obtain ⟨p, e⟩ := pe
      rw [memdbUpdAlloc_present hr hv hlen] at hrun
      split at hrun
      · exact absurd hrun (by simp)
      · cases hleft : leftBehind fails vals with
        | none =>
          rw [hleft] at hrun
          obtain ⟨-, rfl⟩ := WriteResult.done.inj hrun
          exact ⟨_, updWrite_alloc h hr hm hv now (.items vals)⟩
        | some ptr =>
          rw [hleft] at hrun
          obtain ⟨-, rfl⟩ := WriteResult.done.inj hrun
          exact ⟨_, updWrite_alloc h hr hm hv now ptr⟩
  · unfold memdbUpdAlloc at hrun
    rw [if_pos hlen] at hrun
    obtain ⟨-, rfl⟩ := WriteResult.done.inj hrun
    exact ⟨m, h⟩

theorem allocStep_rep {c : AllocCall} {rc : Int} (h : ∃ m, AllocRep hashkey s m)
    (hstep : allocStep hashkey nullCacheTimeout s c = some (rc, s')) :
    ∃ m, AllocRep hashkey s' m := by
  obtain ⟨m, h⟩ := h
  unfold allocStep at hstep
  cases hop : c.op with
  | add key vals =>
    rw [hop] at hstep
    dsimp only at hstep
    split at hstep
    · next rc' t hrun =>
      obtain ⟨-, rfl⟩ := Prod.mk.inj (Option.some.inj hstep)
      exact memdbAddAlloc_rep h hrun
    · exact absurd hstep (by simp)
  | upd key vals =>
    rw [hop] at hstep
    dsimp only at hstep
    split at hstep
    · next rc' t hrun =>
      obtain ⟨-, rfl⟩ := Prod.mk.inj (Option.some.inj hstep)
      exact memdbUpdAlloc_rep h hrun
    · exact absurd hstep (by simp)
  | get key =>
    rw [hop] at hstep
    obtain ⟨r, hr, heq⟩ := Option.map_eq_some_iff.mp hstep
    obtain ⟨-, rfl⟩ := Prod.mk.inj heq
    rcases look_refines h ⟨key, c.now, c.cdbMtime⟩ with ⟨hnone, -⟩ | ⟨o, t, m', hget, -, hrep⟩
    · rw [hnone] at hr
      exact absurd hr (by simp)
    · rw [hget] at hr
      obtain rfl := Option.some.inj hr
      exact ⟨m', hrep⟩

/-- From `memdb_new` on, whatever is called and whatever fails, the cache stands for a map as
long as the server lives. -/
theorem reachable_alloc {calls : List AllocCall} {rcs : List Int}
    (h : runs (allocStep hashkey nullCacheTimeout) ⟨memdbNew, fun _ => .null⟩ calls
      = some (rcs, s)) :
    ∃ m, AllocRep hashkey s m :=
  runs_invariant (I := fun s => ∃ m, AllocRep hashkey s m)
    (fun _ _ _ _ hI _ hstep => allocStep_rep hI hstep) ⟨_, memdbNew_alloc⟩ guarded_true h

/-! ## Without failures -/

theorem dupLoop_quiet :
    ∀ (k : Nat) (vals : List Bytes), (dupLoop (fun _ => false) k vals).1 = true := by
  intro k vals
  induction vals generalizing k with
  | nil => rfl
  | cons str rest ih => exact ih (k + 2)

theorem leftBehind_quiet (vals : List Bytes) : leftBehind (fun _ => false) vals = none := by
  have hdup : (arrayDup (fun _ => false) 1 vals).1 = true := dupLoop_quiet 2 vals
  unfold leftBehind arrayNew
  rw [if_neg (by simp)]
  dsimp only
  generalize arrayDup (fun _ => false) (0 + 1) vals = r at hdup
  obtain ⟨ok, ptr, k⟩ := r
  obtain rfl : ok = true := hdup
  rfl

/-- With no failures `memdb_add` is that of `Server/Memdb.lean`. -/
theorem memdbAddAlloc_quiet (h : AllocRep hashkey s m) :
    ∃ s', memdbAddAlloc hashkey (fun _ => false) junk nullCacheTimeout now key vals s = .done 0 s' ∧
      memdbAdd hashkey nullCacheTimeout now key vals s.db = some (0, s'.db) := by
  obtain ⟨db', hrun, -⟩ := addLocked_alloc h nullCacheTimeout now key vals
  have hdup : (arrayDup (fun _ => false) 3 vals).1 = true := dupLoop_quiet 4 vals
  have hok := arrayDup_ok (fun _ => false) 3 vals hdup
  refine ⟨⟨db', Function.update s.vals s.db.heap.brk (.items vals)⟩, ?_, hrun⟩
  unfold memdbAddAlloc arrayNew
  rw [if_neg (by simp), if_neg (by simp), if_neg (by simp)]
  dsimp only
  generalize arrayDup (fun _ => false) (2 + 1) vals = r at hdup hok
  obtain ⟨ok, ptr, k⟩ := r
  obtain rfl : ok = true := hdup
  obtain rfl : ptr = .items vals := hok
  dsimp only
  rw [if_neg (by simp), if_neg (by simp), hrun]

/-- With no failures `memdb_upd` is that of `Server/Memdb.lean`, if the array it deletes is
whole. -/
theorem memdbUpdAlloc_quiet {dbFieldcount : Nat} (h : AllocRep hashkey s m)
    (hwhole : ∀ c, m key = some c → c.vals.deletes = true) :
    ∃ rc s',
      memdbUpdAlloc hashkey (fun _ => false) junk dbFieldcount nullCacheTimeout now key vals s =
        .done rc s' ∧
      memdbUpd hashkey dbFieldcount nullCacheTimeout now key vals s.db = some (rc, s'.db) := by
  by_cases hlen : vals.length = dbFieldcount
  · obtain ⟨view, hr, hm⟩ := h.rep
    have hkey := hm key
    unfold memdbUpd
    rw [if_neg (not_not_intro hlen), memdbUpdFind_eq hr]
    cases hv : view key with
    | none =>
      obtain ⟨s', hadd, hadd'⟩ : ∃ s',
          memdbAddAlloc hashkey (fun _ => false) junk nullCacheTimeout now key vals s = .done 0 s' ∧
            memdbAdd hashkey nullCacheTimeout now key vals s.db = some (0, s'.db) :=
        memdbAddAlloc_quiet h
      refine ⟨0, s', ?_, hadd'⟩
      unfold memdbUpdAlloc
      rw [if_neg (not_not_intro hlen), memdbUpdFind_eq hr, hv]
      exact hadd
    | some pe =>
      obtain ⟨p, e⟩ := pe
      rw [hv] at hkey
      have hdel : (s.vals p).deletes = true := hwhole _ hkey
      rw [memdbUpdAlloc_present hr hv hlen, leftBehind_quiet, if_neg (by simp [hdel])]
      exact ⟨0, _, rfl, rfl⟩
  · refine ⟨-1, s, if_pos hlen, ?_⟩
    unfold memdbUpd
    rw [if_pos hlen]

/-! ## Two calls that fail -/

/-- A record is there, and an update of another key fails for want of an array. -/
theorem failed_write_iff_new :
    ∃ db, memdbAddLocked (fun _ => 0) (memdbAddEnt 60 0 [97] [[1], [2]]) memdbNew = some (0, db) ∧
      Harmless (fun _ => 0) 5 ⟨db, Function.update (fun _ => .null) 0 (.items [[1], [2]])⟩
        (memdbUpdAlloc (fun _ => 0) (fun k => k == 2) true 2 60 5 [98] [[3], [4]]
          ⟨db, Function.update (fun _ => .null) 0 (.items [[1], [2]])⟩) := by
  obtain ⟨db, hrun, hrep⟩ := addLocked_alloc (@memdbNew_alloc fun _ => 0) 60 0 [97] [[1], [2]]
  refine ⟨db, hrun, (failed_write_iff (fun _ => 0) _ _ (fun k => k == 2) true 2 60 5 [98]
    [[3], [4]] hrep).2.mpr (Or.inr ?_)⟩
  have hother : (AllocMap.add (fun _ => none) [97]
      ⟨CacheMap.newEntry 60 0 [[1], [2]], .items [[1], [2]]⟩) [98] = none := by
    unfold AllocMap.add
    exact Function.update_of_ne (by decide) ..
  rw [hother]
  exact Or.inr (Or.inl rfl)

/-- A record of two values, stored at time 0. -/
def twoValues : AllocEntry := ⟨.value [[1], [2]] 0, .items [[1], [2]]⟩

/-- The second string of its update cannot be allocated: the key is left with one value. -/
theorem failed_update_truncates :
    ¬ ∀ (hashkey : Bytes → Fin HASHSIZE) (s : AllocMemdb) (m : AllocMap) (fails : Nat → Bool)
      (junk : Bool) (dbFieldcount : Nat) (nullCacheTimeout now : Int) (key : Bytes)
      (vals : List Bytes), AllocRep hashkey s m →
      Harmless hashkey now s
        (memdbUpdAlloc hashkey fails junk dbFieldcount nullCacheTimeout now key vals s) := by
  intro h
  have hnew : AllocRep (fun _ => 0) ⟨memdbNew, fun _ => .null⟩ fun _ => none := memdbNew_alloc
  obtain ⟨db, -, hrep⟩ := addLocked_alloc hnew 60 0 [97] [[1], [2]]
  have hsafe := (memdbUpdAlloc_harmless hrep).mp
    (h _ _ _ (fun k => k == 4) false 2 60 5 [97] [[3], [4]] hrep)
  have hkey : (AllocMap.add (fun _ => none) [97]
      ⟨CacheMap.newEntry 60 0 [[1], [2]], .items [[1], [2]]⟩) [97] = some twoValues := by
    unfold AllocMap.add
    exact Function.update_self ..
  unfold UpdSafe at hsafe
  rw [hkey] at hsafe
  rcases hsafe with hlen | hdel | hleft
  · exact hlen rfl
  · exact absurd hdel (by decide)
  · exact absurd (hleft (.items [[3]]) (by decide)) (by decide)

end Nastd.Server
