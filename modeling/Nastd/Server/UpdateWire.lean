import Nastd.Client.Api
import Nastd.Server.Framing

/-!
# An update from client to cache

`nast_upd` joins key and values with separators, `do_update` takes the key off and
`build_array` splits the rest again. The splitter ends an item at a separator only when
the item is not empty; a separator right behind another one, or at the very start,
becomes the first byte of the next item, and one at the end is dropped.

So the list that reaches `memdb_upd` never has an empty value
(`processLoop_updated`), and it is the client's list exactly if that has none
(`updateSurvives_iff`).
-/

namespace Nastd.Server

open Nastd.Client

/-! ## `build_array` -/

/-- No item of the loop is empty. -/
theorem buildLoop_ne_nil : ∀ {l cur : Bytes}, ∀ v ∈ buildLoop cur l, v ≠ [] := by
  intro l
  induction l with
  | nil =>
    intro cur v hv
    rw [buildLoop] at hv
    split at hv
    · next hpos =>
      obtain rfl := List.mem_singleton.mp hv
      exact List.ne_nil_of_length_pos hpos
    · exact absurd hv (by simp)
  | cons b rest ih =>
    intro cur v hv
    rw [buildLoop] at hv
    split at hv
    · next hsep =>
      rcases List.mem_cons.mp hv with rfl | hv
      · exact List.ne_nil_of_length_pos hsep.2
      · exact ih v hv
    · exact ih v hv

/-- Bytes that are no separators join the current item. -/
theorem buildLoop_append {v : Bytes} (hv : NASTSEP ∉ v) :
    ∀ {cur rest : Bytes}, buildLoop cur (v ++ rest) = buildLoop (cur ++ v) rest := by
  induction v with
  | nil => intro cur rest; rw [List.nil_append, List.append_nil]
  | cons b v ih =>
    intro cur rest
    obtain ⟨hb, hv'⟩ := not_or.mp (fun h => hv (List.mem_cons.mpr h))
    rw [List.cons_append, buildLoop, if_neg (fun h => hb h.1.symm), ih hv', List.append_assoc,
      List.singleton_append]

/-- A separator ends an item that is not empty. -/
theorem buildLoop_sep {cur rest : Bytes} (hcur : cur ≠ []) :
    buildLoop cur (NASTSEP :: rest) = cur :: buildLoop [] rest := by
  rw [buildLoop, if_pos ⟨rfl, List.length_pos_of_ne_nil hcur⟩]

/-- Splitting what was joined gives the values back, if none is empty. -/
theorem buildArray_join :
    ∀ {vals : List Bytes}, (∀ v ∈ vals, NASTSEP ∉ v) → (∀ v ∈ vals, v ≠ []) →
      buildArray ([NASTSEP].intercalate vals) = vals := by
  intro vals
  induction vals with
  | nil => intro _ _; rfl
  | cons v rest ih =>
    intro hsep hne
    have hv := hsep v (List.mem_cons_self ..)
    have hv0 := hne v (List.mem_cons_self ..)
    cases rest with
    | nil =>
      have hone : [NASTSEP].intercalate [v] = v ++ [] := by
        rw [List.intercalate_singleton, List.append_nil]
      rw [buildArray, hone, buildLoop_append hv, List.nil_append, buildLoop,
        if_pos (List.length_pos_of_ne_nil hv0)]
    | cons w rest =>
      have hcons : [NASTSEP].intercalate (v :: w :: rest)
          = v ++ NASTSEP :: [NASTSEP].intercalate (w :: rest) := by
        rw [List.intercalate_cons_cons, List.append_assoc, List.singleton_append]
      have hrest := ih (fun x hx => hsep x (List.mem_cons_of_mem _ hx))
        fun x hx => hne x (List.mem_cons_of_mem _ hx)
      rw [buildArray, hcons, buildLoop_append hv, List.nil_append, buildLoop_sep hv0]
      exact congrArg (v :: ·) hrest

/-! ## What reaches `memdb_upd` -/

/-- The list a command hands to `memdb_upd` has no empty value. -/
theorem handleCmd_updated {sock : Nat} {reqid : UInt16} {cmd : Byte} {args : Bytes}
    {after : Nat → Byte} {opts : NastOptions} {srv : Shared} :
    ∀ u ∈ (handleCmd sock reqid cmd args after opts srv).1.updated, ∀ v ∈ u.2, v ≠ [] := by
  have hnone : ∀ {out : Outcome}, out.updated = [] → ∀ u ∈ out.updated, ∀ v ∈ u.2, v ≠ [] := by
    intro out hout u hu
    rw [hout] at hu
    exact absurd hu (by simp)
  unfold handleCmd
  split
  · exact hnone rfl
  split
  · exact hnone (doOptSet_updated ..)
  split
  · exact hnone (sendResponse_updated ..)
  split
  · exact hnone (doGet_ends reqid sock opts args after srv).updated
  split
  · exact hnone rfl
  split
  · exact hnone rfl
  split
  · -- an update: its list comes from `build_array`
    intro u hu v hv
    have hu' : u ∈ (doUpdate reqid args srv).1.updated := hu
    rw [doUpdate_updated] at hu'
    split at hu'
    · exact absurd hu' (by simp)
    · obtain rfl := List.mem_singleton.mp hu'
      exact buildLoop_ne_nil v hv
  split
  · exact hnone (sendResponse_updated ..)
  · exact hnone rfl

/-- So has every list in a whole buffer, well framed or not. -/
theorem processLoop_updated {env : Nat → Shared → Shared} {mem : Int → Byte} {sock : Nat}
    {bufflen : Int} :
    ∀ {fuel i : Nat} {p : Int} {opts opts' : NastOptions} {srv srv' : Shared} {out : Outcome},
      processLoop env mem sock bufflen fuel p i opts srv = some (out, opts', srv') →
      ∀ u ∈ out.updated, ∀ v ∈ u.2, v ≠ [] := by
  intro fuel
  induction fuel with
  | zero =>
    intro i p opts opts' srv srv' out h
    rw [processLoop] at h
    split at h
    · exact absurd h (by simp)
    · obtain ⟨rfl, -⟩ := Prod.mk.inj (Option.some.inj h)
      intro u hu
      exact absurd hu (by simp [Outcome.idle])
  | succ fuel ih =>
    intro i p opts opts' srv srv' out h
    rw [processLoop] at h
    split at h
    · dsimp only at h
      split at h
      · obtain ⟨rfl, -⟩ := Prod.mk.inj (Option.some.inj h)
        intro u hu
        exact absurd hu (by simp [Outcome.idle])
      · split at h
        · exact absurd h (by simp)
        · split at h
          · obtain ⟨rfl, -⟩ := Prod.mk.inj (Option.some.inj h)
            exact handleCmd_updated
          · obtain ⟨r, hr, heq⟩ := Option.map_eq_some_iff.mp h
            obtain ⟨rfl, hrest⟩ := Prod.mk.inj heq
            intro u hu
            rcases List.mem_append.mp hu with hu | hu
            · exact handleCmd_updated u hu
            · exact ih hr u hu
    · obtain ⟨rfl, -⟩ := Prod.mk.inj (Option.some.inj h)
      intro u hu
      exact absurd hu (by simp [Outcome.idle])

/-- The command in a whole update frame. -/
def updCmd (tid : UInt16) (key : Bytes) (vals : List Bytes) : Cmd :=
  ⟨tid, NASTUPD, key ++ NASTSEP :: [NASTSEP].intercalate vals⟩

theorem updCmd_size (tid : UInt16) (key : Bytes) (vals : List Bytes) :
    (updCmd tid key vals).size = updSize key vals := by
  unfold updCmd Cmd.size updSize
  rw [List.length_append, List.length_cons]
  omega

/-- The server takes the key off in front of the first separator. -/
theorem doUpdate_join {tid : UInt16} {key : Bytes} {vals : List Bytes} (hkey : NASTSEP ∉ key)
    (hsep : ∀ v ∈ vals, NASTSEP ∉ v) (hne : ∀ v ∈ vals, v ≠ []) (srv : Shared) :
    (doUpdate tid (key ++ NASTSEP :: [NASTSEP].intercalate vals) srv).1.updated
      = [(key, vals)] := by
  have hall : ∀ b ∈ key, decide (b ≠ NASTSEP) = true := by
    intro b hb
    have hne : b ≠ NASTSEP := fun he => hkey (he ▸ hb)
    simpa using hne
  have htake : (key ++ NASTSEP :: [NASTSEP].intercalate vals).takeWhile (· ≠ NASTSEP) = key := by
    rw [List.takeWhile_append_of_pos hall, List.takeWhile_cons_of_neg (by simp), List.append_nil]
  have hdrop : (key ++ NASTSEP :: [NASTSEP].intercalate vals).drop (key.length + 1)
      = [NASTSEP].intercalate vals := by
    rw [← List.drop_drop, List.drop_left']
    · rfl
    · rfl
  have hlen : key.length ≠ (key ++ NASTSEP :: [NASTSEP].intercalate vals).length := by
    rw [List.length_append, List.length_cons]
    omega
  rw [doUpdate_updated, htake, if_neg hlen, hdrop, buildArray_join hsep hne]

/-- The client sends that command. -/
theorem nastUpd_frame {tid : UInt16} {key : Bytes} {vals : List Bytes} (hnul : 0 ∉ key)
    (hsize : updSize key vals ≤ 512) (htext : key.length ≤ 504) :
    nastUpd tid key vals = some (updCmd tid key vals).frame := by
  rw [nastUpd_eq hnul hsize htext]
  unfold Cmd.frame
  rw [updCmd_size]
  simp [updCmd]

/-- `process_cmd` on the frame of an update. -/
theorem processCmd_update {tid : UInt16} {key : Bytes} {vals : List Bytes}
    (hsep : ∀ v ∈ vals, NASTSEP ∉ v) (hne : ∀ v ∈ vals, v ≠ []) (hkey : NASTSEP ∉ key)
    (hsize : updSize key vals ≤ 512) (env : Nat → Shared → Shared) (around : Int → Byte)
    (sock : Nat) {fuel : Nat} (hfuel : 1 ≤ fuel) (opts : NastOptions) (srv : Shared) :
    ∃ out opts' srv',
      processCmd env (bufMem (updCmd tid key vals).frame around) sock
          (updCmd tid key vals).frame.length fuel opts srv
        = some (out, opts', srv') ∧
      out.updated = [(key, vals)] := by
  obtain ⟨fuel, rfl⟩ : ∃ n, fuel = n + 1 := ⟨fuel - 1, by omega⟩
  have hsize' : (updCmd tid key vals).size ≤ 512 := by rw [updCmd_size]; exact hsize
  have hge : 6 ≤ (updCmd tid key vals).size := by
    unfold Cmd.size
    omega
  have hframed : (updCmd tid key vals).Framed := by
    unfold Cmd.Framed
    omega
  have hupd : (handleCmd sock tid NASTUPD (updCmd tid key vals).args
      (fun j => bufMem (updCmd tid key vals).frame around (0 + (updCmd tid key vals).size + j))
      opts (env 0 srv)).1.updated = [(key, vals)] :=
    doUpdate_join hkey hsep hne (env 0 srv)
  unfold processCmd
  rw [Cmd.frame_length, if_neg (by omega),
    processLoop_cmd (bufMem_at _ _) hframed (by omega) fuel 0 opts srv]
  dsimp only
  split
  · exact ⟨_, _, _, rfl, hupd⟩
  · rw [processLoop_end (by omega)]
    refine ⟨_, _, _, rfl, ?_⟩
    show _ ++ [] = _
    rw [List.append_nil]
    exact hupd

/-- The frame of the update goes through: `process_cmd` makes `do_update` call
`memdb_upd` with this key and this list, in every state and whatever is in memory
around the buffer. -/
def UpdateSurvives (tid : UInt16) (key : Bytes) (vals : List Bytes) : Prop :=
  ∃ frame, nastUpd tid key vals = some frame ∧
    ∀ (env : Nat → Shared → Shared) (around : Int → Byte) (sock fuel : Nat) (opts : NastOptions)
      (srv : Shared), 1 ≤ fuel →
      ∃ out opts' srv',
        processCmd env (bufMem frame around) sock frame.length fuel opts srv
          = some (out, opts', srv') ∧
        out.updated = [(key, vals)]

/-- **When an update survives the wire**: exactly if no value is empty. -/
theorem updateSurvives_iff (tid : UInt16) (key : Bytes) (vals : List Bytes) (hvals : vals ≠ [])
    (hkey : NASTSEP ∉ key) (hnul : 0 ∉ key) (hsep : ∀ v ∈ vals, NASTSEP ∉ v)
    (hsize : updSize key vals ≤ 512) :
    UpdateSurvives tid key vals ↔ ∀ v ∈ vals, v ≠ [] := by
  constructor
  · intro h
    obtain ⟨frame, -, hrun⟩ := h
    obtain ⟨out, opts', srv', hcmd, hupd⟩ := hrun (fun _ srv => srv) (fun _ => 0) 0 1 defaultOpts
      ⟨fun _ => none, cdbUnloaded, fqmNew 10, 0, 0, 0, []⟩ (Nat.le_refl 1)
    unfold processCmd at hcmd
    split at hcmd
    · obtain ⟨rfl, -⟩ := Prod.mk.inj (Option.some.inj hcmd)
      exact absurd hupd (by simp [Outcome.idle])
    · exact processLoop_updated hcmd (key, vals) (by rw [hupd]; exact List.mem_singleton_self _)
  · intro hne
    have hpos : 1 ≤ ([NASTSEP].intercalate vals).length := by
      rw [Nat.one_le_iff_ne_zero, ne_eq, List.length_eq_zero_iff]
      intro hnil
      have hjoin := buildArray_join hsep hne
      rw [hnil] at hjoin
      exact hvals hjoin.symm
    have htext : key.length ≤ 504 := by
      unfold updSize at hsize
      omega
    exact ⟨_, nastUpd_frame hnul hsize htext, fun env around sock fuel opts srv hfuel =>
      processCmd_update hsep hne hkey hsize env around sock hfuel opts srv⟩

/-- Two values arrive as two values. -/
theorem updateSurvives_iff_two : UpdateSurvives 1 [107] [[97], [98]] :=
  (updateSurvives_iff 1 [107] [[97], [98]] (by decide) (by decide) (by decide) (by decide)
    (by decide)).mpr (by decide)

/-- An empty value between two others: `memdb_upd` is called with two values, the second
of which starts with a separator. -/
theorem update_lost_value :
    ¬ ∀ (tid : UInt16) (key : Bytes) (vals : List Bytes), vals ≠ [] → NASTSEP ∉ key → 0 ∉ key →
      (∀ v ∈ vals, NASTSEP ∉ v) → updSize key vals ≤ 512 → UpdateSurvives tid key vals := by
  intro h
  obtain ⟨frame, hframe, hrun⟩ := h 1 [107] [[97], [], [98]] (by decide) (by decide) (by decide)
    (by decide) (by decide)
  have hbuilt : nastUpd 1 [107] [[97], [], [98]]
      = some [0, 12, 0, 1, 0xff, 0x03, 107, 0xfc, 97, 0xfc, 0xfc, 98] := by decide
  rw [hbuilt] at hframe
  obtain rfl := Option.some.inj hframe
  obtain ⟨out, opts', srv', hcmd, hupd⟩ := hrun (fun _ srv => srv) (fun _ => 0) 0 1 defaultOpts
    ⟨fun _ => none, cdbUnloaded, fqmNew 10, 0, 0, 0, []⟩ (Nat.le_refl 1)
  have hcall : some [([107], [[97], [0xfc, 98]])] = some out.updated :=
    congrArg (Option.map fun r : Outcome × NastOptions × Shared => r.1.updated) hcmd
  rw [hupd] at hcall
  exact absurd hcall (by decide)

end Nastd.Server
