import Nastd.Server.Framing

/-!
# One response for each request

A request may be answered by its handler, or later by the worker that pops it off the
queue. `process_cmd` gives up on the rest of a buffer when a handler returns -1, and
handlers return -1 in two cases that a client cannot tell apart from the code: the
response did not fit and nothing was sent, or an error was sent already. `do_update`
goes on after an error it has sent; `do_opt_set` and `do_get` do not.

The responses to a buffer are complete exactly if every result fits and no request but
the last one ends in such an error (`oneResponse_iff`).
-/

namespace Nastd.Server

/-- The requests one behind the other, as a client sends them. -/
def wire (cs : List Cmd) : Bytes := cs.flatMap Cmd.frame

/-- GET, UPD, OPTGET, OPTSET or STATS. -/
def Cmd.Known (c : Cmd) : Prop :=
  c.cmd = NASTGET ∨ c.cmd = NASTUPD ∨ c.cmd = NASTOPTGET ∨ c.cmd = NASTOPTSET ∨ c.cmd = NASTSTATS

/-- The ids that were answered, or wait on the queue. -/
def Outcome.ids (out : Outcome) : List UInt16 :=
  out.sent.map frameId ++ out.queued.map Request.reqid

/-- The lines of a STATS response. -/
def statsItems (srv : Shared) : List Bytes := srv.statLines ++ [uptimeLine srv, versionLine]

/-- The handler has something to send that fits, or leaves it to the fallthrough. -/
def Answers (c : Cmd) (after : Nat → Byte) (opts : NastOptions) (srv : Shared) : Prop :=
  (c.cmd = NASTGET → ∀ aa, getItems opts c.args after srv = some aa → Fits aa) ∧
    (c.cmd = NASTSTATS → Fits (statsItems srv))

/-- The handler has no error to send after which it returns -1. -/
def GoesOn (c : Cmd) (after : Nat → Byte) (opts : NastOptions) (srv : Shared) : Prop :=
  (c.cmd = NASTOPTSET → (setOpts (after 0) opts c.args).2 = true) ∧
    (c.cmd = NASTGET → getItems opts c.args after srv = none →
      srv.fqm.nitems ≠ srv.fqm.maxitems)

/-- Every request of the buffer is reached, and has an answer. -/
def Reaches (env : Nat → Shared → Shared) (mem : Int → Byte) (sock : Nat) :
    List Cmd → Int → Nat → NastOptions → Shared → Prop
  | [], _, _, _, _ => True
  | c :: cs, p, i, opts, srv =>
    let after := fun j : Nat => mem (p + c.size + j)
    let r := handleCmd sock c.reqid c.cmd c.args after opts (env i srv)
    Answers c after opts (env i srv) ∧
      (cs ≠ [] → GoesOn c after opts (env i srv) ∧
        Reaches env mem sock cs (p + c.size) (i + 1) r.2.1 r.2.2)

/-- The server survives the lookup, and MySQL has nothing for the request or its row fits a
response. -/
def RowFits (h : MysqlReply × Shared) : Prop :=
  ∃ row ∈ mysqldbGet h.2.cdb.dbFieldcount h.1, row.1 ≠ -1 → Fits row.2

instance (h : MysqlReply × Shared) : Decidable (RowFits h) :=
  inferInstanceAs (Decidable (∃ row ∈ mysqldbGet h.2.cdb.dbFieldcount h.1, _ → _))

/-- What a worker writes for a request; nothing if it stops the server. -/
def workerFrames (req : Request) (h : MysqlReply × Shared) : List Bytes :=
  match doFallthrough h.1 req h.2 with
  | none => []
  | some f => f.1.sent

/-- What the workers write for the queued requests. Each finds some reply of MySQL and
some shared state. -/
def workerSent (queued : List Request) (handled : List (MysqlReply × Shared)) : List Bytes :=
  (queued.zip handled).flatMap fun x => workerFrames x.1 x.2

/-- Each id is answered as often as it was asked for, and no other. -/
def OneResponse (cs : List Cmd) (out : Outcome) (handled : List (MysqlReply × Shared)) : Prop :=
  ∀ id, ((out.sent ++ workerSent out.queued handled).map frameId).count id
    = (cs.map Cmd.reqid).count id

/-! ## One request -/

/-- How the handler of a request ends. -/
inductive Ends (c : Cmd) (after : Nat → Byte) (opts : NastOptions) (srv : Shared) :
    Outcome → Prop where
  /-- Answered or queued. -/
  | replied {out : Outcome} : Answers c after opts srv → GoesOn c after opts srv →
      out.ids = [c.reqid] → out.rc = 0 → Ends c after opts srv out
  /-- An error was sent, and the buffer is given up. -/
  | stopped {out : Outcome} : Answers c after opts srv → ¬ GoesOn c after opts srv →
      out.ids = [c.reqid] → out.rc = -1 → Ends c after opts srv out
  /-- The response did not fit. -/
  | silent {out : Outcome} : ¬ Answers c after opts srv → out.ids = [] → out.rc = -1 →
      Ends c after opts srv out

/-- A response that fits carries its id, and one that does not is not sent. -/
theorem sendResponse_ids (reqid : UInt16) (rCode : Byte) (aa : List Bytes) :
    (sendResponse reqid rCode aa).ids = if Fits aa then [reqid] else [] := by
  rw [sendResponse_eq]
  split
  · show [frameId (responseFrame reqid rCode aa)] = [reqid]
    rw [frameId_responseFrame]
  · rfl

theorem fits_nil : Fits [] := by decide

theorem sendResponse_fits (reqid : UInt16) (rCode : Byte) {aa : List Bytes} (h : Fits aa) :
    (sendResponse reqid rCode aa).ids = [reqid] ∧ (sendResponse reqid rCode aa).rc = 0 := by
  constructor
  · rw [sendResponse_ids, if_pos h]
  · rw [sendResponse_rc, if_pos h]

/-- The error texts of the handlers fit. -/
theorem sendError_ids {reqid : UInt16} {text : String} (h : Fits [ascii text]) :
    (sendError reqid text).ids = [reqid] :=
  (sendResponse_fits reqid NASTERR h).1

/-- A handler that ends with a response. -/
theorem ends_of_sendResponse {c : Cmd} {after : Nat → Byte} {opts : NastOptions} {srv : Shared}
    {rCode : Byte} {aa : List Bytes} (hfit : Answers c after opts srv ↔ Fits aa)
    (hgo : GoesOn c after opts srv) :
    Ends c after opts srv (sendResponse c.reqid rCode aa) := by
  by_cases h : Fits aa
  · obtain ⟨hids, hrc⟩ := sendResponse_fits c.reqid rCode h
    exact .replied (hfit.mpr h) hgo hids hrc
  · refine .silent (fun ha => h (hfit.mp ha)) ?_ ?_
    · rw [sendResponse_ids, if_neg h]
    · rw [sendResponse_rc, if_neg h]

section Handlers

variable {c : Cmd} {after : Nat → Byte} {opts : NastOptions} {srv : Shared}

/-- The results of these fit, whatever the state. -/
theorem answers_always (hcmd : c.cmd = NASTUPD ∨ c.cmd = NASTOPTGET ∨ c.cmd = NASTOPTSET) :
    Answers c after opts srv := by
  constructor
  · intro hget
    rw [hget] at hcmd
    exact absurd hcmd (by decide)
  · intro hstats
    rw [hstats] at hcmd
    exact absurd hcmd (by decide)

/-- These have no error to send that ends the buffer. -/
theorem goesOn_always (hcmd : c.cmd = NASTUPD ∨ c.cmd = NASTOPTGET ∨ c.cmd = NASTSTATS) :
    GoesOn c after opts srv := by
  constructor
  · intro hset
    rw [hset] at hcmd
    exact absurd hcmd (by decide)
  · intro hget
    rw [hget] at hcmd
    exact absurd hcmd (by decide)

theorem doGet_response (sock : Nat) (hcmd : c.cmd = NASTGET) :
    Ends c after opts srv (doGet sock c.reqid opts c.args after srv).1 := by
  have hstats : c.cmd ≠ NASTSTATS := by rw [hcmd]; decide
  have hset : c.cmd ≠ NASTOPTSET := by rw [hcmd]; decide
  have hends := doGet_ends c.reqid sock opts c.args after srv
  generalize doGet sock c.reqid opts c.args after srv = r at hends ⊢
  cases hends with
  | @answered aa hsome =>
    refine ends_of_sendResponse ⟨fun h => h.1 hcmd aa hsome, fun hfit => ⟨?_, ?_⟩⟩ ⟨?_, ?_⟩
    · intro _ bb hbb
      obtain rfl := Option.some.inj (hsome.symm.trans hbb)
      exact hfit
    · exact fun h => absurd h hstats
    · exact fun h => absurd h hset
    · intro _ hnone
      exact absurd (hsome.symm.trans hnone) (by simp)
  | queued hnone hroom =>
    refine .replied ⟨?_, fun h => absurd h hstats⟩ ⟨fun h => absurd h hset, ?_⟩ rfl rfl
    · intro _ aa hsome
      exact absurd (hnone.symm.trans hsome) (by simp)
    · exact fun _ _ hfull => hroom (fqmPush_full.mpr hfull)
  | queueFull hnone hfull =>
    refine .stopped ⟨?_, fun h => absurd h hstats⟩ ?_ (sendError_ids (by decide)) rfl
    · intro _ aa hsome
      exact absurd (hnone.symm.trans hsome) (by simp)
    · exact fun hgo => hgo.2 hcmd hnone (fqmPush_full.mp hfull)

theorem doOptSet_response (hcmd : c.cmd = NASTOPTSET) :
    Ends c after opts srv (doOptSet c.reqid opts c.args after).1 := by
  have hget : c.cmd ≠ NASTGET := by rw [hcmd]; decide
  have hans : Answers c after opts srv := answers_always (.inr (.inr hcmd))
  unfold doOptSet
  dsimp only
  by_cases hknown : (setOpts (after 0) opts c.args).2 = true
  · rw [if_pos hknown]
    obtain ⟨hids, hrc⟩ := sendResponse_fits c.reqid NASTOK fits_nil
    exact .replied hans ⟨fun _ => hknown, fun h => absurd h hget⟩ hids hrc
  · rw [if_neg hknown]
    exact .stopped hans (fun hgo => hknown (hgo.1 hcmd)) (sendError_ids (by decide)) rfl

theorem doOptGet_response (hcmd : c.cmd = NASTOPTGET) :
    Ends c after opts srv (doOptGet c.reqid opts) := by
  have hfit : Fits [optText opts] := by
    -- twelve bytes, whatever the flags
    show 5 + (joinItems [optText opts]).length ≤ 1024
    rw [joinItems_single]
    exact Nat.le_of_ble_eq_true rfl
  obtain ⟨hids, hrc⟩ := sendResponse_fits c.reqid NASTOK hfit
  exact .replied (answers_always (.inr (.inl hcmd))) (goesOn_always (.inr (.inl hcmd))) hids hrc

theorem doUpdate_response (hcmd : c.cmd = NASTUPD) :
    Ends c after opts srv (doUpdate c.reqid c.args srv).1 := by
  have hans : Answers c after opts srv := answers_always (.inl hcmd)
  have hgo : GoesOn c after opts srv := goesOn_always (.inl hcmd)
  unfold doUpdate
  dsimp only
  -- its errors are sent like its successes: the code is that of `send_response`
  split
  · obtain ⟨hids, hrc⟩ := sendResponse_fits c.reqid NASTERR
      (show Fits [ascii "Need values for update"] by decide)
    exact .replied hans hgo hids hrc
  · split
    · obtain ⟨hids, hrc⟩ := sendResponse_fits c.reqid NASTERR
        (show Fits [ascii "Couldn't update cache"] by decide)
      exact .replied hans hgo hids hrc
    · obtain ⟨hids, hrc⟩ := sendResponse_fits c.reqid NASTOK fits_nil
      exact .replied hans hgo hids hrc

theorem doStats_response (hcmd : c.cmd = NASTSTATS) :
    Ends c after opts srv (doStats c.reqid srv) := by
  have hget : c.cmd ≠ NASTGET := by rw [hcmd]; decide
  exact ends_of_sendResponse ⟨fun h => h.2 hcmd, fun h => ⟨fun hc => absurd hc hget, fun _ => h⟩⟩
    (goesOn_always (.inr (.inr hcmd)))

/-- Every handler ends in one of the three ways. -/
theorem handleCmd_ends (hknown : c.Known) (sock : Nat) :
    Ends c after opts srv (handleCmd sock c.reqid c.cmd c.args after opts srv).1 := by
  obtain ⟨reqid, cmd, args⟩ := c
  rcases hknown with h | h | h | h | h
  · obtain rfl : cmd = NASTGET := h
    exact doGet_response sock rfl
  · obtain rfl : cmd = NASTUPD := h
    exact doUpdate_response rfl
  · obtain rfl : cmd = NASTOPTGET := h
    exact doOptGet_response rfl
  · obtain rfl : cmd = NASTOPTSET := h
    exact doOptSet_response rfl
  · obtain rfl : cmd = NASTSTATS := h
    exact doStats_response rfl

end Handlers

/-! ## A whole buffer -/

theorem andThen_ids_count (a b : Outcome) (id : UInt16) :
    (a.andThen b).ids.count id = a.ids.count id + b.ids.count id := by
  unfold Outcome.ids Outcome.andThen
  simp only [List.map_append, List.count_append]
  omega

theorem andThen_ids_length (a b : Outcome) :
    (a.andThen b).ids.length = a.ids.length + b.ids.length := by
  unfold Outcome.ids Outcome.andThen
  simp only [List.map_append, List.length_append]
  omega

/-- The loop over a well-framed buffer ends. Each request is answered or queued under its
id if all are reached; otherwise some are not. -/
theorem processLoop_ids {env : Nat → Shared → Shared} {mem : Int → Byte} {sock : Nat}
    {bufflen : Int} :
    ∀ {cs : List Cmd} {fuel i : Nat} {p : Int} {opts : NastOptions} {srv : Shared},
      (∀ c ∈ cs, c.Framed ∧ c.Known) → At mem p (wire cs) → p + (wire cs).length = bufflen →
      cs.length ≤ fuel →
      ∃ out opts' srv',
        processLoop env mem sock bufflen fuel p i opts srv = some (out, opts', srv') ∧
        (Reaches env mem sock cs p i opts srv →
          ∀ id, out.ids.count id = (cs.map Cmd.reqid).count id) ∧
        (¬ Reaches env mem sock cs p i opts srv → out.ids.length < cs.length) := by
  intro cs
  induction cs with
  | nil =>
    intro fuel i p opts srv _ _ hlen _
    have hend : ¬ p < bufflen := by
      have hnil : (wire []).length = 0 := rfl
      omega
    exact ⟨_, _, _, processLoop_end hend fuel i opts srv, fun _ id => rfl,
      fun h => absurd trivial h⟩
  | cons c cs ih =>
    intro fuel i p opts srv hcs hat hlen hfuel
    obtain ⟨hframed, hknown⟩ := hcs c (List.mem_cons_self ..)
    obtain ⟨fuel, rfl⟩ : ∃ n, fuel = n + 1 := ⟨fuel - 1, by
      rw [List.length_cons] at hfuel
      omega⟩
    have hfuel' : cs.length ≤ fuel := by
      rw [List.length_cons] at hfuel
      omega
    have hwire : wire (c :: cs) = c.frame ++ wire cs := List.flatMap_cons ..
    rw [hwire] at hat hlen
    obtain ⟨hat₁, hat₂⟩ := at_append hat
    rw [Cmd.frame_length] at hat₂
    rw [List.length_append, Cmd.frame_length] at hlen
    have hp : p < bufflen := by
      have hsize : c.size = 6 + c.args.length := rfl
      omega
    have hends : Ends c (fun j => mem (p + c.size + j)) opts (env i srv)
        (handleCmd sock c.reqid c.cmd c.args (fun j => mem (p + c.size + j)) opts (env i srv)).1 :=
      handleCmd_ends hknown sock
    rw [processLoop_cmd hat₁ hframed hp fuel i opts srv]
    simp only [Reaches]
    generalize handleCmd sock c.reqid c.cmd c.args (fun j => mem (p + c.size + j)) opts
      (env i srv) = r at hends ⊢
    obtain ⟨out₁, opts₁, srv₁⟩ := r
    cases hends with
    | replied hans hgo hids hrc =>
      -- the loop goes on: one id for this request, the others by induction
      have hrc' : ¬ (out₁.rc = -1 ∨ out₁.rc = 1) := by
        have hzero : out₁.rc = 0 := hrc
        omega
      have hids' : out₁.ids = [c.reqid] := hids
      obtain ⟨out, opts', srv', hloop, hall, hless⟩ := @ih fuel (i + 1) _ opts₁ srv₁
        (fun d hd => hcs d (List.mem_cons_of_mem _ hd)) hat₂ (by push_cast at hlen; omega) hfuel'
      refine ⟨out₁.andThen out, opts', srv', ?_, ?_, ?_⟩
      · dsimp only
        rw [if_neg hrc', hloop]
        rfl
      · intro hreach id
        have hrest : Reaches env mem sock cs (p + c.size) (i + 1) opts₁ srv₁ := by
          cases cs with
          | nil => trivial
          | cons d ds => exact (hreach.2 (List.cons_ne_nil d ds)).2
        rw [andThen_ids_count, hids', hall hrest id, List.map_cons, List.count_cons,
          List.count_cons, List.count_nil]
        omega
      · intro hreach
        have hrest : ¬ Reaches env mem sock cs (p + c.size) (i + 1) opts₁ srv₁ :=
          fun h => hreach ⟨hans, fun _ => ⟨hgo, h⟩⟩
        have hlt := hless hrest
        rw [andThen_ids_length, hids', List.length_singleton, List.length_cons]
        omega
    | stopped hans hgo hids hrc =>
      -- the error is the answer, but what stands behind it is lost
      have hids' : out₁.ids = [c.reqid] := hids
      refine ⟨out₁, opts₁, srv₁, if_pos (.inl hrc), ?_, ?_⟩
      · intro hreach id
        have hlast : cs = [] := by
          by_contra hne
          exact hgo (hreach.2 hne).1
        rw [hids', hlast]
        rfl
      · intro hreach
        have hmore : cs ≠ [] := fun h => hreach ⟨hans, fun hne => absurd h hne⟩
        have hpos := List.length_pos_of_ne_nil hmore
        rw [hids', List.length_singleton, List.length_cons]
        omega
    | silent hans hids hrc =>
      -- `arr_send_response` gave up before it wrote anything
      have hids' : out₁.ids = [] := hids
      refine ⟨out₁, opts₁, srv₁, if_pos (.inl hrc), fun hreach => absurd hreach.1 hans, ?_⟩
      intro _
      rw [hids', List.length_nil, List.length_cons]
      omega

/-! ## The queue -/

/-- A worker answers under the id of the request, if the row fits. -/
theorem workerFrames_ids (req : Request) (h : MysqlReply × Shared) :
    (workerFrames req h).map frameId = if RowFits h then [req.reqid] else [] := by
  have hsend : ∀ aa, (sendResponse req.reqid NASTOK aa).sent.map frameId
      = if Fits aa then [req.reqid] else [] := by
    intro aa
    have hids := sendResponse_ids req.reqid NASTOK aa
    unfold Outcome.ids at hids
    rw [sendResponse_queued, List.map_nil, List.append_nil] at hids
    exact hids
  cases hget : mysqldbGet h.2.cdb.dbFieldcount h.1 with
  | none =>
    have hstops : ¬ RowFits h := fun hfits =>
      absurd (hget.symm.trans hfits.choose_spec.1) (by simp)
    unfold workerFrames doFallthrough
    rw [hget, if_neg hstops]
    rfl
  | some row =>
    have hrow : RowFits h ↔ (row.1 ≠ -1 → Fits row.2) := by
      unfold RowFits
      rw [hget]
      simp
    have hsent : workerFrames req h = (fallthroughRow row req h.2).1.sent := by
      unfold workerFrames doFallthrough
      rw [hget]
      rfl
    rw [hsent, fallthroughRow_sent, hsend]
    by_cases hmiss : row.1 = -1
    · rw [if_pos hmiss, if_pos fits_nil, if_pos (hrow.mpr fun hne => absurd hmiss hne)]
    · rw [if_neg hmiss]
      exact if_congr ⟨fun hf => hrow.mpr fun _ => hf, fun hr => hrow.mp hr hmiss⟩ rfl rfl

/-- The workers answer every queued request under its id if all rows fit; otherwise
fewer. -/
theorem workerSent_ids :
    ∀ {queued : List Request} {handled : List (MysqlReply × Shared)},
      handled.length = queued.length →
      ((∀ h ∈ handled, RowFits h) →
        (workerSent queued handled).map frameId = queued.map Request.reqid) ∧
      (workerSent queued handled).length ≤ queued.length ∧
      ((workerSent queued handled).length = queued.length → ∀ h ∈ handled, RowFits h) := by
  intro queued
  induction queued with
  | nil =>
    intro handled hlen
    obtain rfl := List.length_eq_zero_iff.mp hlen
    exact ⟨fun _ => rfl, Nat.le_refl 0, fun _ h hh => absurd hh (by simp)⟩
  | cons req queued ih =>
    intro handled hlen
    cases handled with
    | nil => exact absurd hlen (by simp)
    | cons h handled =>
      obtain ⟨hall, hle, hfull⟩ := ih (Nat.succ.inj hlen)
      have hids := workerFrames_ids req h
      have hsent : workerSent (req :: queued) (h :: handled)
          = workerFrames req h ++ workerSent queued handled := rfl
      have hlen₁ : (workerFrames req h).length = if RowFits h then 1 else 0 := by
        rw [← List.length_map (f := frameId), hids]
        split
        · rfl
        · rfl
      rw [hsent, List.length_append, List.map_append, List.length_cons, hlen₁]
      refine ⟨?_, ?_, ?_⟩
      · intro hfits
        rw [hids, if_pos (hfits h (List.mem_cons_self ..)),
          hall fun x hx => hfits x (List.mem_cons_of_mem _ hx)]
        rfl
      · split
        · omega
        · omega
      · intro heq x hx
        split at heq
        · next hfit =>
          rcases List.mem_cons.mp hx with rfl | hx
          · exact hfit
          · exact hfull (by omega) x hx
        · omega

/-- **When every request gets its one response**: exactly if each is reached, its result
fits, and so does each row the workers fetch. -/
theorem oneResponse_iff (cs : List Cmd) (hcs : ∀ c ∈ cs, c.Framed ∧ c.Known)
    (env : Nat → Shared → Shared) (around : Int → Byte) (sock fuel : Nat)
    (hfuel : cs.length ≤ fuel) (opts : NastOptions) (srv : Shared) :
    ∃ out opts' srv',
      processCmd env (bufMem (wire cs) around) sock (wire cs).length fuel opts srv
        = some (out, opts', srv') ∧
      ∀ handled, handled.length = out.queued.length →
        (OneResponse cs out handled ↔
          Reaches env (bufMem (wire cs) around) sock cs 0 0 opts srv ∧
            ∀ h ∈ handled, RowFits h) := by
  cases cs with
  | nil =>
    refine ⟨.idle (-1), opts, srv, rfl, fun handled hlen => ?_⟩
    obtain rfl := List.length_eq_zero_iff.mp hlen
    exact ⟨fun _ => ⟨trivial, fun h hh => absurd hh (by simp)⟩, fun _ id => rfl⟩
  | cons c cs =>
    obtain ⟨out, opts', srv', hloop, hall, hless⟩ := @processLoop_ids env _ sock _ (c :: cs) fuel
      0 0 opts srv hcs (bufMem_at (wire (c :: cs)) around) (Int.zero_add _) hfuel
    have hlong : ¬ (wire (c :: cs)).length < 6 := by
      have hwire : wire (c :: cs) = c.frame ++ wire cs := List.flatMap_cons ..
      have hsize : c.size = 6 + c.args.length := rfl
      rw [hwire, List.length_append, Cmd.frame_length]
      omega
    refine ⟨out, opts', srv', ?_, fun handled hlen => ?_⟩
    · unfold processCmd
      rw [if_neg hlong]
      exact hloop
    obtain ⟨hworkers, hle, hfull⟩ := workerSent_ids hlen
    have hlenIds : out.ids.length = out.sent.length + out.queued.length := by
      unfold Outcome.ids
      rw [List.length_append, List.length_map, List.length_map]
    constructor
    · intro hone
      -- as many responses as requests, so nobody was left out on the way
      have hperm : ((out.sent ++ workerSent out.queued handled).map frameId).Perm
          ((c :: cs).map Cmd.reqid) := List.perm_iff_count.mpr hone
      have hcount := hperm.length_eq
      rw [List.length_map, List.length_map, List.length_append] at hcount
      have hreach : Reaches env (bufMem (wire (c :: cs)) around) sock (c :: cs) 0 0 opts srv := by
        by_contra hnot
        have hlt := hless hnot
        omega
      have hids : out.ids.length = (c :: cs).length := by
        have hperm' := (List.perm_iff_count.mpr (hall hreach)).length_eq
        rw [List.length_map] at hperm'
        exact hperm'
      exact ⟨hreach, hfull (by omega)⟩
    · intro h id
      obtain ⟨hreach, hfits⟩ := h
      rw [List.map_append, hworkers hfits]
      exact hall hreach id

/-- Nothing cached, and a file without the key `k`. -/
def oneColumnServer : Shared := ⟨fun _ => none, oneColumnLoaded 5, fqmNew 10, 0, 0, 0, []⟩

/-- A GET that goes to the queue and an OPTGET in one buffer: the handler answers the second,
and a worker the first, with the row it fetched. -/
theorem oneResponse_iff_queued :
    ∃ out opts' srv',
      processCmd (fun _ srv => srv) (bufMem (wire [⟨1, NASTGET, [0x6b]⟩, ⟨2, NASTOPTGET, []⟩])
          fun _ => 0) 5 13 2 defaultOpts oneColumnServer = some (out, opts', srv') ∧
      out.queued.length = 1 ∧
      OneResponse [⟨1, NASTGET, [0x6b]⟩, ⟨2, NASTOPTGET, []⟩] out
        [(.row [some [0x37]], oneColumnServer)] := by
  have hcs : ∀ c ∈ [(⟨1, NASTGET, [0x6b]⟩ : Cmd), ⟨2, NASTOPTGET, []⟩], c.Framed ∧ c.Known := by
    intro c hc
    have hwhich : c = ⟨1, NASTGET, [0x6b]⟩ ∨ c = ⟨2, NASTOPTGET, []⟩ := by simpa using hc
    rcases hwhich with rfl | rfl
    · exact ⟨show (7 : Nat) < 0x8000 by decide, .inl rfl⟩
    · exact ⟨show (6 : Nat) < 0x8000 by decide, .inr (.inr (.inl rfl))⟩
  obtain ⟨out, opts', srv', hcmd, hiff⟩ := oneResponse_iff
    [⟨1, NASTGET, [0x6b]⟩, ⟨2, NASTOPTGET, []⟩] hcs (fun _ srv => srv) (fun _ => 0) 5 2 (by decide)
    defaultOpts oneColumnServer
  have hqueued : (processCmd (fun _ srv => srv)
      (bufMem (wire [⟨1, NASTGET, [0x6b]⟩, ⟨2, NASTOPTGET, []⟩]) fun _ => 0) 5
      (wire [⟨1, NASTGET, [0x6b]⟩, ⟨2, NASTOPTGET, []⟩]).length 2 defaultOpts
      oneColumnServer).map (fun r => r.1.queued.length) = some 1 := by
    decide +kernel
  rw [hcmd] at hqueued
  have hlen : out.queued.length = 1 := Option.some.inj hqueued
  refine ⟨out, opts', srv', hcmd, hlen, (hiff [(.row [some [0x37]], oneColumnServer)]
    hlen.symm).mpr ⟨⟨⟨?_, ?_⟩, fun _ => ⟨⟨?_, ?_⟩, ?_⟩⟩, ?_⟩⟩
  · -- the GET finds nothing
    intro _ aa hitems
    have hnone : getItems defaultOpts [0x6b] (fun j : Nat => bufMem
        (wire [⟨1, NASTGET, [0x6b]⟩, ⟨2, NASTOPTGET, []⟩]) (fun _ => 0) (0 + 7 + j))
        oneColumnServer = none := by
      decide +kernel
    exact absurd (hnone.symm.trans hitems) (by simp)
  · exact fun hstats => absurd hstats (by decide)
  · exact fun hset => absurd hset (by decide)
  · exact fun _ _ => by decide
  · exact ⟨answers_always (.inr (.inl rfl)), fun h => absurd rfl h⟩
  · intro h hh
    obtain rfl := List.mem_singleton.mp hh
    decide

/-- An OPTSET of an unknown option and an OPTGET in one buffer: the second is never
answered. -/
theorem optset_error_drops_rest :
    ¬ ∀ cs : List Cmd, (∀ c ∈ cs, c.Framed ∧ c.Known) →
      ∀ (env : Nat → Shared → Shared) (around : Int → Byte) (sock fuel : Nat)
        (opts : NastOptions) (srv : Shared) (out : Outcome) (opts' : NastOptions) (srv' : Shared),
        cs.length ≤ fuel →
        processCmd env (bufMem (wire cs) around) sock (wire cs).length fuel opts srv
          = some (out, opts', srv') →
        ∀ handled, handled.length = out.queued.length → OneResponse cs out handled := by
  intro h
  have hcs : ∀ c ∈ [(⟨1, NASTOPTSET, [0x09, 1]⟩ : Cmd), ⟨2, NASTOPTGET, []⟩],
      c.Framed ∧ c.Known := by
    intro c hc
    have hwhich : c = ⟨1, NASTOPTSET, [0x09, 1]⟩ ∨ c = ⟨2, NASTOPTGET, []⟩ := by simpa using hc
    rcases hwhich with rfl | rfl
    · exact ⟨show (8 : Nat) < 0x8000 by decide, .inr (.inr (.inr (.inl rfl)))⟩
    · exact ⟨show (6 : Nat) < 0x8000 by decide, .inr (.inr (.inl rfl))⟩
  have hone := h _ hcs (fun _ srv => srv) (fun _ => 0) 5 2 defaultOpts
    ⟨fun _ => none, cdbUnloaded, fqmNew 10, 0, 0, 0, []⟩ _ _ _ (by decide) rfl [] rfl 2
  exact absurd hone (by decide)

end Nastd.Server
