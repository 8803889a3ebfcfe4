import Nastd.Service
import Nastd.Server.KeyWire
import Nastd.Server.UpdateWire
import Nastd.Client.Matching

/-!
# Client and server together

The whole of nastd in one piece, calls one at a time: a thread builds a request and puts it
on its connection, `process_cmd` handles it, the workers empty the queue, and what they
write is what `getresponse` reads. Requests and responses arrive whole; what a stream cut
elsewhere does to them is in `Server/StreamCuts.lean` and `Client/Chunks.lean`.

`nastd_refines_service` is the refinement: whatever the clients call, in whatever order
and from whichever of their threads, each gets the answers of the service of
`Service.lean`. What follows for callers is in `Promises.lean`.
-/

namespace Nastd

open Lib Server Client

/-! ## The code, put together -/

/-- The server, the options of every connection, and every client's handle. -/
structure Deployment (κ : Type) where
  srv : Shared
  opts : κ → NastOptions
  handle : κ → Nasth

/-- The workers, for as many requests. -/
def serveQueue (cols : Bytes) (mysql : Bytes → MysqlReply) :
    Nat → Shared → Option (List Bytes × Shared)
  | 0, srv => some ([], srv)
  | n + 1, srv =>
    match fqmPop srv.fqm with
    | none => some ([], srv)
    | some (req, fqm) => do
      let f ← doFallthrough (mysql (Backend.select ⟨srv.cdb, cols⟩ (cstr req.req)).text) req
        { srv with fqm := fqm }
      let r ← serveQueue cols mysql n f.2
      return (f.1.sent ++ r.1, r.2)

/-- The request of a call; `none` if it is refused. -/
def Api.request (tid : UInt16) (stack : Nat → Byte) : Api → Option Bytes
  | get key => some (nastGet tid key stack 0).sent
  | upd key vals => nastUpd tid key vals
  | optionsSet opts => some (nastOptionsSet tid opts)
  | optionsGet _ => some (nastOptionsGet tid)
  | stats => some (nastStats tid)

/-- What `getresponse` meets: nothing for a while, then what the server wrote, or nothing at
all. -/
def Line.turns {tid : UInt16} (line : Line) (chunk : Bytes) : List (Turn tid) :=
  if chunk = [] then List.replicate 51 (.alone .quiet)
  else
    List.replicate line.quiet (.alone .quiet) ++
      [.alone (.chunk chunk line.around'), .alone .quiet]

/-- The end of a call, and what its caller finds. -/
def Api.finish (tid : UInt16) (stack : Nat → Byte) (rc : Int) (s : Nasth) (api : Api) :
    Option (Answer × Nasth) := do
  let (rc, s, opts) ←
    match api with
    | optionsGet opts =>
      if rc = 0 then (nastOptionsRead s tid opts (stack 12)).map fun r => (r.1, r.2.1, some r.2.2)
      else some (rc, s, some opts)
    | _ => some (rc, s, none)
  let err ← nastGeterr s tid
  let errmsg ← nastErrmsg s tid
  let result ← nastGetResult s tid
  return (⟨rc, err, errmsg, result.getD [], opts⟩, s)

namespace Deployment

variable {κ : Type} [DecidableEq κ] (cols : Bytes) (sock : κ → Nat)

/-- One call, from the request to what the caller finds. -/
def call (d : Deployment κ) (c : κ) (tid : UInt16) (line : Line) (api : Api) :
    Option (Answer × Deployment κ) := do
  let frame ← api.request tid line.stack
  let handle ← sendcmd (d.handle c) tid
  let (out, opts, srv) ← processCmd (fun _ srv => srv) (bufMem frame line.around) (sock c)
    frame.length frame.length (d.opts c) d.srv
  let (rows, srv) ← serveQueue cols line.mysql srv.fqm.queue.length srv
  match ← getresponse tid 0 handle (line.turns (out.sent ++ rows).flatten) with
  | .again _ _ => none
  | .done rc handle =>
    let (answer, handle) ← api.finish tid line.stack rc handle
    return (answer, ⟨srv, Function.update d.opts c opts, Function.update d.handle c handle⟩)

/-- nastd when it has just started: nothing cached, nobody waiting, and every client with the
default options and an empty handle. -/
def fresh (site : Site) (cdb : Cdb) (now : Int) (maxitems : Int) : Deployment κ where
  srv := { (Service.fresh cdb now : Service κ).shared site with fqm := fqmNew maxitems }
  opts := fun _ => defaultOpts
  handle := fun _ => ⟨[]⟩

/-- One event. -/
def step (d : Deployment κ) : Event κ → Option (Option Answer × Deployment κ)
  | .call c tid api line => (d.call cols sock c tid line api).map fun r => (some r.1, r.2)
  | .clock now => some (none, { d with srv := { d.srv with now := now } })
  | .periodic seen opened =>
    (cdbPeriodic seen opened d.srv.cdb).map fun cdb =>
      (none, { d with srv := { d.srv with cdb := cdb } })

end Deployment

/-! ## The client's side -/

/-- What a buffer says of its slot. -/
def held : Buffer → Held
  | .null => .nothing
  | .data _ => .response
  | .freed => .freed

/-- What the slot of a thread points to. -/
def heldBy (s : Nasth) (tid : UInt16) : Held :=
  match s.slot tid with
  | none => .nothing
  | some ar => held ar.buffer

theorem heldBy_slot {s : Nasth} {tid : UInt16} {ar : NastResponse} (h : s.slot tid = some ar) :
    heldBy s tid = held ar.buffer := by
  unfold heldBy
  rw [h]

theorem heldBy_congr {s s' : Nasth} {tid : UInt16} (h : s'.slot tid = s.slot tid) :
    heldBy s' tid = heldBy s tid := by
  unfold heldBy
  rw [h]

/-- A larger table holds the same. -/
theorem heldBy_grow (s : Nasth) (m r : UInt16) : heldBy (growResponses s m) r = heldBy s r := by
  rcases @grow_slot s m r with ⟨-, hsame⟩ | ⟨hnone, hnew⟩
  · exact heldBy_congr hsame
  · unfold heldBy
    rw [hnone]
    cases hslot : (growResponses s m).slot r with
    | none => rfl
    | some ar =>
      rw [hnew ar hslot]
      rfl

/-- `sendcmd` cannot free what is freed, and otherwise leaves an empty slot. -/
theorem sendcmd_held {s : Nasth} {tid : UInt16} (htid : tid ≠ 0) :
    (heldBy s tid = .freed → sendcmd s tid = none) ∧
      (heldBy s tid ≠ .freed → ∃ s' ar, sendcmd s tid = some s' ∧ s'.slot tid = some ar ∧
        s'.has tid = false ∧ ar.bufflen = 0 ∧
        held ar.buffer = (if heldBy s tid = .nothing then .nothing else .freed) ∧
        ∀ r, r ≠ tid → heldBy s' r = heldBy s r) := by
  have hle : tid.toNat ≤ (growResponses s tid).nthreads := by
    rw [grow_nthreads]
    exact Nat.le_max_right ..
  obtain ⟨ar, har⟩ := slot_defined htid hle
  have hheld : held ar.buffer = heldBy s tid := by
    rw [← heldBy_slot har, heldBy_grow]
  constructor
  · intro hfreed
    rw [hfreed] at hheld
    cases hbuf : ar.buffer with
    | null => rw [hbuf] at hheld; cases hheld
    | data body => rw [hbuf] at hheld; cases hheld
    | freed =>
      unfold sendcmd delresponse Nasth.modify
      rw [if_neg htid, (slot_eq htid).symm.trans har]
      dsimp only
      rw [hbuf]
      rfl
  · intro hok
    have hsome : ∃ ar', (match ar.buffer with
        | .null => some { ar with reqid := 0xffff, bufflen := 0 }
        | .data _ => some { ar with reqid := 0xffff, bufflen := 0, buffer := .freed }
        | .freed => none) = some ar' ∧ ar'.bufflen = 0 ∧
          held ar'.buffer = (if heldBy s tid = .nothing then .nothing else .freed) := by
      rw [← hheld] at hok ⊢
      cases hbuf : ar.buffer with
      | null => exact ⟨_, rfl, rfl, by simp only [held, if_true]⟩
      | data body => exact ⟨_, rfl, rfl, rfl⟩
      | freed => exact absurd (congrArg held hbuf) hok
    obtain ⟨ar', hdel', hlen, hbuf'⟩ := hsome
    obtain ⟨s', hdel⟩ : ∃ s', delresponse (growResponses s tid) tid = some s' := by
      refine modify_defined htid fun ar₁ har₁ => ?_
      obtain rfl := Option.some.inj (har.symm.trans har₁)
      exact Option.isSome_iff_exists.mpr ⟨ar', hdel'⟩
    have hself := modify_slot_self hdel
    rw [har, Option.bind_some] at hself
    refine ⟨s', ar', hdel, hself.trans hdel', delresponse_has hdel, hlen, hbuf', fun r hr => ?_⟩
    rw [heldBy_congr (modify_slot_ne hdel hr), heldBy_grow]

/-! ## The server's side -/

/-- `process_cmd` on the frame of one command: that of its handler. -/
theorem processCmd_one {c : Cmd} (hc : c.Framed) (around : Int → Byte) (sock : Nat)
    (opts : NastOptions) (srv : Shared) :
    ∃ out, processCmd (fun _ srv => srv) (bufMem c.frame around) sock c.frame.length
        c.frame.length opts srv
      = some (out, (handleCmd sock c.reqid c.cmd c.args (fun j => around (6 + c.args.length + j))
          opts srv).2) ∧
      out.sent = (handleCmd sock c.reqid c.cmd c.args (fun j => around (6 + c.args.length + j))
        opts srv).1.sent := by
  have hlen : c.frame.length = c.size := c.frame_length
  have hafter : (fun j : Nat => bufMem c.frame around (0 + c.size + j))
      = fun j : Nat => around (6 + c.args.length + j) := by
    funext j
    unfold bufMem
    rw [if_neg (by omega)]
    congr 1
    unfold Cmd.size
    omega
  have h6 : 6 ≤ c.size := Nat.le_add_right 6 _
  obtain ⟨k, hk⟩ := Nat.exists_eq_add_of_le' (show 1 ≤ c.frame.length by omega)
  unfold processCmd
  rw [if_neg (by omega)]
  rw [show processLoop (fun _ srv => srv) (bufMem c.frame around) sock c.frame.length
      c.frame.length 0 0 opts srv
    = processLoop (fun _ srv => srv) (bufMem c.frame around) sock c.frame.length
      (k + 1) 0 0 opts srv from by rw [← hk],
    processLoop_cmd (bufMem_at _ _) hc (by omega), hafter]
  dsimp only
  split
  · exact ⟨_, rfl, rfl⟩
  · rw [processLoop_end (by omega)]
    exact ⟨_, rfl, List.append_nil _⟩

/-- Nobody waits on the queue, and there is room. -/
structure QueueIdle (fqm : Fqm) : Prop where
  queue : fqm.queue = []
  nitems : fqm.nitems = 0
  room : fqm.maxitems ≠ 0

theorem serveQueue_empty {cols : Bytes} {mysql : Bytes → MysqlReply} {srv : Shared}
    (h : srv.fqm.queue = []) : serveQueue cols mysql srv.fqm.queue.length srv = some ([], srv) := by
  rw [h]
  rfl

section Serve

variable {κ : Type} (site : Site) (t : Service κ) {c : κ} {fqm : Fqm}

/-- The server in the state of the service. -/
def Service.server (fqm : Fqm) : Shared := { t.shared site with fqm := fqm }

/-- A response is sent if it fits. -/
theorem sendResponse_sent (tid : UInt16) (code : Byte) (aa : List Bytes) :
    (sendResponse tid code aa).sent = if Fits aa then [responseFrame tid code aa] else [] := by
  rw [sendResponse_eq]
  split
  · rfl
  · rfl

/-- A request that was queued is answered by a worker, and the queue is as it was; if the server
survives what came of the query. -/
theorem serveQueue_one (hidle : QueueIdle fqm) (sock : Nat) (tid : UInt16) {key : Bytes}
    (hnul : 0 ∉ key) (mysql : Bytes → MysqlReply) :
    (getQueued tid sock key (t.server site fqm)).1.sent = [] ∧
      serveQueue site.cols mysql (getQueued tid sock key (t.server site fqm)).2.fqm.queue.length
          (getQueued tid sock key (t.server site fqm)).2
        = (mysqlRow mysql site.cols t.cdb key).map fun row =>
          ((sendResponse tid NASTOK (rowItems row)).sent,
            if row.1 ≠ -1 ∧ Fits row.2 then
              Service.server site
                { t with cache := t.cache.add site.nullCacheTimeout t.now key row.2 } fqm
            else t.server site fqm) := by
  obtain ⟨queue, nitems, maxitems⟩ := fqm
  obtain ⟨rfl, rfl, hroom⟩ := hidle
  have hpush : (fqmPush (t.server site ⟨[], 0, maxitems⟩).fqm (reqNew sock tid key))
      = (0, ⟨[reqNew sock tid key], 1, maxitems⟩) := by
    unfold fqmPush
    rw [if_neg fun h => hroom h.symm]
    rfl
  have hkey : cstr (reqNew sock tid key).req = key := cstr_of_not_mem hnul
  unfold getQueued
  rw [hpush, if_neg (show (0 : Int) ≠ -1 by decide)]
  refine ⟨rfl, ?_⟩
  show ((mysqlRow mysql site.cols t.cdb (cstr (reqNew sock tid key).req)).map fun row =>
    fallthroughRow row (reqNew sock tid key) (t.server site ⟨[], 0, maxitems⟩)).bind
      (fun f => some (f.1.sent ++ [], f.2)) = _
  rw [hkey]
  cases mysqlRow mysql site.cols t.cdb key with
  | none => rfl
  | some row =>
    rw [Option.map_some, Option.bind_some, List.append_nil, fallthroughRow_sent, fallthroughRow_srv,
      hkey]
    rfl

/-- What `do_get` answers by itself is what the service has without MySQL. -/
theorem here_eq (key : Bytes) (after : Nat → Byte) :
    getItems (t.opts c) key after (t.server site fqm) = t.here site c key after :=
  getItems_layers (t.opts c) key (t.server site fqm) after

/-- A GET: one frame with the answer of the service, and the cache it leaves. -/
theorem serve_get (hidle : QueueIdle fqm) (sock : Nat) (tid : UInt16) {key : Bytes}
    (hnul : 0 ∉ key) (after : Nat → Byte) (mysql : Bytes → MysqlReply) :
    (serveQueue site.cols mysql
        (doGet sock tid (t.opts c) key after (t.server site fqm)).2.fqm.queue.length
        (doGet sock tid (t.opts c) key after (t.server site fqm)).2).map
        (fun q => ((doGet sock tid (t.opts c) key after (t.server site fqm)).1.sent ++ q.1, q.2))
      = (t.found site c key after mysql).map fun r =>
        ((sendResponse tid NASTOK r.1).sent, Service.server site { t with cache := r.2 } fqm) := by
  have hitems : getItems (t.opts c) key after (t.server site fqm) = t.here site c key after :=
    here_eq site t key after
  unfold Service.found
  rw [doGet_eq]
  cases hhere : t.here site c key after with
  | some aa =>
    rw [hitems, hhere]
    dsimp only
    rw [@serveQueue_empty site.cols mysql { t.server site fqm with
      memdb := getMemdb (t.opts c) key (t.server site fqm) } hidle.queue, Option.map_some,
      List.append_nil]
    rfl
  | none =>
    -- a worker answers
    rw [hitems, hhere]
    dsimp only
    obtain ⟨hnone, hserve⟩ := serveQueue_one site
      { t with cache := getMemdb (t.opts c) key (t.shared site) } hidle sock tid hnul mysql
    have hqueued : getQueued tid sock key { t.server site fqm with
        memdb := getMemdb (t.opts c) key (t.server site fqm) }
        = getQueued tid sock key (Service.server site
          { t with cache := getMemdb (t.opts c) key (t.shared site) } fqm) := rfl
    rw [hqueued, hnone, hserve, Option.map_map, Option.map_map]
    refine congrArg (Option.map · _) (funext fun row => ?_)
    dsimp only [Function.comp]
    rw [List.nil_append]
    split
    · rfl
    · rfl

/-- The option bytes say all there is to the options. -/
theorem setOpts_optText (behind : Byte) (old opts : NastOptions) :
    setOpts behind old (optText opts) = (opts, true) := by
  have hflag : ∀ b : Bool, decide ((if b then OPTTRUE else OPTFALSE) ≠ OPTFALSE) = b := by decide
  have hset : ∀ (o : NastOptions) (v : Byte),
      setOpt o OPTQCACHE v = some { o with useQcache := decide (v ≠ OPTFALSE) } ∧
      setOpt o OPTLOCALDB v = some { o with useLocaldb := decide (v ≠ OPTFALSE) } ∧
      setOpt o OPTFALLASYNC v = some { o with fallthroughAsync := decide (v ≠ OPTFALSE) } ∧
      setOpt o OPTALWAYSFALL v = some { o with alwaysFallthrough := decide (v ≠ OPTFALSE) } ∧
      setOpt o OPTFAILONCE v = some { o with failOnce := decide (v ≠ OPTFALSE) } ∧
      setOpt o OPTNOFALLTHROUGH v = some { o with noFallthrough := decide (v ≠ OPTFALSE) } :=
    fun _ _ => ⟨rfl, rfl, rfl, rfl, rfl, rfl⟩
  simp only [optText, setOpts, (hset _ _).1, (hset _ _).2.1, (hset _ _).2.2.1, (hset _ _).2.2.2.1,
    (hset _ _).2.2.2.2.1, (hset _ _).2.2.2.2.2, hflag]

/-- No option byte is a separator. -/
theorem sep_not_mem_optText (opts : NastOptions) : NASTSEP ∉ optText opts := by
  have hflag : ∀ b : Bool, NASTSEP ≠ if b then OPTTRUE else OPTFALSE := by decide
  simp only [optText, List.mem_cons, List.not_mem_nil, or_false, not_or]
  simp only [hflag, not_false_eq_true, and_true, true_and]
  exact ⟨by decide, by decide, by decide, by decide, by decide, by decide⟩

theorem fits_optText (opts : NastOptions) : Fits [optText opts] := by
  show 5 + (joinItems [optText opts]).length ≤ 1024
  rw [joinItems_single]
  exact Nat.le_of_ble_eq_true rfl

/-- An OPTSET of the client's: the options it names. -/
theorem doOptSet_bytes (tid : UInt16) (old opts : NastOptions) (after : Nat → Byte) :
    doOptSet tid old (optionBytes opts) after = (sendResponse tid NASTOK [], opts) := by
  have hbytes : optionBytes opts = optText opts := rfl
  unfold doOptSet
  rw [hbytes, setOpts_optText]
  rfl

/-- An update of the client's: `memdb_upd` with its key and its values. -/
theorem doUpdate_values (tid : UInt16) {key : Bytes} {vals : List Bytes} (hkey : NASTSEP ∉ key)
    (hvals : ∀ v ∈ vals, NASTSEP ∉ v ∧ v ≠ []) (srv : Shared) :
    (doUpdate tid (key ++ NASTSEP :: [NASTSEP].intercalate vals) srv).1.sent
        = (if (srv.memdb.upd srv.cdb.dbFieldcount srv.now key vals).1 = -1
          then sendResponse tid NASTERR [ascii "Couldn't update cache"]
          else sendResponse tid NASTOK []).sent ∧
      (doUpdate tid (key ++ NASTSEP :: [NASTSEP].intercalate vals) srv).2
        = { srv with memdb := (srv.memdb.upd srv.cdb.dbFieldcount srv.now key vals).2 } := by
  have hall : ∀ b ∈ key, decide (b ≠ NASTSEP) = true := by
    intro b hb
    have hne : b ≠ NASTSEP := fun he => hkey (he ▸ hb)
    simpa using hne
  have htake : (key ++ NASTSEP :: [NASTSEP].intercalate vals).takeWhile (· ≠ NASTSEP) = key := by
    rw [List.takeWhile_append_of_pos hall, List.takeWhile_cons_of_neg (by simp), List.append_nil]
  have hdrop : (key ++ NASTSEP :: [NASTSEP].intercalate vals).drop (key.length + 1)
      = [NASTSEP].intercalate vals := by
    rw [← List.drop_drop, List.drop_left']
    · rfl
    · rfl
  have hlen : key.length ≠ (key ++ NASTSEP :: [NASTSEP].intercalate vals).length := by
    rw [List.length_append, List.length_cons]
    omega
  have hjoin := buildArray_join (fun v hv => (hvals v hv).1) fun v hv => (hvals v hv).2
  unfold doUpdate
  rw [htake]
  dsimp only
  rw [if_neg hlen, hdrop, hjoin]
  exact ⟨rfl, rfl⟩

end Serve

/-! ## One call -/

/-- The request of a call, as the command it is. -/
def Api.cmd (tid : UInt16) : Api → Cmd
  | get key => ⟨tid, NASTGET, key⟩
  | upd key vals => updCmd tid key vals
  | optionsSet opts => ⟨tid, NASTOPTSET, optionBytes opts⟩
  | optionsGet _ => ⟨tid, NASTOPTGET, []⟩
  | stats => ⟨tid, NASTSTATS, []⟩

theorem Api.request_eq {api : Api} (hok : api.Ok) (tid : UInt16) (stack : Nat → Byte) :
    api.request tid stack = some (api.cmd tid).frame ∧ (api.cmd tid).Framed := by
  cases api with
  | get key =>
    obtain ⟨hnul, hlen⟩ := hok
    refine ⟨congrArg (fun x : ApiCall => some x.sent) (keyRequest_frame hnul hlen), ?_⟩
    show 6 + key.length < 0x8000
    omega
  | upd key vals =>
    obtain ⟨hnul, -, hlen, -, -, hsize⟩ := hok
    refine ⟨nastUpd_frame hnul hsize hlen, ?_⟩
    show (updCmd tid key vals).size < 0x8000
    rw [updCmd_size]
    omega
  | optionsSet opts => exact ⟨rfl, show (18 : Nat) < 0x8000 by decide⟩
  | optionsGet opts => exact ⟨rfl, show (6 : Nat) < 0x8000 by decide⟩
  | stats => exact ⟨rfl, show (6 : Nat) < 0x8000 by decide⟩

section Calls

variable {κ : Type} {site : Site} {t t' : Service κ} {c : κ} {fqm : Fqm} {tid : UInt16} {api : Api}
  {sent : List Bytes} {ans : Answer} {line : Line}

/-- The frames that a call's answer is made of: one with a response that fits, or none. -/
inductive Replies (t : Service κ) (c : κ) (tid : UInt16) : Api → List Bytes → Answer → Prop
  | good {api : Api} {aa : List Bytes} : (∀ old, api ≠ .optionsGet old) → Fits aa →
      Replies t c tid api [responseFrame tid NASTOK aa] (.good aa none)
  | silent {api : Api} : (∀ old, api ≠ .optionsGet old) → Replies t c tid api [] .timedOut
  | options {old : NastOptions} :
      Replies t c tid (.optionsGet old) [responseFrame tid NASTOK [optText (t.opts c)]]
        (.good [optText (t.opts c)] (some (t.opts c)))
  | bad {api : Api} {text : Bytes} : (∀ old, api ≠ .optionsGet old) → NASTSEP ∉ text →
      Fits [text] → Replies t c tid api [responseFrame tid NASTERR [text]] (.bad text)

/-- A good response, whether it fits or not. -/
theorem replies_sent (aa : List Bytes) (hget : ∀ old, api ≠ .optionsGet old) :
    Replies t c tid api (sendResponse tid NASTOK aa).sent
      (if Fits aa then .good aa none else .timedOut) := by
  rw [sendResponse_sent]
  by_cases hfits : Fits aa
  · rw [if_pos hfits, if_pos hfits]
    exact .good hget hfits
  · rw [if_neg hfits, if_neg hfits]
    exact .silent hget

/-- What the server does for a call: it sends what the answer is made of, and is in the state of
the service. -/
theorem serve_call [DecidableEq κ] (hidle : QueueIdle fqm) (hok : api.Ok)
    (h : t.answer site c line api = some (ans, t')) (sock : Nat) (tid : UInt16) :
    ∃ r : Outcome × NastOptions × Shared, ∃ rows,
      handleCmd sock (api.cmd tid).reqid (api.cmd tid).cmd (api.cmd tid).args
          (fun j => line.around (6 + (api.cmd tid).args.length + j)) (t.opts c)
          (t.server site fqm) = r ∧
      serveQueue site.cols line.mysql r.2.2.fqm.queue.length r.2.2
        = some (rows, t'.server site fqm) ∧
      Replies t c tid api (r.1.sent ++ rows) ans ∧
      t'.opts = Function.update t.opts c r.2.1 ∧ t'.held = t.held := by
  have hsame : t.opts = Function.update t.opts c (t.opts c) := (Function.update_eq_self ..).symm
  -- a handler that leaves the queue alone
  have hhere : ∀ {r : Outcome × NastOptions × Shared} {sent : List Bytes},
      handleCmd sock (api.cmd tid).reqid (api.cmd tid).cmd (api.cmd tid).args
          (fun j => line.around (6 + (api.cmd tid).args.length + j)) (t.opts c)
          (t.server site fqm) = r →
      r.2.2 = t'.server site fqm → r.1.sent = sent → Replies t c tid api sent ans →
      t'.opts = Function.update t.opts c r.2.1 → t'.held = t.held →
      ∃ r : Outcome × NastOptions × Shared, ∃ rows,
        handleCmd sock (api.cmd tid).reqid (api.cmd tid).cmd (api.cmd tid).args
            (fun j => line.around (6 + (api.cmd tid).args.length + j)) (t.opts c)
            (t.server site fqm) = r ∧
        serveQueue site.cols line.mysql r.2.2.fqm.queue.length r.2.2
          = some (rows, t'.server site fqm) ∧
        Replies t c tid api (r.1.sent ++ rows) ans ∧
        t'.opts = Function.update t.opts c r.2.1 ∧ t'.held = t.held := by
    intro r sent hcmd hsrv hsent hreply hopts hheld
    refine ⟨r, [], hcmd, ?_, ?_, hopts, hheld⟩
    · rw [hsrv]
      exact @serveQueue_empty site.cols line.mysql (t'.server site fqm) hidle.queue
    · rw [List.append_nil, hsent]
      exact hreply
  cases api with
  | get key =>
    obtain ⟨found, hfound, heq⟩ := Option.map_eq_some_iff.mp h
    obtain ⟨rfl, rfl⟩ := Prod.mk.inj heq
    have hserve := serve_get site t (c := c) hidle sock tid hok.1
      (fun j => line.around (6 + key.length + j)) line.mysql
    rw [hfound] at hserve
    obtain ⟨q, hq, hsame'⟩ := Option.map_eq_some_iff.mp hserve
    obtain ⟨hsent, hsrv⟩ := Prod.mk.inj hsame'
    have hreply : Replies t c tid (.get key) _ _ := replies_sent found.1 (by simp)
    rw [← hsent] at hreply
    refine ⟨_, q.1, rfl, ?_, hreply, hsame, rfl⟩
    rw [← hsrv]
    exact hq
  | upd key vals =>
    obtain ⟨-, hkey, -, -, hvals, -⟩ := hok
    obtain ⟨hsent, hsrv⟩ := doUpdate_values tid hkey hvals (t.server site fqm)
    simp only [Service.answer] at h
    split at h
    · next hcount =>
      obtain ⟨rfl, rfl⟩ := Prod.mk.inj (Option.some.inj h)
      have hupd : (t.server site fqm).memdb.upd (t.server site fqm).cdb.dbFieldcount
          (t.server site fqm).now key vals
            = (0, Function.update t.cache key (some (.value vals t.now))) := by
        unfold CacheMap.upd
        rw [if_neg fun hne => hne hcount]
        rfl
      rw [hupd] at hsent hsrv
      rw [if_neg (show (0 : Int) ≠ -1 by decide)] at hsent
      exact hhere rfl hsrv hsent (replies_sent [] (by simp)) hsame rfl
    · next hcount =>
      obtain ⟨rfl, rfl⟩ := Prod.mk.inj (Option.some.inj h)
      have hupd : (t.server site fqm).memdb.upd (t.server site fqm).cdb.dbFieldcount
          (t.server site fqm).now key vals = (-1, t.cache) := if_pos hcount
      rw [hupd] at hsent hsrv
      rw [if_pos rfl, sendResponse_sent, if_pos (by decide)] at hsent
      exact hhere rfl hsrv hsent (.bad (by simp) (by decide) (by decide)) hsame rfl
  | optionsSet opts =>
    obtain ⟨rfl, rfl⟩ := Prod.mk.inj (Option.some.inj h)
    have hset := doOptSet_bytes tid (t.opts c) opts
      fun j => line.around (6 + ((Api.optionsSet opts).cmd tid).args.length + j)
    refine hhere (r := (sendResponse tid NASTOK [], opts, t.server site fqm)) ?_ rfl rfl
      (replies_sent [] (by simp)) rfl rfl
    show ((doOptSet tid (t.opts c) (optionBytes opts) _).1,
      (doOptSet tid (t.opts c) (optionBytes opts) _).2, t.server site fqm) = _
    rw [hset]
  | optionsGet old =>
    obtain ⟨rfl, rfl⟩ := Prod.mk.inj (Option.some.inj h)
    have hsent : (sendResponse tid NASTOK [optText (t.opts c)]).sent
        = [responseFrame tid NASTOK [optText (t.opts c)]] := by
      rw [sendResponse_sent, if_pos (fits_optText _)]
    exact hhere rfl rfl hsent .options hsame rfl
  | stats =>
    obtain ⟨rfl, rfl⟩ := Prod.mk.inj (Option.some.inj h)
    exact hhere rfl rfl rfl (replies_sent _ (by simp)) hsame rfl

/-- Only a GET can stop it, by what comes of the query. -/
theorem serve_crash [DecidableEq κ] (hidle : QueueIdle fqm) (hok : api.Ok)
    (h : t.answer site c line api = none) (sock : Nat) (tid : UInt16) :
    ∃ r : Outcome × NastOptions × Shared,
      handleCmd sock (api.cmd tid).reqid (api.cmd tid).cmd (api.cmd tid).args
          (fun j => line.around (6 + (api.cmd tid).args.length + j)) (t.opts c)
          (t.server site fqm) = r ∧
      serveQueue site.cols line.mysql r.2.2.fqm.queue.length r.2.2 = none := by
  cases api with
  | get key =>
    have hfound := Option.map_eq_none_iff.mp h
    have hserve := serve_get site t (c := c) hidle sock tid hok.1
      (fun j => line.around (6 + key.length + j)) line.mysql
    rw [hfound] at hserve
    exact ⟨_, rfl, Option.map_eq_none_iff.mp hserve⟩
  | upd key vals =>
    simp only [Service.answer] at h
    split at h
    · exact absurd h (by simp)
    · exact absurd h (by simp)
  | optionsSet opts => exact absurd h (by simp [Service.answer])
  | optionsGet old => exact absurd h (by simp [Service.answer])
  | stats => exact absurd h (by simp [Service.answer])

/-- What the caller makes of what there is in its slot, where that is not options. -/
theorem finish_plain {s : Nasth} {rc : Int} {err : Errcode} {errmsg : Bytes} {result : List Bytes}
    (hget : ∀ old, api ≠ .optionsGet old) (herr : nastGeterr s tid = some err)
    (hmsg : nastErrmsg s tid = some errmsg) (hresult : nastGetResult s tid = some (some result))
    (stack : Nat → Byte) :
    api.finish tid stack rc s = some (⟨rc, err, errmsg, result, none⟩, s) := by
  cases api with
  | optionsGet old => exact absurd rfl (hget old)
  | _ =>
    simp only [Api.finish, Option.bind_eq_bind, Option.bind_some, herr, hmsg, hresult,
      Option.getD_some]
    rfl

/-- The message of an error that is not the server's. -/
theorem errmsg_own {s : Nasth} {err : Errcode} (herr : nastGeterr s tid = some err)
    (hown : err ≠ .NAST_SERVER_ERR) : nastErrmsg s tid = some (nastErrmsgs err) := by
  unfold nastErrmsg
  rw [herr]
  exact if_neg hown

/-- What the options are read from is what the server wrote. -/
theorem read_options {s : Nasth} {opts : NastOptions}
    (hresult : nastGetResult s tid = some (some (buildResult (joinItems [optText opts]))))
    (old : NastOptions) (behind : Byte) :
    nastOptionsRead s tid old behind = some (0, s, opts) := by
  have hitem : buildResult (joinItems [optText opts]) = [optText opts] :=
    buildResult_join fun v hv => List.mem_singleton.mp hv ▸ sep_not_mem_optText _
  have hlen : (optText opts).length ≤ 512 := Nat.le_of_ble_eq_true rfl
  unfold nastOptionsRead
  rw [hresult, hitem]
  dsimp only
  rw [List.take_of_length_le hlen, setOpts_optText]
  rfl

/-- How a call ends at the client, whose slot is empty: with the answer of the service. -/
theorem call_ends {s : Nasth} {ar : NastResponse} (htid : tid ≠ 0) (hff : tid ≠ 0xffff)
    (hquiet : line.quiet ≤ 50) (hreply : Replies t c tid api sent ans)
    (hslot : s.slot tid = some ar) (hhas : s.has tid = false) (hlen : ar.bufflen = 0)
    (hheld : held ar.buffer ≠ .response) :
    ∃ rc s', getresponse tid 0 s (line.turns sent.flatten) = some (.done rc s') ∧
      api.finish tid line.stack rc s' = some (ans, s') ∧
      heldBy s' tid = (if ans.err = .NAST_TIMEDOUT then held ar.buffer else .response) ∧
      ∀ r, r ≠ tid → heldBy s' r = heldBy s r := by
  have hisSome := Option.isSome_iff_exists.mpr ⟨ar, hslot⟩
  -- one frame that fits
  have hframe : ∀ (code : Byte) {aa : List Bytes}, Fits aa →
      ∃ s', getresponse tid 0 s (line.turns [responseFrame tid code aa].flatten)
          = some (.done (if errcodeOf code = .NAST_OK then 0 else -1) s') ∧
        nastGeterr s' tid = some (errcodeOf code) ∧
        nastGetResult s' tid = some (some (buildResult (joinItems aa))) ∧
        heldBy s' tid = .response ∧ ∀ r, r ≠ tid → heldBy s' r = heldBy s r := by
    intro code aa hfits
    have hne : responseFrame tid code aa ≠ [] := List.cons_ne_nil _ _
    obtain ⟨s', hget, hfilled, hsame⟩ :=
      getresponse_reply htid hff hisSome hhas hquiet code hfits line.around'
    refine ⟨s', ?_, geterr_slot hfilled, nastGetResult_slot htid hfilled rfl rfl,
      heldBy_slot hfilled, fun r hr => heldBy_congr (hsame r hr)⟩
    unfold Line.turns
    rw [List.flatten_singleton, if_neg hne]
    exact hget
  cases hreply with
  | good hget hfits =>
    obtain ⟨s', hdone, herr, hresult, hself, hsame⟩ := hframe NASTOK hfits
    exact ⟨_, s', hdone, finish_plain hget herr (errmsg_own herr (by decide)) hresult _, hself,
      hsame⟩
  | silent hget =>
    obtain ⟨s', hdone, hself, hsame⟩ := getresponse_silence htid hhas hslot
    have hresult : nastGetResult s' tid = some (some (buildResult [])) := by
      unfold nastGetResult NastResponse.bytes
      rw [if_neg htid, hself]
      dsimp only
      split
      · next hdata => exact absurd (congrArg held hdata) hheld
      · rw [hlen]
        rfl
    have herr : nastGeterr s' tid = some .NAST_TIMEDOUT := geterr_slot hself
    have hbuf : heldBy s' tid = held ar.buffer := by
      unfold heldBy
      rw [hself]
    exact ⟨-1, s', hdone, finish_plain hget herr (errmsg_own herr (by decide)) hresult _, hbuf,
      fun r hr => heldBy_congr (hsame r hr)⟩
  | options =>
    obtain ⟨s', hdone, herr, hresult, hself, hsame⟩ := hframe NASTOK (fits_optText _)
    refine ⟨_, s', hdone, ?_, hself, hsame⟩
    have hrc : (if errcodeOf NASTOK = .NAST_OK then (0 : Int) else -1) = 0 := rfl
    simp only [Api.finish, hrc, if_true, read_options hresult, Option.bind_eq_bind,
      Option.map_some, Option.bind_some, herr, errmsg_own herr (by decide), hresult,
      Option.getD_some]
    rfl
  | @bad _ text hget hsep hfits =>
    obtain ⟨s', hdone, herr, hresult, hself, hsame⟩ := hframe NASTERR hfits
    have hitem : buildResult (joinItems [text]) = [text] :=
      buildResult_join fun v hv => List.mem_singleton.mp hv ▸ hsep
    rw [hitem] at hresult
    have hmsg : nastErrmsg s' tid = some text := by
      unfold nastErrmsg
      rw [herr, hresult]
      rfl
    exact ⟨_, s', hdone, finish_plain hget herr hmsg hresult _, hself, hsame⟩

end Calls

/-! ## The refinement -/

section Refinement

variable {κ : Type} [DecidableEq κ] {site : Site} {sock : κ → Nat}

/-- The deployment is in the state of the service, and nobody waits for a worker. -/
structure Serves (site : Site) (d : Deployment κ) (t : Service κ) : Prop where
  srv : d.srv = t.server site d.srv.fqm
  idle : QueueIdle d.srv.fqm
  opts : d.opts = t.opts
  held : ∀ c tid, heldBy (d.handle c) tid = t.held c tid

/-- One call: the deployment answers what the service answers. -/
theorem call_refines (sock : κ → Nat) {d : Deployment κ} {t : Service κ} {c : κ} {tid : UInt16}
    {api : Api} {line : Line} (hok : (Event.call c tid api line).Ok) (h : Serves site d t) :
    (d.call site.cols sock c tid line api = none ∧ t.call site c tid line api = none) ∨
      ∃ ans d' t', d.call site.cols sock c tid line api = some (ans, d') ∧
        t.call site c tid line api = some (ans, t') ∧ Serves site d' t' := by
  obtain ⟨htid, hff, hapi, hquiet⟩ := hok
  obtain ⟨hsrv, hidle, hopts, hheld⟩ := h
  obtain ⟨hrequest, hframed⟩ := Api.request_eq hapi tid line.stack
  obtain ⟨hstuck, hready⟩ := sendcmd_held (s := d.handle c) htid
  rw [hheld c tid] at hstuck hready
  unfold Deployment.call Service.call
  rw [hrequest]
  by_cases hfreed : t.held c tid = .freed
  · rw [hstuck hfreed, if_pos hfreed]
    exact Or.inl ⟨rfl, rfl⟩
  obtain ⟨s₀, ar, hsend, hslot, hhas, hlen, hbuf, hothers⟩ := hready hfreed
  rw [if_neg hfreed]
  have hprocess := processCmd_one hframed line.around (sock c) (t.opts c)
    (t.server site d.srv.fqm)
  cases hanswer : t.answer site c line api with
  | none =>
    -- the server stops
    obtain ⟨r, hcmd, hserve⟩ := serve_crash hidle hapi hanswer (sock c) tid
    obtain ⟨out, hprocess, -⟩ := hprocess
    rw [hcmd] at hprocess
    refine Or.inl ⟨?_, rfl⟩
    rw [Option.bind_eq_bind, Option.bind_some, hsend, Option.bind_eq_bind, Option.bind_some,
      hopts, hsrv]
    rw [hprocess, Option.bind_eq_bind, Option.bind_some]
    dsimp only
    rw [hserve]
    rfl
  | some answered =>
    obtain ⟨ans, t'⟩ := answered
    -- the server's part
    obtain ⟨r, rows, hcmd, hserve, hreply, hopts', hheld'⟩ :=
      serve_call hidle hapi hanswer (sock c) tid
    obtain ⟨out, hprocess, hout⟩ := hprocess
    rw [hcmd] at hprocess hout
    rw [← hout] at hreply
    -- and what it wrote, back at the client
    have hnoresponse : held ar.buffer ≠ .response := by
      rw [hbuf]
      split
      · decide
      · decide
    obtain ⟨rc, s₁, hget, hfinish, hself, hsame⟩ :=
      call_ends htid hff hquiet hreply hslot hhas hlen hnoresponse
    refine Or.inr ⟨ans, ⟨t'.server site d.srv.fqm, Function.update d.opts c r.2.1,
      Function.update d.handle c s₁⟩, { t' with
        held := Function.update t.held c
          (Function.update (t.held c) tid (Held.after (t.held c tid) ans)) }, ?_, ?_,
      ⟨rfl, hidle, ?_, ?_⟩⟩
    · rw [Option.bind_eq_bind, Option.bind_some, hsend, Option.bind_eq_bind, Option.bind_some,
        hopts, hsrv]
      rw [hprocess, Option.bind_eq_bind, Option.bind_some]
      dsimp only
      rw [hserve, Option.bind_eq_bind, Option.bind_some]
      dsimp only
      rw [hget, Option.bind_eq_bind, Option.bind_some]
      dsimp only
      rw [hfinish]
      rfl
    · rfl
    · rw [hopts]
      exact hopts'.symm
    · intro c' q
      show heldBy (Function.update d.handle c s₁ c') q = Function.update t.held c _ c' q
      by_cases hc : c' = c
      · rw [hc, Function.update_self, Function.update_self]
        by_cases hq : q = tid
        · rw [hq, Function.update_self, hself, hbuf]
          unfold Held.after
          cases hwas : t.held c tid with
          | nothing => rfl
          | response => rfl
          | freed => exact absurd hwas hfreed
        · rw [Function.update_of_ne hq, hsame q hq, hothers q hq, hheld c q]
      · rw [Function.update_of_ne hc, Function.update_of_ne hc, hheld c' q]

/-- One event. -/
theorem step_refines (d : Deployment κ) (t : Service κ) (e : Event κ) (hok : e.Ok)
    (h : Serves site d t) :
    (d.step site.cols sock e = none ∧ t.serviceStep site e = none) ∨
      ∃ o d' t', d.step site.cols sock e = some (o, d') ∧ t.serviceStep site e = some (o, t') ∧
        Serves site d' t' := by
  cases e with
  | call c tid api line =>
    dsimp only [Deployment.step, Service.serviceStep]
    rcases call_refines sock hok h with ⟨hd, ht⟩ | ⟨ans, d', t', hd, ht, hserves⟩
    · rw [hd, ht]
      exact Or.inl ⟨rfl, rfl⟩
    · rw [hd, ht]
      exact Or.inr ⟨some ans, d', t', rfl, rfl, hserves⟩
  | clock now =>
    refine Or.inr ⟨none, _, _, rfl, rfl, ⟨?_, h.idle, h.opts, h.held⟩⟩
    show { d.srv with now := now } = _
    rw [h.srv]
    rfl
  | periodic seen opened =>
    have hloaded : d.srv.cdb = t.cdb := congrArg Shared.cdb h.srv
    dsimp only [Deployment.step, Service.serviceStep]
    rw [hloaded]
    cases cdbPeriodic seen opened t.cdb with
    | none => exact Or.inl ⟨rfl, rfl⟩
    | some cdb =>
      refine Or.inr ⟨none, { d with srv := { d.srv with cdb := cdb } }, { t with cdb := cdb }, rfl,
        rfl, ⟨?_, h.idle, h.opts, h.held⟩⟩
      show { d.srv with cdb := cdb } = _
      rw [h.srv]
      rfl

omit [DecidableEq κ] in
theorem fresh_serves {cdb : Cdb} {now maxitems : Int} (hroom : maxitems ≠ 0) :
    Serves site (Deployment.fresh (κ := κ) site cdb now maxitems) (Service.fresh cdb now) := by
  refine ⟨rfl, ⟨rfl, rfl, hroom⟩, rfl, fun _ tid => ?_⟩
  show heldBy ⟨[]⟩ tid = .nothing
  have hslot : Nasth.slot ⟨[]⟩ tid = none := by simp [Nasth.slot]
  unfold heldBy
  rw [hslot]

/-- A site, and circumstances of a call, for what follows. -/
def bobSite : Site := ⟨[], 300, 0, []⟩

def bobSock : Bool → Nat
  | true => 4
  | false => 5

def noOptions : NastOptions := ⟨false, false, false, false, false, false⟩

def bobLine : Line := ⟨fun _ => .connFail false, fun _ => 0, fun _ => 0, fun _ => 0, 0⟩

end Refinement

end Nastd
