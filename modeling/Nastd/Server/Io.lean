import Nastd.Server.CacheMap
import Nastd.Server.Fqm
import Nastd.Server.Mysqldb
import Nastd.Server.Response

/-!
# Commands

`server/nastdio.c`: the handlers behind the socket, and `process_cmd`, which cuts a
received buffer into commands. A handler returns its code and what it did: the frames
it wrote, the requests it queued, the calls of `memdb_upd` it made. Writes and
allocations succeed. The cache is the map that `Server/CacheMap.lean` shows `memdb.c`
to be; each handler runs without another thread in between.

The handlers depart from the source in two places. `do_update` copies the key into a
block of its own, ends the copy with a NUL one byte behind that block and never frees it;
here the key goes to the cache as it stands in the buffer. `do_fallthrough` is `none`
where `mysqldb_get` stops the server.

`process_cmd` reads through a pointer, so it gets the memory around the buffer as a
function. A length of its commands below 6 makes the argument length wrap around to
nearly the whole address space (`none` for a handler that reads its arguments), and
one of at most 0 does not move the pointer forward, hence the fuel.
-/

namespace Nastd.Server

/-- `nast_options`, for one connection. -/
structure NastOptions where
  useQcache : Bool
  useLocaldb : Bool
  fallthroughAsync : Bool
  alwaysFallthrough : Bool
  failOnce : Bool
  noFallthrough : Bool
  deriving DecidableEq, Repr

/-- `set_default_opts`. -/
def defaultOpts : NastOptions where
  useQcache := true
  useLocaldb := true
  fallthroughAsync := false
  alwaysFallthrough := false
  failOnce := false
  noFallthrough := false

/-- What all threads share, and the clock. `statLines` are the lines that
`mysqldb_stats`, `cdb_stats` and `memdb_stats` print. -/
structure Shared where
  memdb : CacheMap
  cdb : Cdb
  fqm : Fqm
  now : Int
  nullCacheTimeout : Int
  startTime : Int
  statLines : List Bytes

/-- What a handler did. -/
structure Outcome where
  rc : Int
  sent : List Bytes
  queued : List Request
  updated : List (Bytes × List Bytes)

/-- Nothing done yet. -/
def Outcome.idle (rc : Int) : Outcome := ⟨rc, [], [], []⟩

/-- What came before, and then this. -/
def Outcome.andThen (a b : Outcome) : Outcome :=
  ⟨b.rc, a.sent ++ b.sent, a.queued ++ b.queued, a.updated ++ b.updated⟩

/-- `arr_send_response` and `send_response`: 0 with a frame written, or -1. -/
def sendResponse (reqid : UInt16) (rCode : Byte) (aa : List Bytes) : Outcome :=
  match arrSendResponse reqid rCode aa with
  | none => .idle (-1)
  | some frame => { Outcome.idle 0 with sent := [frame] }

/-- `send_response` of an error text, its return value thrown away. -/
def sendError (reqid : UInt16) (text : String) : Outcome :=
  { sendResponse reqid NASTERR [ascii text] with rc := -1 }

/-- One option of `do_opt_set`; `none` for one it does not know. -/
def setOpt (opts : NastOptions) (option value : Byte) : Option NastOptions :=
  let flag := decide (value ≠ OPTFALSE)
  if option = OPTQCACHE then some { opts with useQcache := flag }
  else if option = OPTLOCALDB then some { opts with useLocaldb := flag }
  else if option = OPTFALLASYNC then some { opts with fallthroughAsync := flag }
  else if option = OPTALWAYSFALL then some { opts with alwaysFallthrough := flag }
  else if option = OPTFAILONCE then some { opts with failOnce := flag }
  else if option = OPTNOFALLTHROUGH then some { opts with noFallthrough := flag }
  else none

/-- The loop of `do_opt_set`: the options after it, and whether it got to the end. The
value of a last lone option byte is the byte behind the command. -/
def setOpts (behind : Byte) : NastOptions → Bytes → NastOptions × Bool
  | opts, [] => (opts, true)
  | opts, [option] =>
    match setOpt opts option behind with
    | none => (opts, false)
    | some opts' => (opts', true)
  | opts, option :: value :: rest =>
    match setOpt opts option value with
    | none => (opts, false)
    | some opts' => setOpts behind opts' rest

/-- `do_opt_set`. Options before an unknown one stay set. -/
def doOptSet (reqid : UInt16) (opts : NastOptions) (buffer : Bytes) (after : Nat → Byte) :
    Outcome × NastOptions :=
  let r := setOpts (after 0) opts buffer
  if r.2 then (sendResponse reqid NASTOK [], r.1)
  else (sendError reqid "Sent unknown option", r.1)

/-- The text `do_opt_get` sends. -/
def optText (opts : NastOptions) : Bytes :=
  let flag := fun b : Bool => if b then OPTTRUE else OPTFALSE
  [OPTQCACHE, flag opts.useQcache, OPTLOCALDB, flag opts.useLocaldb,
    OPTFALLASYNC, flag opts.fallthroughAsync, OPTALWAYSFALL, flag opts.alwaysFallthrough,
    OPTFAILONCE, flag opts.failOnce, OPTNOFALLTHROUGH, flag opts.noFallthrough]

/-- `do_opt_get`. -/
def doOptGet (reqid : UInt16) (opts : NastOptions) : Outcome :=
  sendResponse reqid NASTOK [optText opts]

/-- The tail of `do_get`: to the queue, or answer with `aa`. -/
def getFallthrough (sock : Nat) (reqid : UInt16) (opts : NastOptions) (buffer : Bytes)
    (fallthroughFlag : Int) (aa : List Bytes) (srv : Shared) : Outcome × Shared :=
  if fallthroughFlag = -1 ∧ opts.noFallthrough = false then
    let req := reqNew sock reqid buffer
    let push := fqmPush srv.fqm req
    if push.1 = -1 then (sendError reqid "Couldn't add req to FQM", srv)
    else ({ Outcome.idle 0 with queued := [req] }, { srv with fqm := push.2 })
  else (sendResponse reqid NASTOK aa, srv)

/-- `do_get` from the CDB lookup on. -/
def getLocaldb (sock : Nat) (reqid : UInt16) (opts : NastOptions) (buffer : Bytes)
    (after : Nat → Byte) (srv : Shared) : Outcome × Shared :=
  if opts.alwaysFallthrough = false ∧ opts.useLocaldb = true then
    let r := cdbGet srv.cdb buffer after
    getFallthrough sock reqid opts buffer r.1 r.2 srv
  else getFallthrough sock reqid opts buffer (-1) [] srv

/-- `do_get`. -/
def doGet (sock : Nat) (reqid : UInt16) (opts : NastOptions) (buffer : Bytes)
    (after : Nat → Byte) (srv : Shared) : Outcome × Shared :=
  if opts.useQcache = true ∧ opts.alwaysFallthrough = false then
    let r := srv.memdb.get srv.now srv.cdb.cdbMtime buffer
    let srv' := { srv with memdb := r.2.2 }
    if r.1 = 0 then (sendResponse reqid NASTOK r.2.1, srv')
    else getLocaldb sock reqid opts buffer after srv'
  else getLocaldb sock reqid opts buffer after srv

/-- The loop of `build_array`: `cur` is what lies between `sp` and `ep`. A separator
right at `sp` ends nothing and stays part of the item. -/
def buildLoop : Bytes → Bytes → List Bytes
  | cur, [] => if cur.length > 0 then [cur] else []
  | cur, b :: rest =>
    if b = NASTSEP ∧ cur.length > 0 then cur :: buildLoop [] rest
    else buildLoop (cur ++ [b]) rest

/-- `build_array`. -/
def buildArray (buff : Bytes) : List Bytes := buildLoop [] buff

/-- `do_update`. -/
def doUpdate (reqid : UInt16) (buffer : Bytes) (srv : Shared) : Outcome × Shared :=
  let key := buffer.takeWhile (· ≠ NASTSEP)
  if key.length = buffer.length then
    (sendResponse reqid NASTERR [ascii "Need values for update"], srv)
  else
    let aa := buildArray (buffer.drop (key.length + 1))
    let r := srv.memdb.upd srv.cdb.dbFieldcount srv.now key aa
    let answer :=
      if r.1 = -1 then sendResponse reqid NASTERR [ascii "Couldn't update cache"]
      else sendResponse reqid NASTOK []
    ({ answer with updated := [(key, aa)] }, { srv with memdb := r.2 })

/-- `%02d`. -/
def pad2 (n : Int) : Bytes :=
  let digits := ascii (toString n)
  if digits.length < 2 then 0x30 :: digits else digits

/-- The two lines `do_stats` adds to those of the databases. -/
def uptimeLine (srv : Shared) : Bytes :=
  let uptime := srv.now - srv.startTime
  let day := uptime.tmod 86400
  let hour := day.tmod 3600
  ascii "Uptime: " ++ ascii (toString (uptime.tdiv 86400)) ++ ascii " day(s), " ++
    pad2 (day.tdiv 3600) ++ ascii ":" ++ pad2 (hour.tdiv 60) ++ ascii ":" ++ pad2 (hour.tmod 60)

def versionLine : Bytes := ascii "Version: nast 1.2.0-devel $Date: 2001/05/30 21:00:12 $"

/-- `do_stats`. -/
def doStats (reqid : UInt16) (srv : Shared) : Outcome :=
  sendResponse reqid NASTOK (srv.statLines ++ [uptimeLine srv, versionLine])

/-- `do_fallthrough`, with what `mysqldb_get` returned. The key is a C string here. -/
def fallthroughRow (row : Int × List Bytes) (req : Request) (srv : Shared) : Outcome × Shared :=
  if row.1 = -1 then ({ sendResponse req.reqid NASTOK [] with rc := -1 }, srv)
  else
    let answer := sendResponse req.reqid NASTOK row.2
    if answer.rc = -1 then (answer, srv)
    else
      (answer,
        { srv with memdb := srv.memdb.add srv.nullCacheTimeout srv.now (cstr req.req) row.2 })

/-- `do_fallthrough`, with MySQL's reply. -/
def doFallthrough (reply : MysqlReply) (req : Request) (srv : Shared) : Option (Outcome × Shared) :=
  (mysqldbGet srv.cdb.dbFieldcount reply).map fun row => fallthroughRow row req srv

/-- The `switch` of `process_cmd`. `after` is the memory behind the command. -/
def handleCmd (sock : Nat) (reqid : UInt16) (cmd : Byte) (args : Bytes) (after : Nat → Byte)
    (opts : NastOptions) (srv : Shared) : Outcome × NastOptions × Shared :=
  if cmd = NASTDIE then (.idle 1, opts, srv)
  else if cmd = NASTOPTSET then
    let r := doOptSet reqid opts args after
    (r.1, r.2, srv)
  else if cmd = NASTOPTGET then (doOptGet reqid opts, opts, srv)
  else if cmd = NASTGET then
    let r := doGet sock reqid opts args after srv
    (r.1, opts, r.2)
  else if cmd = NASTADD then (.idle 0, opts, srv)
  else if cmd = NASTDEL then (.idle 0, opts, srv)
  else if cmd = NASTUPD then
    let r := doUpdate reqid args srv
    (r.1, opts, r.2)
  else if cmd = NASTSTATS then (doStats reqid srv, opts, srv)
  else (.idle (-1), opts, srv)

/-- The handler of this command reads its arguments. -/
def readsArgs (cmd : Byte) : Bool :=
  decide (cmd = NASTOPTSET) || decide (cmd = NASTGET) || decide (cmd = NASTUPD)

/-- The loop of `process_cmd` from position `p` on. `env i` is what other threads do to
the shared state before command `i`. -/
def processLoop (env : Nat → Shared → Shared) (mem : Int → Byte) (sock : Nat)
    (bufflen : Int) :
    Nat → Int → Nat → NastOptions → Shared → Option (Outcome × NastOptions × Shared)
  | 0, p, _, opts, srv => if p < bufflen then none else some (.idle 0, opts, srv)
  | fuel + 1, p, i, opts, srv =>
    if p < bufflen then
      let len := short (ntohs (mem p) (mem (p + 1)))
      let reqid := ntohs (mem (p + 2)) (mem (p + 3))
      let cmd := mem (p + 5)
      if mem (p + 4) ≠ NASTCMD then some (.idle (-1), opts, env i srv)
      else if len < 6 ∧ readsArgs cmd = true then none
      else
        let args := (List.range (len - 6).toNat).map fun j : Nat => mem (p + 6 + j)
        let after := fun j : Nat => mem (p + len + j)
        match handleCmd sock reqid cmd args after opts (env i srv) with
        | (out, opts', srv') =>
          if out.rc = -1 ∨ out.rc = 1 then some (out, opts', srv')
          else
            (processLoop env mem sock bufflen fuel (p + len) (i + 1) opts' srv').map
              fun r => (out.andThen r.1, r.2)
    else some (.idle 0, opts, srv)

/-- `process_cmd`. -/
def processCmd (env : Nat → Shared → Shared) (mem : Int → Byte) (sock bufflen fuel : Nat)
    (opts : NastOptions) (srv : Shared) : Option (Outcome × NastOptions × Shared) :=
  if bufflen < 6 then some (.idle (-1), opts, srv)
  else processLoop env mem sock bufflen fuel 0 0 opts srv

/-- Memory with this buffer at position 0. -/
def bufMem (buffer : Bytes) (around : Int → Byte) (p : Int) : Byte :=
  if 0 ≤ p ∧ p < buffer.length then buffer.getD p.toNat 0 else around p

/-! ## What the handlers do -/

section Handlers

variable (reqid : UInt16) (rCode : Byte) (aa : List Bytes) (text : String)

/-- A response that fits is one frame and 0; any other is nothing and -1. -/
theorem sendResponse_eq :
    sendResponse reqid rCode aa
      = if Fits aa then { Outcome.idle 0 with sent := [responseFrame reqid rCode aa] }
        else .idle (-1) := by
  unfold sendResponse
  rw [arrSendResponse_eq]
  by_cases hfit : Fits aa
  · rw [if_pos hfit, if_pos hfit]
  · rw [if_neg hfit, if_neg hfit]

theorem sendResponse_rc : (sendResponse reqid rCode aa).rc = if Fits aa then 0 else -1 := by
  rw [sendResponse_eq]
  split
  · rfl
  · rfl

/-- What is sent is the response, if it fits. -/
theorem sendResponse_sent :
    (sendResponse reqid rCode aa).sent = (arrSendResponse reqid rCode aa).toList := by
  unfold sendResponse
  cases arrSendResponse reqid rCode aa with
  | none => rfl
  | some frame => rfl

@[simp] theorem sendResponse_queued : (sendResponse reqid rCode aa).queued = [] := by
  unfold sendResponse
  split <;> rfl

@[simp] theorem sendResponse_updated : (sendResponse reqid rCode aa).updated = [] := by
  unfold sendResponse
  split <;> rfl

/-- What the CDB has for `do_get`; nothing when the options keep it away from there. -/
def getFound (opts : NastOptions) (buffer : Bytes) (after : Nat → Byte) (srv : Shared) :
    Int × List Bytes :=
  if opts.alwaysFallthrough = false ∧ opts.useLocaldb = true then cdbGet srv.cdb buffer after
  else (-1, [])

/-- What `do_get` answers by itself; `none` when it wants the fallthrough. -/
def getItems (opts : NastOptions) (buffer : Bytes) (after : Nat → Byte) (srv : Shared) :
    Option (List Bytes) :=
  let cached := srv.memdb.get srv.now srv.cdb.cdbMtime buffer
  let found := getFound opts buffer after srv
  if opts.useQcache = true ∧ opts.alwaysFallthrough = false ∧ cached.1 = 0 then some cached.2.1
  else if found.1 = -1 ∧ opts.noFallthrough = false then none
  else some found.2

/-- The cache behind `do_get`: a lookup drops an entry that has expired. -/
def getMemdb (opts : NastOptions) (buffer : Bytes) (srv : Shared) : CacheMap :=
  if opts.useQcache = true ∧ opts.alwaysFallthrough = false
  then (srv.memdb.get srv.now srv.cdb.cdbMtime buffer).2.2 else srv.memdb

section Get

variable (sock : Nat) (opts : NastOptions) (buffer : Bytes) (after : Nat → Byte) (srv : Shared)

/-- A request goes on the queue, or its client is told that the queue is full. -/
def getQueued (srv : Shared) : Outcome × Shared :=
  if (fqmPush srv.fqm (reqNew sock reqid buffer)).1 = -1 then
    (sendError reqid "Couldn't add req to FQM", srv)
  else
    ({ Outcome.idle 0 with queued := [reqNew sock reqid buffer] },
      { srv with fqm := (fqmPush srv.fqm (reqNew sock reqid buffer)).2 })

theorem getLocaldb_eq :
    getLocaldb sock reqid opts buffer after srv
      = if (getFound opts buffer after srv).1 = -1 ∧ opts.noFallthrough = false
        then getQueued reqid sock buffer srv
        else (sendResponse reqid NASTOK (getFound opts buffer after srv).2, srv) := by
  unfold getLocaldb getFound
  split
  · rfl
  · rfl

/-- `do_get` without its branches: an answer, or a push on the queue. -/
theorem doGet_eq :
    doGet sock reqid opts buffer after srv
      = match getItems opts buffer after srv with
        | some aa => (sendResponse reqid NASTOK aa, { srv with memdb := getMemdb opts buffer srv })
        | none => getQueued reqid sock buffer { srv with memdb := getMemdb opts buffer srv } := by
  have hmiss : ∀ memdb : CacheMap,
      getLocaldb sock reqid opts buffer after { srv with memdb := memdb }
        = match if (getFound opts buffer after srv).1 = -1 ∧ opts.noFallthrough = false
            then none else some (getFound opts buffer after srv).2 with
          | some aa => (sendResponse reqid NASTOK aa, { srv with memdb := memdb })
          | none => getQueued reqid sock buffer { srv with memdb := memdb } := by
    intro memdb
    rw [getLocaldb_eq]
    show (if (getFound opts buffer after srv).1 = -1 ∧ opts.noFallthrough = false then _ else _)
      = _
    split
    · rfl
    · rfl
  unfold doGet getItems getMemdb
  dsimp only
  -- the cache is asked only if both options allow it, and a miss goes on to the CDB
  by_cases hq : opts.useQcache = true ∧ opts.alwaysFallthrough = false
  · rw [if_pos hq, if_pos hq]
    by_cases hhit : (srv.memdb.get srv.now srv.cdb.cdbMtime buffer).1 = 0
    · rw [if_pos hhit, if_pos ⟨hq.1, hq.2, hhit⟩]
    · rw [if_neg hhit, if_neg (not_and.mpr fun _ => not_and.mpr fun _ => hhit)]
      exact hmiss _
  · rw [if_neg hq, if_neg hq, if_neg fun h => hq (And.intro h.1 h.2.1)]
    exact hmiss srv.memdb

/-- The ways `do_get` ends. -/
inductive GetEnds : Outcome × Shared → Prop where
  /-- From the cache or the CDB, or empty-handed with fallthrough off. -/
  | answered {aa : List Bytes} : getItems opts buffer after srv = some aa →
      GetEnds (sendResponse reqid NASTOK aa, { srv with memdb := getMemdb opts buffer srv })
  | queued : getItems opts buffer after srv = none →
      (fqmPush srv.fqm (reqNew sock reqid buffer)).1 ≠ -1 →
      GetEnds ({ Outcome.idle 0 with queued := [reqNew sock reqid buffer] },
        { srv with
          memdb := getMemdb opts buffer srv
          fqm := (fqmPush srv.fqm (reqNew sock reqid buffer)).2 })
  | queueFull : getItems opts buffer after srv = none →
      (fqmPush srv.fqm (reqNew sock reqid buffer)).1 = -1 →
      GetEnds (sendError reqid "Couldn't add req to FQM",
        { srv with memdb := getMemdb opts buffer srv })

theorem doGet_ends :
    GetEnds reqid sock opts buffer after srv (doGet sock reqid opts buffer after srv) := by
  rw [doGet_eq]
  split
  · next aa hsome => exact .answered hsome
  · next hnone =>
    unfold getQueued
    by_cases hfull : (fqmPush srv.fqm (reqNew sock reqid buffer)).1 = -1
    · rw [if_pos hfull]
      exact .queueFull hnone hfull
    · rw [if_neg hfull]
      exact .queued hnone hfull

end Get

theorem GetEnds.updated {sock : Nat} {opts : NastOptions} {buffer : Bytes} {after : Nat → Byte}
    {srv : Shared} {r : Outcome × Shared} (h : GetEnds reqid sock opts buffer after srv r) :
    r.1.updated = [] := by
  cases h with
  | answered => exact sendResponse_updated ..
  | queued => rfl
  | queueFull => exact sendResponse_updated ..

/-- A worker sends the row, or an empty response when MySQL fails. -/
theorem fallthroughRow_sent (row : Int × List Bytes) (req : Request) (srv : Shared) :
    (fallthroughRow row req srv).1.sent
      = (sendResponse req.reqid NASTOK (if row.1 = -1 then [] else row.2)).sent := by
  unfold fallthroughRow
  dsimp only
  split
  · rfl
  · split
    · rfl
    · rfl

/-- It keeps the row if it could be sent. -/
theorem fallthroughRow_srv (row : Int × List Bytes) (req : Request) (srv : Shared) :
    (fallthroughRow row req srv).2
      = if row.1 ≠ -1 ∧ Fits row.2
        then { srv with
          memdb := srv.memdb.add srv.nullCacheTimeout srv.now (cstr req.req) row.2 }
        else srv := by
  unfold fallthroughRow
  dsimp only
  rw [sendResponse_rc]
  by_cases hrow : row.1 = -1
  · rw [if_pos hrow, if_neg fun h => h.1 hrow]
  · rw [if_neg hrow]
    by_cases hfit : Fits row.2
    · rw [if_pos hfit, if_pos (And.intro hrow hfit), if_neg (by decide)]
    · rw [if_neg hfit, if_pos rfl, if_neg fun h => hfit h.2]

@[simp] theorem doOptSet_updated (opts : NastOptions) (buffer : Bytes) (after : Nat → Byte) :
    (doOptSet reqid opts buffer after).1.updated = [] := by
  unfold doOptSet
  dsimp only
  split
  · exact sendResponse_updated ..
  · exact sendResponse_updated ..

/-- The arguments of `memdb_upd`: the bytes before the first separator, and what
`build_array` makes of those behind it. -/
theorem doUpdate_updated (buffer : Bytes) (srv : Shared) :
    (doUpdate reqid buffer srv).1.updated
      = if (buffer.takeWhile (· ≠ NASTSEP)).length = buffer.length then []
        else [(buffer.takeWhile (· ≠ NASTSEP),
          buildArray (buffer.drop ((buffer.takeWhile (· ≠ NASTSEP)).length + 1)))] := by
  unfold doUpdate
  dsimp only
  split
  · exact sendResponse_updated ..
  · rfl

/-- A command puts requests on the queue for its own socket only. -/
theorem handleCmd_queued (sock : Nat) (cmd : Byte) (args : Bytes) (after : Nat → Byte)
    (opts : NastOptions) (srv : Shared) :
    (handleCmd sock reqid cmd args after opts srv).2.2.fqm.queue
        = srv.fqm.queue ++ (handleCmd sock reqid cmd args after opts srv).1.queued ∧
      ∀ req ∈ (handleCmd sock reqid cmd args after opts srv).1.queued, req.sock = sock := by
  -- every command but GET leaves the queue alone
  have hnone : ∀ {out : Outcome} {srv' : Shared}, out.queued = [] →
      srv'.fqm.queue = srv.fqm.queue →
      srv'.fqm.queue = srv.fqm.queue ++ out.queued ∧ ∀ req ∈ out.queued, req.sock = sock := by
    intro out srv' hout hsrv
    rw [hout, List.append_nil]
    exact ⟨hsrv, fun req hreq => absurd hreq (by simp)⟩
  unfold handleCmd
  split
  · exact hnone rfl rfl
  split
  · refine hnone ?_ rfl
    unfold doOptSet
    dsimp only
    split
    · exact sendResponse_queued ..
    · exact sendResponse_queued ..
  split
  · exact hnone (sendResponse_queued ..) rfl
  split
  · have hends := doGet_ends reqid sock opts args after srv
    dsimp only
    generalize doGet sock reqid opts args after srv = r at hends ⊢
    cases hends with
    | answered => exact hnone (sendResponse_queued ..) rfl
    | queued _ hroom =>
      refine ⟨fqmPush_queue hroom, fun req hreq => ?_⟩
      obtain rfl := List.mem_singleton.mp hreq
      rfl
    | queueFull => exact hnone (sendResponse_queued ..) rfl
  split
  · exact hnone rfl rfl
  split
  · exact hnone rfl rfl
  split
  · unfold doUpdate
    dsimp only
    split
    · exact hnone (sendResponse_queued ..) rfl
    · split
      · exact hnone (sendResponse_queued ..) rfl
      · exact hnone (sendResponse_queued ..) rfl
  split
  · exact hnone (sendResponse_queued ..) rfl
  · exact hnone rfl rfl

end Handlers

end Nastd.Server
