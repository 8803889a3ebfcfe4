import Nastd.Client.Calls
import Nastd.Server.Layers
import Nastd.Server.OneResponse

/-!
# What nastd is for

The service as its callers see it, without frames, tables, queues and threads: a cache, the
CDB that is loaded, the time, and for every client its options. A call is answered at
once. A GET is answered by the first of the places that the client's options select, the
cache, what `cdb_get` finds and what comes of the query, and a row that MySQL had to be
asked for stays in the cache; an update replaces what the cache has under its key; options
are a client's own. What places have and do not show is the subject of `Server/Layers.lean`.

Three things of the code show. Where a response would not fit a frame the call times out. A
thread to which that happened, unless it was its first call, must not call again:
`delresponse` would free its buffer a second time. And some things that can come of a query
stop the server. `Deployment.lean` shows that client and server together are this service.
-/

namespace Nastd

open Lib Server Client

/-- A call of the library. -/
inductive Api where
  | get (key : Bytes)
  | upd (key : Bytes) (vals : List Bytes)
  | optionsSet (opts : NastOptions)
  /-- `opts` is what the caller's structure holds before the call. -/
  | optionsGet (opts : NastOptions)
  | stats

/-- What a call is good for on the wire: keys are C strings that fit, and there are values to
an update, neither empty nor split by a separator. -/
def Api.Ok : Api → Prop
  | get key => 0 ∉ key ∧ key.length ≤ 505
  | upd key vals => 0 ∉ key ∧ NASTSEP ∉ key ∧ key.length ≤ 504 ∧ vals ≠ [] ∧
      (∀ v ∈ vals, NASTSEP ∉ v ∧ v ≠ []) ∧ updSize key vals ≤ 512
  | optionsSet _ => True
  | optionsGet _ => True
  | stats => True

instance : (api : Api) → Decidable api.Ok
  | .get _ => inferInstanceAs (Decidable (_ ∧ _))
  | .upd _ _ => inferInstanceAs (Decidable (_ ∧ _ ∧ _ ∧ _ ∧ _ ∧ _))
  | .optionsSet _ => inferInstanceAs (Decidable True)
  | .optionsGet _ => inferInstanceAs (Decidable True)
  | .stats => inferInstanceAs (Decidable True)

/-- What the caller gets: the return code, `nast_geterr`, the block of `nast_errmsg`,
`nast_get_result`, and the options that `nast_options_get` has filled in. -/
structure Answer where
  rc : Int
  err : Errcode
  errmsg : Bytes
  result : List Bytes
  opts : Option NastOptions
  deriving DecidableEq

/-- The caller's view of a good response with these items. -/
def Answer.good (aa : List Bytes) (opts : Option NastOptions) : Answer :=
  ⟨0, .NAST_OK, nastErrmsgs .NAST_OK, buildResult (joinItems aa), opts⟩

/-- The caller's view of an error. -/
def Answer.bad (text : Bytes) : Answer := ⟨-1, .NAST_SERVER_ERR, text, [text], none⟩

/-- The caller's view of no response. -/
def Answer.timedOut : Answer := ⟨-1, .NAST_TIMEDOUT, nastErrmsgs .NAST_TIMEDOUT, [[]], none⟩

/-- What the slot of a thread points to. -/
inductive Held where
  | nothing
  | response
  | freed
  deriving DecidableEq

/-- What a thread's slot points to when it has this answer. -/
def Held.after (h : Held) (ans : Answer) : Held :=
  if ans.err = .NAST_TIMEDOUT then
    match h with
    | .nothing => .nothing
    | _ => .freed
  else .response

/-- What stays the same: the column list MySQL is asked for, how long non-results are kept, and
what STATS reports. -/
structure Site where
  cols : Bytes
  nullCacheTimeout : Int
  startTime : Int
  statLines : List Bytes

/-- The service, for clients `κ`. -/
structure Service (κ : Type) where
  cache : CacheMap
  cdb : Cdb
  now : Int
  opts : κ → NastOptions
  held : κ → UInt16 → Held

/-- The circumstances of a call: MySQL, and what lies in memory where nothing was written. -/
structure Line where
  mysql : Bytes → MysqlReply
  /-- Around the request in the server's buffer. -/
  around : Int → Byte
  /-- Around the response in the client's. -/
  around' : Int → Byte
  /-- In the buffer of the call. -/
  stack : Nat → Byte
  /-- The turns of `getresponse` before the response is there. -/
  quiet : Nat

/-- What happens next: a call of thread `tid` of a client, the clock, or `cdb_periodic`. -/
inductive Event (κ : Type) where
  | call (c : κ) (tid : UInt16) (api : Api) (line : Line)
  | clock (now : Int)
  | periodic (seen opened : Option CdbFile)

/-- A call that the service is made for. -/
def Event.Ok {κ : Type} : Event κ → Prop
  | call _ tid api line => tid ≠ 0 ∧ tid ≠ 0xffff ∧ api.Ok ∧ line.quiet ≤ 50
  | clock _ => True
  | periodic _ _ => True

instance {κ : Type} : (e : Event κ) → Decidable e.Ok
  | .call _ _ _ _ => inferInstanceAs (Decidable (_ ∧ _ ∧ _ ∧ _))
  | .clock _ => inferInstanceAs (Decidable True)
  | .periodic _ _ => inferInstanceAs (Decidable True)

namespace Service

variable {κ : Type} [DecidableEq κ] (site : Site)

/-- The state as the server's handlers see it, with an empty queue. -/
def shared (t : Service κ) : Shared where
  memdb := t.cache
  cdb := t.cdb
  fqm := fqmNew 1
  now := t.now
  nullCacheTimeout := site.nullCacheTimeout
  startTime := site.startTime
  statLines := site.statLines

/-- The answer to a GET where MySQL is not asked. `after` is what lies behind the key. -/
def here (t : Service κ) (c : κ) (key : Bytes) (after : Nat → Byte) : Option (List Bytes) :=
  memdbLayer (t.opts c) key (t.shared site) <|> cdbFinds (t.opts c) key after t.cdb
    <|> if (t.opts c).noFallthrough = false then none else some []

/-- The answer to a GET, and the cache it leaves: an entry that is out of date is gone, and what
MySQL said is kept. `none` when the server does not survive what came of the query. -/
def found (t : Service κ) (c : κ) (key : Bytes) (after : Nat → Byte) (mysql : Bytes → MysqlReply) :
    Option (List Bytes × CacheMap) :=
  let cache := getMemdb (t.opts c) key (t.shared site)
  match t.here site c key after with
  | some aa => some (aa, cache)
  | none =>
    (mysqlRow mysql site.cols t.cdb key).map fun row =>
      (rowItems row,
        if row.1 ≠ -1 ∧ Fits row.2 then cache.add site.nullCacheTimeout t.now key row.2 else cache)

/-- The answer to a call, and what the call leaves. -/
def answer (t : Service κ) (c : κ) (line : Line) : Api → Option (Answer × Service κ)
  | .get key =>
    let after := fun j : Nat => line.around (6 + key.length + j)
    (t.found site c key after line.mysql).map fun r =>
      (if Fits r.1 then .good r.1 none else .timedOut, { t with cache := r.2 })
  | .upd key vals =>
    if vals.length = t.cdb.dbFieldcount then
      some (.good [] none,
        { t with cache := Function.update t.cache key (some (.value vals t.now)) })
    else some (.bad (ascii "Couldn't update cache"), t)
  | .optionsSet opts => some (.good [] none, { t with opts := Function.update t.opts c opts })
  | .optionsGet _ => some (.good [optText (t.opts c)] (some (t.opts c)), t)
  | .stats =>
    let aa := statsItems (t.shared site)
    some (if Fits aa then .good aa none else .timedOut, t)

/-- One call. -/
def call (t : Service κ) (c : κ) (tid : UInt16) (line : Line) (api : Api) :
    Option (Answer × Service κ) :=
  if t.held c tid = .freed then none
  else
    (t.answer site c line api).map fun r =>
      (r.1, { r.2 with
        held := Function.update t.held c
          (Function.update (t.held c) tid (Held.after (t.held c tid) r.1)) })

/-- The service when it has just started. -/
def fresh (cdb : Cdb) (now : Int) : Service κ where
  cache := fun _ => none
  cdb := cdb
  now := now
  opts := fun _ => defaultOpts
  held := fun _ _ => .nothing

/-- One event. Only a call has an answer. -/
def serviceStep (t : Service κ) : Event κ → Option (Option Answer × Service κ)
  | .call c tid api line => (t.call site c tid line api).map fun r => (some r.1, r.2)
  | .clock now => some (none, { t with now := now })
  | .periodic seen opened =>
    (cdbPeriodic seen opened t.cdb).map fun cdb => (none, { t with cdb := cdb })

end Service

end Nastd
