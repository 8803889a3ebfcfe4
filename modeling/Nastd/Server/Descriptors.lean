import Nastd.Lib.Names
import Nastd.Lib.Run
import Nastd.Server.Io

/-!
# Descriptors

The whole server: connection threads, the fallthrough queue and its workers, in any
order of steps. A connection thread owns its socket and closes it at the end
(`free_cops`); a request on the queue has only the number of that socket (`req_new`).
Nothing waits for such requests before the `close`, although `verify_idle_threads`
exists and says it "should only be run when a client has closed the connection".

A number that is free again goes to whoever opens a descriptor next: `accept`, a worker
that connects to MySQL for the request it holds, `cdb_new` that opens its file, or the log.

`replies_reach_asker`: as long as none of these is given a number that a queued or
unfinished request still has, every byte written goes to the connection that asked. A
number handed out too early sends the reply to a stranger (`reply_to_stranger`), or into
the connection of the worker itself to MySQL.
-/

namespace Nastd.Server

open Nastd.Lib

/-- A connection thread: `client_opts`, and what it has not written yet of the response
to request `reqid`. -/
structure Conn where
  sock : Nat
  opts : NastOptions
  reqid : UInt16
  unsent : List Bytes

/-- A fallthrough worker. `asker` is the connection the request came from, of which the
source keeps no trace. -/
inductive Worker where
  | idle
  /-- In MySQL. -/
  | busy (req : Request) (asker : Nat)
  /-- With `rest` still to write, and then `row` to cache. -/
  | writing (req : Request) (asker : Nat) (rest : Bytes) (row : Option (List Bytes))

/-- The request a worker has popped, and its asker. -/
def Worker.job : Worker → Option (Request × Nat)
  | idle => none
  | busy req asker => some (req, asker)
  | writing req asker _ _ => some (req, asker)

/-- What an open descriptor belongs to. -/
inductive FdOwner where
  | conn (c : Nat)
  /-- The connection of a worker to MySQL. -/
  | mysql (w : Nat)
  /-- A file of `cdb_new`, the socket of the log. -/
  | other
  deriving DecidableEq

/-- The server. Connections are numbered as they come; `fds` says what each open
descriptor belongs to, `askers` where each request on the queue came from, `links` which
descriptor a worker's connection to MySQL has (`arg`). -/
structure Daemon where
  shared : Shared
  fds : Names Nat FdOwner
  conns : Nat → Option Conn
  accepted : Nat
  askers : List Nat
  workers : Nat → Worker
  links : Nat → Option Nat

/-- A step of one of the threads, with what the world outside does in it. -/
inductive Act where
  /-- `accept` returns `fd`, and `io_new` starts a thread on it. -/
  | accept (fd : Nat)
  /-- A connection thread handles a command. -/
  | request (c : Nat) (reqid : UInt16) (cmd : Byte) (args : Bytes) (after : Nat → Byte)
  /-- Its `write` takes so many bytes, or fails. -/
  | send (c : Nat) (n : Option Nat)
  /-- `recv` finds the connection closed: `free_cops`. -/
  | close (c : Nat)
  /-- `fqm_pop`. -/
  | pop (w : Nat)
  /-- A worker in `mysqldb_get` opens a socket to MySQL. -/
  | connect (w : Nat) (fd : Nat)
  /-- The MySQL library closes it, for whatever reason. -/
  | hangup (w : Nat)
  /-- `mysqldb_get` returns. -/
  | query (w : Nat) (reply : MysqlReply)
  /-- A worker's `write` takes so many bytes, or fails. -/
  | write (w : Nat) (n : Option Nat)
  /-- Another thread opens a descriptor: `cdb_new` that of its file, or the log. -/
  | openFile (fd : Nat)
  /-- It closes it. -/
  | closeFile (fd : Nat)
  /-- What the periodic threads do. -/
  | periodic (memdb : CacheMap) (cdb : Cdb) (now : Int)

/-- Bytes of the response to request `reqid` of connection `asker`, written to the
descriptor of `dest`. -/
structure Delivery where
  bytes : Bytes
  reqid : UInt16
  dest : FdOwner
  asker : Nat
  deriving DecidableEq

/-- Every byte goes to the connection that asked. -/
def ToAskers (outs : List (List Delivery)) : Prop :=
  ∀ out ∈ outs, ∀ d ∈ out, d.dest = .conn d.asker

/-- `do_fallthrough` from `mysqldb_get` up to the `write`: the frame, and the row to cache
behind it. -/
def fallthroughAnswer (row : Int × List Bytes) (req : Request) :
    Option (Bytes × Option (List Bytes)) :=
  if row.1 = -1 then (arrSendResponse req.reqid NASTOK []).map fun frame => (frame, none)
  else (arrSendResponse req.reqid NASTOK row.2).map fun frame => (frame, some row.2)

/-- What comes of a query over this connection to MySQL. A connection that fails may have
opened its socket before. -/
def MysqlReply.over (reply : MysqlReply) (link : Option Nat) : Bool :=
  match reply with
  | .noHandle => link.isNone
  | .connFail _ => true
  | _ => link.isSome

/-- `mysqldb_connect_close` is called. -/
def MysqlReply.hangsUp : MysqlReply → Bool
  | .connFail _ => true
  | .queryFail _ => true
  | _ => false

/-- `do_fallthrough` behind the `write`. -/
def fallthroughCache (row : Option (List Bytes)) (req : Request) (srv : Shared) : Shared :=
  match row with
  | none => srv
  | some vals =>
    { srv with memdb := srv.memdb.add srv.nullCacheTimeout srv.now (cstr req.req) vals }

/-- A new connection. -/
def Daemon.opened (s : Daemon) (fd : Nat) : Daemon :=
  { s with
    fds := s.fds.bind fd (.conn s.accepted)
    conns := Function.update s.conns s.accepted (some ⟨fd, defaultOpts, 0, []⟩)
    accepted := s.accepted + 1 }

/-- A connection thread after a handler. -/
def Daemon.asked (s : Daemon) (c : Nat) (conn : Conn) (reqid : UInt16)
    (r : Outcome × NastOptions × Shared) : Daemon :=
  { s with
    shared := r.2.2
    conns := Function.update s.conns c (some ⟨conn.sock, r.2.1, reqid, r.1.sent⟩)
    askers := s.askers ++ List.replicate r.1.queued.length c }

def Daemon.setUnsent (s : Daemon) (c : Nat) (conn : Conn) (unsent : List Bytes) : Daemon :=
  { s with conns := Function.update s.conns c (some { conn with unsent := unsent }) }

/-- A connection is gone. -/
def Daemon.closed (s : Daemon) (c : Nat) (conn : Conn) : Daemon :=
  { s with
    fds := s.fds.release conn.sock
    conns := Function.update s.conns c none }

/-- A worker has a connection to MySQL. -/
def Daemon.linked (s : Daemon) (w fd : Nat) : Daemon :=
  { s with
    fds := s.fds.bind fd (.mysql w)
    links := Function.update s.links w (some fd) }

/-- It has none any more. -/
def Daemon.unlinked (s : Daemon) (w : Nat) : Daemon :=
  match s.links w with
  | none => s
  | some fd =>
    { s with
      fds := s.fds.release fd
      links := Function.update s.links w none }

def Daemon.setWorker (s : Daemon) (w : Nat) (worker : Worker) : Daemon :=
  { s with workers := Function.update s.workers w worker }

/-- What is left of the unsent frames when `n` more bytes of the first are written. -/
def unsentAfter (frame : Bytes) (rest : List Bytes) (n : Nat) : List Bytes :=
  if frame.drop n = [] then rest else frame.drop n :: rest

/-- One step of the server. -/
def daemonStep (s : Daemon) : Act → Option (List Delivery × Daemon)
  | .accept fd =>
    match s.fds fd with
    | some _ => none
    | none => some ([], s.opened fd)
  | .request c reqid cmd args after =>
    match s.conns c with
    | none => none
    | some conn =>
      if conn.unsent ≠ [] then none
      else some ([], s.asked c conn reqid
        (handleCmd conn.sock reqid cmd args after conn.opts s.shared))
  | .send c n =>
    match s.conns c with
    | none => none
    | some conn =>
      match conn.unsent with
      | [] => none
      | frame :: rest =>
        match n, s.fds conn.sock with
        | some n, some dest =>
          some ([⟨frame.take n, conn.reqid, dest, c⟩],
            s.setUnsent c conn (unsentAfter frame rest n))
        | _, _ => some ([], s.setUnsent c conn [])
  | .close c =>
    match s.conns c with
    | none => none
    | some conn => some ([], s.closed c conn)
  | .pop w =>
    match s.workers w, fqmPop s.shared.fqm, s.askers with
    | .idle, some (req, fqm), asker :: askers =>
      if (w : Int) < s.shared.fqm.maxitems then
        some ([], { s.setWorker w (.busy req asker) with
          shared := { s.shared with fqm := fqm }
          askers := askers })
      else none
    | _, _, _ => none
  | .connect w fd =>
    match s.workers w, s.links w, s.fds fd with
    | .busy _ _, none, none => some ([], s.linked w fd)
    | _, _, _ => none
  | .hangup w => some ([], s.unlinked w)
  | .query w reply =>
    match s.workers w, mysqldbGet s.shared.cdb.dbFieldcount reply with
    | .busy req asker, some row =>
      if reply.over (s.links w) = false then none
      else
        let s' := if reply.hangsUp then s.unlinked w else s
        match fallthroughAnswer row req with
        | none => some ([], s'.setWorker w .idle)
        | some (frame, row) => some ([], s'.setWorker w (.writing req asker frame row))
    | _, _ => none
  | .write w n =>
    match s.workers w with
    | .writing req asker rest row =>
      match n, s.fds req.sock with
      | some n, some dest =>
        let deliveries := [⟨rest.take n, req.reqid, dest, asker⟩]
        if rest.drop n = [] then
          some (deliveries, { s.setWorker w .idle with
            shared := fallthroughCache row req s.shared })
        else some (deliveries, s.setWorker w (.writing req asker (rest.drop n) row))
      -- the descriptor is closed, or `write` fails: nothing is cached
      | _, _ => some ([], s.setWorker w .idle)
    | _ => none
  | .openFile fd =>
    match s.fds fd with
    | some _ => none
    | none => some ([], { s with fds := s.fds.bind fd .other })
  | .closeFile fd =>
    if s.fds fd = some .other then some ([], { s with fds := s.fds.release fd }) else none
  | .periodic memdb cdb now =>
    some ([], { s with shared := { s.shared with memdb := memdb, cdb := cdb, now := now } })

/-- Run without other threads in between, the pieces are `do_fallthrough`. -/
theorem fallthroughAnswer_eq (row : Int × List Bytes) (req : Request) (srv : Shared) :
    (fallthroughRow row req srv).1.sent = ((fallthroughAnswer row req).map Prod.fst).toList ∧
      (fallthroughRow row req srv).2
        = match fallthroughAnswer row req with
          | none => srv
          | some (_, row) => fallthroughCache row req srv := by
  unfold fallthroughAnswer
  rw [fallthroughRow_sent, fallthroughRow_srv, sendResponse_sent]
  by_cases hrow : row.1 = -1
  · rw [if_pos hrow, if_pos hrow, if_neg fun h => h.1 hrow]
    cases arrSendResponse req.reqid NASTOK [] with
    | none => exact ⟨rfl, rfl⟩
    | some frame => exact ⟨rfl, rfl⟩
  · rw [if_neg hrow, if_neg hrow, arrSendResponse_eq]
    by_cases hfit : Fits row.2
    · rw [if_pos hfit, if_pos (And.intro hrow hfit)]
      exact ⟨rfl, rfl⟩
    · rw [if_neg hfit, if_neg fun h => hfit h.2]
      exact ⟨rfl, rfl⟩

/-- Before the first connection. -/
def daemonStart (shared : Shared) (maxitems : Int) : Daemon where
  shared := { shared with fqm := fqmNew maxitems }
  fds := fun _ => none
  conns := fun _ => none
  accepted := 0
  askers := []
  workers := fun _ => .idle
  links := fun _ => none

/-- No request that waits or is being handled has this number for its socket. -/
def Unawaited (s : Daemon) (fd : Nat) : Prop :=
  (∀ req ∈ s.shared.fqm.queue, req.sock ≠ fd) ∧
    ∀ w req asker, (s.workers w).job = some (req, asker) → req.sock ≠ fd

/-- Nobody is given the number of a socket that a request still waits for. -/
def Reusable (s : Daemon) : Act → Prop
  | .accept fd => Unawaited s fd
  | .connect _ fd => Unawaited s fd
  | .openFile fd => Unawaited s fd
  | _ => True

/-- What holds between the steps. -/
structure DaemonInv (s : Daemon) : Prop where
  /-- A connection thread has its descriptor open. -/
  bound : ∀ c conn, s.conns c = some conn → s.fds conn.sock = some (.conn c)
  /-- A worker its connection to MySQL. -/
  linked : ∀ w fd, s.links w = some fd → s.fds fd = some (.mysql w)
  fresh : ∀ c, s.accepted ≤ c → s.conns c = none
  counted : s.askers.length = s.shared.fqm.queue.length
  queued : ∀ x ∈ s.shared.fqm.queue.zip s.askers, s.fds.Current x.1.sock (.conn x.2)
  working : ∀ w req asker, (s.workers w).job = some (req, asker) →
    s.fds.Current req.sock (.conn asker)

theorem daemonInv_start (shared : Shared) (maxitems : Int) :
    DaemonInv (daemonStart shared maxitems) where
  bound := fun _ _ h => absurd h (by simp [daemonStart])
  linked := fun _ _ h => absurd h (by simp [daemonStart])
  fresh := fun _ _ => rfl
  counted := rfl
  queued := fun _ h => absurd h (by simp [daemonStart])
  working := fun _ _ _ h => absurd h (by simp [daemonStart, Worker.job])

section Keeps

variable {s : Daemon} (h : DaemonInv s)

include h

/-- A number that nothing waits for may be handed out. -/
theorem DaemonInv.bind {fd : Nat} (hfree : s.fds fd = none) (hg : Unawaited s fd) (o : FdOwner) :
    (∀ c conn, s.conns c = some conn → s.fds.bind fd o conn.sock = some (.conn c)) ∧
      (∀ w n, s.links w = some n → s.fds.bind fd o n = some (.mysql w)) ∧
      (∀ x ∈ s.shared.fqm.queue.zip s.askers, (s.fds.bind fd o).Current x.1.sock (.conn x.2)) ∧
      ∀ w req asker, (s.workers w).job = some (req, asker) →
        (s.fds.bind fd o).Current req.sock (.conn asker) := by
  refine ⟨fun c conn hconn => ?_, fun w n hn => ?_, fun x hx => ?_, fun w req asker hw => ?_⟩
  · -- the number was not open, so no connection had it
    have hsock := h.bound c conn hconn
    have hne : conn.sock ≠ fd := fun he => absurd (he ▸ hsock) (by simp [hfree])
    rw [Names.bind_ne hne, hsock]
  · have hlink := h.linked w n hn
    have hne : n ≠ fd := fun he => absurd (he ▸ hlink) (by simp [hfree])
    rw [Names.bind_ne hne, hlink]
  · exact (h.queued x hx).bind (hg.1 x.1 (List.of_mem_zip hx).1)
  · exact (h.working w req asker hw).bind (hg.2 w req asker hw)

/-- A descriptor that is neither a connection's nor a worker's may be closed. -/
theorem DaemonInv.release {fd : Nat} (hconn : ∀ c conn, s.conns c = some conn → conn.sock ≠ fd)
    (hlink : ∀ w n, s.links w = some n → n ≠ fd) :
    DaemonInv { s with fds := s.fds.release fd } where
  bound := by
    intro c conn hc
    show s.fds.release fd conn.sock = some (.conn c)
    rw [Names.release_ne (hconn c conn hc), h.bound c conn hc]
  linked := by
    intro w n hw
    show s.fds.release fd n = some (.mysql w)
    rw [Names.release_ne (hlink w n hw), h.linked w n hw]
  fresh := h.fresh
  counted := h.counted
  queued := fun x hx => (h.queued x hx).release
  working := fun w req asker hw => (h.working w req asker hw).release

/-- A new connection. -/
theorem DaemonInv.opened {fd : Nat} (hfree : s.fds fd = none) (hg : Unawaited s fd) :
    DaemonInv (s.opened fd) := by
  obtain ⟨hbound, hlinked, hqueued, hworking⟩ := h.bind hfree hg (.conn s.accepted)
  refine ⟨fun c conn hconn => ?_, hlinked, fun c hc => ?_, h.counted, hqueued, hworking⟩
  · have hupd : Function.update s.conns s.accepted (some ⟨fd, defaultOpts, 0, []⟩) c
        = some conn := hconn
    by_cases hc : c = s.accepted
    · rw [hc, Function.update_self] at hupd
      obtain rfl := Option.some.inj hupd
      rw [hc]
      exact Names.bind_self
    · rw [Function.update_of_ne hc] at hupd
      exact hbound c conn hupd
  · have hne : c ≠ s.accepted := by
      have hle : s.accepted + 1 ≤ c := hc
      omega
    show Function.update s.conns s.accepted _ c = none
    rw [Function.update_of_ne hne]
    exact h.fresh c (Nat.le_of_succ_le hc)

/-- A worker's new connection to MySQL. -/
theorem DaemonInv.newLink {w fd : Nat} (hfree : s.fds fd = none) (hg : Unawaited s fd) :
    DaemonInv (s.linked w fd) := by
  obtain ⟨hbound, hlinked, hqueued, hworking⟩ := h.bind hfree hg (.mysql w)
  refine ⟨hbound, fun w' n hn => ?_, h.fresh, h.counted, hqueued, hworking⟩
  have hupd : Function.update s.links w (some fd) w' = some n := hn
  by_cases hw : w' = w
  · rw [hw, Function.update_self] at hupd
    obtain rfl := Option.some.inj hupd
    rw [hw]
    exact Names.bind_self
  · rw [Function.update_of_ne hw] at hupd
    exact hlinked w' n hupd

/-- And its end. -/
theorem DaemonInv.unlinked (w : Nat) : DaemonInv (s.unlinked w) := by
  unfold Daemon.unlinked
  split
  · exact h
  · next fd hfd =>
    have howner := h.linked w fd hfd
    have hlinks : DaemonInv { s with links := Function.update s.links w none } := by
      refine ⟨h.bound, fun w' n hn => ?_, h.fresh, h.counted, h.queued, h.working⟩
      have hupd : Function.update s.links w none w' = some n := hn
      by_cases hw : w' = w
      · rw [hw, Function.update_self] at hupd
        exact absurd hupd (by simp)
      · rw [Function.update_of_ne hw] at hupd
        exact h.linked w' n hupd
    refine hlinks.release (fun c conn hconn he => ?_) fun w' n hn he => ?_
    · have hsock := h.bound c conn hconn
      rw [he, howner] at hsock
      exact absurd (Option.some.inj hsock) (by simp)
    · have hupd : Function.update s.links w none w' = some n := hn
      by_cases hw : w' = w
      · rw [hw, Function.update_self] at hupd
        exact absurd hupd (by simp)
      · rw [Function.update_of_ne hw] at hupd
        have hsame := h.linked w' n hupd
        rw [he, howner] at hsame
        exact hw (FdOwner.mysql.inj (Option.some.inj hsame)).symm

/-- Whether the connection to MySQL stays or not, the worker keeps its request. -/
theorem DaemonInv.queried {w : Nat} {req : Request} {asker : Nat}
    (hw : s.workers w = .busy req asker) (reply : MysqlReply) :
    DaemonInv (if reply.hangsUp = true then s.unlinked w else s) ∧
      (if reply.hangsUp = true then s.unlinked w else s).fds.Current req.sock (.conn asker) := by
  have hinv : DaemonInv (if reply.hangsUp = true then s.unlinked w else s) := by
    split
    · exact h.unlinked w
    · exact h
  have hkeeps : (s.unlinked w).workers w = s.workers w := by
    unfold Daemon.unlinked
    split
    · rfl
    · rfl
  refine ⟨hinv, hinv.working w req asker ?_⟩
  split
  · rw [hkeeps, hw]
    rfl
  · rw [hw]
    rfl

/-- A connection is gone. -/
theorem DaemonInv.closed {c : Nat} {conn : Conn} (hconn : s.conns c = some conn) :
    DaemonInv (s.closed c conn) := by
  have hconns : DaemonInv { s with conns := Function.update s.conns c none } := by
    refine ⟨fun c' conn' hc' => ?_, h.linked, fun c' hc' => ?_, h.counted, h.queued, h.working⟩
    · have hupd : Function.update s.conns c none c' = some conn' := hc'
      by_cases hne : c' = c
      · rw [hne, Function.update_self] at hupd
        exact absurd hupd (by simp)
      · rw [Function.update_of_ne hne] at hupd
        exact h.bound c' conn' hupd
    · show Function.update s.conns c none c' = none
      by_cases hc : c' = c
      · rw [hc, Function.update_self]
      · rw [Function.update_of_ne hc, h.fresh c' hc']
  refine hconns.release (fun c' conn' hc' he => ?_) fun w fd hw he => ?_
  · -- two open connections never share a number
    have hupd : Function.update s.conns c none c' = some conn' := hc'
    by_cases hne : c' = c
    · rw [hne, Function.update_self] at hupd
      exact absurd hupd (by simp)
    · rw [Function.update_of_ne hne] at hupd
      have hsame := h.bound c' conn' hupd
      rw [he, h.bound c conn hconn] at hsame
      exact hne (FdOwner.conn.inj (Option.some.inj hsame)).symm
  · have howner := h.linked w fd hw
    rw [he, h.bound c conn hconn] at howner
    exact absurd (Option.some.inj howner) (by simp)

/-- A connection thread keeps its socket. -/
theorem DaemonInv.setConn {c : Nat} {conn conn' : Conn} (hconn : s.conns c = some conn)
    (hsock : conn'.sock = conn.sock) :
    DaemonInv { s with conns := Function.update s.conns c (some conn') } where
  linked := h.linked
  bound := by
    intro d conn'' hd
    have hupd : Function.update s.conns c (some conn') d = some conn'' := hd
    by_cases hdc : d = c
    · rw [hdc, Function.update_self] at hupd
      obtain rfl := Option.some.inj hupd
      rw [hdc]
      show s.fds conn'.sock = some (.conn c)
      rw [hsock, h.bound c conn hconn]
    · rw [Function.update_of_ne hdc] at hupd
      exact h.bound d conn'' hupd
  fresh := by
    intro d hd
    have hdc : d ≠ c := by
      intro he
      have hnone := h.fresh d hd
      rw [he, hconn] at hnone
      exact absurd hnone (by simp)
    show Function.update s.conns c (some conn') d = none
    rw [Function.update_of_ne hdc, h.fresh d hd]
  counted := h.counted
  queued := h.queued
  working := h.working

/-- What does not touch the queue does not matter. -/
theorem DaemonInv.setShared {shared : Shared} (hqueue : shared.fqm.queue = s.shared.fqm.queue) :
    DaemonInv { s with shared := shared } where
  bound := h.bound
  linked := h.linked
  fresh := h.fresh
  counted := h.counted.trans (by rw [hqueue])
  queued := fun x hx => h.queued x (by
    have hx' : x ∈ shared.fqm.queue.zip s.askers := hx
    rwa [hqueue] at hx')
  working := h.working

/-- New requests on the queue name the socket of their asker. -/
theorem DaemonInv.push {c sock : Nat} {shared : Shared} {queued : List Request}
    (hfd : s.fds sock = some (.conn c)) (hqueue : shared.fqm.queue = s.shared.fqm.queue ++ queued)
    (hsock : ∀ req ∈ queued, req.sock = sock) :
    DaemonInv { s with
      shared := shared
      askers := s.askers ++ List.replicate queued.length c } where
  bound := h.bound
  linked := h.linked
  fresh := h.fresh
  counted := by
    show (s.askers ++ List.replicate queued.length c).length = shared.fqm.queue.length
    rw [hqueue, List.length_append, List.length_append, List.length_replicate, h.counted]
  queued := by
    intro x hx
    have hx' : x ∈ shared.fqm.queue.zip (s.askers ++ List.replicate queued.length c) := hx
    -- the askers are counted, so the new pairs stand behind the old ones
    rw [hqueue, List.zip_append h.counted.symm] at hx'
    rcases List.mem_append.mp hx' with hold | hnew
    · exact h.queued x hold
    · obtain ⟨hreq, hasker⟩ := List.of_mem_zip hnew
      rw [hsock x.1 hreq, List.eq_of_mem_replicate hasker]
      exact Names.current_of_bound hfd
  working := h.working

/-- A worker takes a request whose number is current. -/
theorem DaemonInv.setWorker {w : Nat} {worker : Worker}
    (hjob : ∀ req asker, worker.job = some (req, asker) →
      s.fds.Current req.sock (.conn asker)) :
    DaemonInv (s.setWorker w worker) where
  bound := h.bound
  linked := h.linked
  fresh := h.fresh
  counted := h.counted
  queued := h.queued
  working := by
    intro w' req asker hw'
    have hupd : (Function.update s.workers w worker w').job = some (req, asker) := hw'
    by_cases hw : w' = w
    · rw [hw, Function.update_self] at hupd
      exact hjob req asker hupd
    · rw [Function.update_of_ne hw] at hupd
      exact h.working w' req asker hupd

/-- The request a worker pops goes with the first asker. -/
theorem DaemonInv.pop {req : Request} {fqm : Fqm} {asker : Nat} {askers : List Nat}
    (hpop : fqmPop s.shared.fqm = some (req, fqm)) (haskers : s.askers = asker :: askers) :
    s.fds.Current req.sock (.conn asker) ∧
      DaemonInv { s with shared := { s.shared with fqm := fqm }, askers := askers } := by
  have hqueue : s.shared.fqm.queue = req :: fqm.queue := by
    unfold fqmPop at hpop
    split at hpop
    · exact absurd hpop (by simp)
    · next hq =>
      obtain ⟨rfl, rfl⟩ := Prod.mk.inj (Option.some.inj hpop)
      exact hq
  have hzip : s.shared.fqm.queue.zip s.askers = (req, asker) :: fqm.queue.zip askers := by
    rw [hqueue, haskers]
    rfl
  refine ⟨h.queued (req, asker) (by rw [hzip]; exact List.mem_cons_self ..), ?_⟩
  refine ⟨h.bound, h.linked, h.fresh, ?_, fun x hx => h.queued x ?_, h.working⟩
  · have hcounted := h.counted
    rw [hqueue, haskers] at hcounted
    exact Nat.succ.inj hcounted
  · rw [hzip]
    exact List.mem_cons_of_mem _ hx

/-- One step: what it delivers goes to the asker, and the invariant stays. -/
theorem DaemonInv.step {act : Act} {out : List Delivery} {s' : Daemon} (hg : Reusable s act)
    (hstep : daemonStep s act = some (out, s')) :
    (∀ d ∈ out, d.dest = .conn d.asker) ∧ DaemonInv s' := by
  have hquiet : ∀ d ∈ ([] : List Delivery), d.dest = .conn d.asker :=
    fun d hd => absurd hd (by simp)
  cases act with
  | accept fd =>
    simp only [daemonStep] at hstep
    split at hstep
    · exact absurd hstep (by simp)
    · next hfree =>
      obtain ⟨rfl, rfl⟩ := Prod.mk.inj (Option.some.inj hstep)
      exact ⟨hquiet, h.opened hfree hg⟩
  | request c reqid cmd args after =>
    simp only [daemonStep] at hstep
    split at hstep
    · exact absurd hstep (by simp)
    · next conn hconn =>
      split at hstep
      · exact absurd hstep (by simp)
      · obtain ⟨rfl, rfl⟩ := Prod.mk.inj (Option.some.inj hstep)
        obtain ⟨hqueue, hsock⟩ := handleCmd_queued reqid conn.sock cmd args after conn.opts s.shared
        exact ⟨hquiet, (h.push (h.bound c conn hconn) hqueue hsock).setConn hconn rfl⟩
  | send c n =>
    simp only [daemonStep] at hstep
    split at hstep
    · exact absurd hstep (by simp)
    · next conn hconn =>
      split at hstep
      · exact absurd hstep (by simp)
      · split at hstep
        · next hdest =>
          -- a direct write: the socket is that of an open connection
          obtain ⟨rfl, rfl⟩ := Prod.mk.inj (Option.some.inj hstep)
          refine ⟨fun d hd => ?_, h.setConn hconn rfl⟩
          obtain rfl := List.mem_singleton.mp hd
          exact Option.some.inj (hdest.symm.trans (h.bound c conn hconn))
        · obtain ⟨rfl, rfl⟩ := Prod.mk.inj (Option.some.inj hstep)
          exact ⟨hquiet, h.setConn hconn rfl⟩
  | close c =>
    simp only [daemonStep] at hstep
    split at hstep
    · exact absurd hstep (by simp)
    · next conn hconn =>
      obtain ⟨rfl, rfl⟩ := Prod.mk.inj (Option.some.inj hstep)
      exact ⟨hquiet, h.closed hconn⟩
  | pop w =>
    simp only [daemonStep] at hstep
    split at hstep
    · next req fqm asker askers _ hpop haskers =>
      split at hstep
      · obtain ⟨rfl, rfl⟩ := Prod.mk.inj (Option.some.inj hstep)
        obtain ⟨hcur, hinv⟩ := h.pop hpop haskers
        refine ⟨hquiet, hinv.setWorker fun req' asker' hjob => ?_⟩
        obtain ⟨rfl, rfl⟩ := Prod.mk.inj (Option.some.inj hjob)
        exact hcur
      · exact absurd hstep (by simp)
    · exact absurd hstep (by simp)
  | connect w fd =>
    simp only [daemonStep] at hstep
    split at hstep
    · next hfree =>
      obtain ⟨rfl, rfl⟩ := Prod.mk.inj (Option.some.inj hstep)
      exact ⟨hquiet, h.newLink hfree hg⟩
    · exact absurd hstep (by simp)
  | hangup w =>
    obtain ⟨rfl, rfl⟩ := Prod.mk.inj (Option.some.inj hstep)
    exact ⟨hquiet, h.unlinked w⟩
  | query w reply =>
    simp only [daemonStep] at hstep
    split at hstep
    · next req asker row hw hrow =>
      split at hstep
      · exact absurd hstep (by simp)
      · obtain ⟨hinv, hcur⟩ := h.queried hw reply
        split at hstep
        · obtain ⟨rfl, rfl⟩ := Prod.mk.inj (Option.some.inj hstep)
          exact ⟨hquiet, hinv.setWorker fun req' asker' hjob => absurd hjob (by simp [Worker.job])⟩
        · obtain ⟨rfl, rfl⟩ := Prod.mk.inj (Option.some.inj hstep)
          refine ⟨hquiet, hinv.setWorker fun req' asker' hjob => ?_⟩
          obtain ⟨rfl, rfl⟩ := Prod.mk.inj (Option.some.inj hjob)
          exact hcur
    · exact absurd hstep (by simp)
  | write w n =>
    simp only [daemonStep] at hstep
    have hidle : DaemonInv (s.setWorker w .idle) :=
      h.setWorker fun req asker hjob => absurd hjob (by simp [Worker.job])
    split at hstep
    · next req asker rest row hw =>
      have hcur : s.fds.Current req.sock (.conn asker) := h.working w req asker (by rw [hw]; rfl)
      split at hstep
      · next dest hdest =>
        -- the number a request carries leads to its asker, if to anybody
        have hgood : ∀ bytes, ∀ d ∈ [(⟨bytes, req.reqid, dest, asker⟩ : Delivery)],
            d.dest = .conn d.asker := by
          intro bytes d hd
          obtain rfl := List.mem_singleton.mp hd
          exact hcur.found hdest
        split at hstep
        · obtain ⟨rfl, rfl⟩ := Prod.mk.inj (Option.some.inj hstep)
          refine ⟨hgood _, hidle.setShared ?_⟩
          unfold fallthroughCache
          split
          · rfl
          · rfl
        · obtain ⟨rfl, rfl⟩ := Prod.mk.inj (Option.some.inj hstep)
          refine ⟨hgood _, h.setWorker fun req' asker' hjob => ?_⟩
          obtain ⟨rfl, rfl⟩ := Prod.mk.inj (Option.some.inj hjob)
          exact hcur
      · obtain ⟨rfl, rfl⟩ := Prod.mk.inj (Option.some.inj hstep)
        exact ⟨hquiet, hidle⟩
    · exact absurd hstep (by simp)
  | openFile fd =>
    simp only [daemonStep] at hstep
    split at hstep
    · exact absurd hstep (by simp)
    · next hfree =>
      obtain ⟨rfl, rfl⟩ := Prod.mk.inj (Option.some.inj hstep)
      obtain ⟨hbound, hlinked, hqueued, hworking⟩ := h.bind hfree hg .other
      exact ⟨hquiet, ⟨hbound, hlinked, h.fresh, h.counted, hqueued, hworking⟩⟩
  | closeFile fd =>
    simp only [daemonStep] at hstep
    split at hstep
    · next hfd =>
      obtain ⟨rfl, rfl⟩ := Prod.mk.inj (Option.some.inj hstep)
      refine ⟨hquiet, h.release (fun c conn hconn he => ?_) fun w n hn he => ?_⟩
      · have hsock := h.bound c conn hconn
        rw [he, hfd] at hsock
        exact absurd (Option.some.inj hsock) (by simp)
      · have hlink := h.linked w n hn
        rw [he, hfd] at hlink
        exact absurd (Option.some.inj hlink) (by simp)
    · exact absurd hstep (by simp)
  | periodic memdb cdb now =>
    obtain ⟨rfl, rfl⟩ := Prod.mk.inj (Option.some.inj hstep)
    exact ⟨hquiet, h.setShared rfl⟩

end Keeps

/-- **When replies reach their askers**: in every run in which no number is handed out
that a request still waits for. -/
theorem replies_reach_asker (shared : Shared) (maxitems : Int) (acts : List Act)
    (outs : List (List Delivery)) (s : Daemon)
    (hrun : runs daemonStep (daemonStart shared maxitems) acts = some (outs, s))
    (hreuse : Guarded daemonStep Reusable (daemonStart shared maxitems) acts) : ToAskers outs :=
  runs_forall_outputs (I := DaemonInv) (fun _ _ _ _ hI hg hstep => hI.step hg hstep)
    (daemonInv_start shared maxitems) hreuse hrun

/-- No CDB, an empty cache. -/
def bareShared : Shared := ⟨fun _ => none, cdbUnloaded, fqmNew 10, 0, 60, 0, []⟩

/-- The same descriptor for two clients, but the first got its reply before; the worker's
connection to MySQL has another. -/
theorem replies_reach_asker_reused :
    ToAskers [[], [], [], [], [], [⟨[0, 5, 0, 7, 0xf1], 7, .conn 0, 0⟩], [], []] := by
  have hguard : Guarded daemonStep Reusable (daemonStart bareShared 10)
      [.accept 5, .request 0 7 NASTGET [0x6b] fun _ => 0, .pop 0, .connect 0 6, .query 0 .noRow,
        .write 0 (some 5), .close 0, .accept 5] := by
    refine guarded_cons ⟨fun req hreq => absurd hreq List.not_mem_nil,
      fun w req asker hjob => absurd hjob (Option.some_ne_none _).symm⟩ rfl ?_
    refine guarded_cons trivial rfl (guarded_cons trivial rfl (guarded_cons ⟨?_, ?_⟩ rfl
      (guarded_cons trivial rfl (guarded_cons trivial rfl (guarded_cons trivial rfl
        (guarded_cons ⟨?_, ?_⟩ rfl trivial))))))
    · exact fun req hreq => absurd hreq List.not_mem_nil
    · intro w req asker hjob
      cases w with
      | zero =>
        obtain ⟨rfl, -⟩ := Prod.mk.inj (Option.some.inj hjob)
        decide
      | succ w => exact absurd hjob (Option.some_ne_none _).symm
    · exact fun req hreq => absurd hreq List.not_mem_nil
    · intro w req asker hjob
      cases w with
      | zero => exact absurd hjob (Option.some_ne_none _).symm
      | succ w => exact absurd hjob (Option.some_ne_none _).symm
  exact replies_reach_asker bareShared 10
    [.accept 5, .request 0 7 NASTGET [0x6b] fun _ => 0, .pop 0, .connect 0 6, .query 0 .noRow,
      .write 0 (some 5), .close 0, .accept 5] _ _ rfl hguard

/-- A client asks and hangs up, and the worker that takes its request connects to MySQL on
that descriptor: the reply goes to MySQL. -/
example :
    ∃ s, runs daemonStep (daemonStart bareShared 10)
        [.accept 5, .request 0 7 NASTGET [0x6b] fun _ => 0, .close 0, .pop 0, .connect 0 5,
          .query 0 .noRow, .write 0 (some 5)]
      = some ([[], [], [], [], [], [], [⟨[0, 5, 0, 7, 0xf1], 7, .mysql 0, 0⟩]], s) :=
  ⟨_, rfl⟩

/-- A client asks and hangs up, and the next one gets its descriptor: the reply to the
first goes to the second. -/
theorem reply_to_stranger :
    ¬ ∀ (shared : Shared) (maxitems : Int) (acts : List Act) (outs : List (List Delivery))
      (s : Daemon), runs daemonStep (daemonStart shared maxitems) acts = some (outs, s) →
      ToAskers outs := by
  intro h
  have hto := h bareShared 10
    [.accept 5, .request 0 7 NASTGET [0x6b] fun _ => 0, .close 0, .accept 5, .pop 0,
      .connect 0 6, .query 0 .noRow, .write 0 (some 5)]
    [[], [], [], [], [], [], [], [⟨[0, 5, 0, 7, 0xf1], 7, .conn 1, 0⟩]] _ rfl
  have hsame : FdOwner.conn 1 = .conn 0 := hto [⟨[0, 5, 0, 7, 0xf1], 7, .conn 1, 0⟩] (by decide)
    ⟨[0, 5, 0, 7, 0xf1], 7, .conn 1, 0⟩ (List.mem_singleton_self _)
  exact absurd hsame (by decide)

end Nastd.Server
