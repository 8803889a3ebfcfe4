import Nastd.Nastipc

/-!
# The fallthrough queue

`server/fqm.c`: what connection threads push and fallthrough workers pop. A request
remembers the descriptor to answer on and the request id; its handler is always
`do_fallthrough`. The number of items is kept beside the list, as in the source, and
`fqm_push` looks at it before it takes the lock. Allocations succeed.
-/

namespace Nastd.Server

/-- `request_t`. -/
structure Request where
  /-- `reqlen` bytes; the source puts a NUL behind them. -/
  req : Bytes
  sock : Nat
  reqid : UInt16
  deriving DecidableEq, Repr

/-- `fqm_t`: the queue from `sreq` on, and its counters. -/
structure Fqm where
  queue : List Request
  nitems : Int
  maxitems : Int

/-- `fqm_new`. -/
def fqmNew (maxitems : Int) : Fqm := ⟨[], 0, maxitems⟩

/-- `req_new`. -/
def reqNew (sock : Nat) (reqid : UInt16) (reqstr : Bytes) : Request := ⟨reqstr, sock, reqid⟩

/-- `fqm_push`: -1 when the queue is full. -/
def fqmPush (fqm : Fqm) (req : Request) : Int × Fqm :=
  if fqm.nitems = fqm.maxitems then (-1, fqm)
  else (0, { fqm with queue := fqm.queue ++ [req], nitems := fqm.nitems + 1 })

theorem fqmPush_full {fqm : Fqm} {req : Request} :
    (fqmPush fqm req).1 = -1 ↔ fqm.nitems = fqm.maxitems := by
  unfold fqmPush
  split
  · next hfull => exact ⟨fun _ => hfull, fun _ => rfl⟩
  · next hroom => exact ⟨fun h => absurd h (by simp), fun h => absurd h hroom⟩

theorem fqmPush_queue {fqm : Fqm} {req : Request} (h : (fqmPush fqm req).1 ≠ -1) :
    (fqmPush fqm req).2.queue = fqm.queue ++ [req] := by
  have hroom : ¬ fqm.nitems = fqm.maxitems := fun hfull => h (fqmPush_full.mpr hfull)
  unfold fqmPush
  rw [if_neg hroom]

/-- `fqm_pop` when something is on the queue. -/
def fqmPop (fqm : Fqm) : Option (Request × Fqm) :=
  match fqm.queue with
  | [] => none
  | req :: rest => some (req, { fqm with queue := rest, nitems := fqm.nitems - 1 })

end Nastd.Server
