import Vingilot.Tunnel.Directory

/-!
# The peer tables of the mesh runtimes (`buzz-relay-mesh/src/runtime.rs`)

Two runtimes may dial each other, and each keeps at most one of the two connections. A connection
that is not kept is closed once its last handle is dropped, and the loops on the other side find
that out at some later time.
-/

namespace Vingilot.RelayMesh

open Tunnel (RuntimeId)

structure Conn where
  dialer : RuntimeId
  acceptor : RuntimeId
deriving DecidableEq

namespace Conn

def flip (c : Conn) : Conn := ⟨c.acceptor, c.dialer⟩

def remote (c : Conn) (r : RuntimeId) : RuntimeId := if r = c.dialer then c.acceptor else c.dialer

def hasEnd (c : Conn) (r : RuntimeId) : Bool := r = c.dialer || r = c.acceptor

end Conn

/-- `datagram_recv_loop` and `stream_accept_loop`. -/
inductive RecvLoop where
  | datagram
  | stream
deriving DecidableEq

inductive LoopPhase where
  | running
  /-- `abort` was called. A poll that is under way goes on to its end. -/
  | aborted
  /-- The connection has ended, and `remove_peer` comes next. -/
  | noticed
  | ended
deriving DecidableEq

/-- `peers` has the entries of all tables, by the runtime whose table it is and by the peer.
`installed` has the connections that a runtime has called `install_peer` for, and `closed` those
that it has no handle of any more. -/
structure Dialing where
  peers : Table (RuntimeId × RuntimeId) Conn
  loops : Table (RuntimeId × Conn × RecvLoop) LoopPhase
  dialed : List Conn
  installed : List (RuntimeId × Conn)
  closed : List (RuntimeId × Conn)

namespace Dialing

def init : Dialing := ⟨∅, ∅, [], [], []⟩

def newConnectionWins (localId remote : RuntimeId) (newDialedByUs : Bool) : Bool :=
  if localId.bytes < remote.bytes then newDialedByUs else !newDialedByUs

def setLoop (w : Dialing) (r : RuntimeId) (c : Conn) (k : RecvLoop) (p : LoopPhase) : Dialing :=
  { w with loops := w.loops.set (r, c, k) p }

def abortLoop (w : Dialing) (r : RuntimeId) (c : Conn) (k : RecvLoop) : Dialing :=
  if w.loops.get? (r, c, k) = some .running then w.setLoop r c k .aborted else w

def abort (w : Dialing) (r : RuntimeId) (c : Conn) : Dialing :=
  (w.abortLoop r c .datagram).abortLoop r c .stream

/-- The end of `install_peer`: the loops are spawned and the entry is there. -/
def insert (w : Dialing) (r : RuntimeId) (c : Conn) : Dialing :=
  let w := (w.setLoop r c .datagram .running).setLoop r c .stream .running
  { w with peers := w.peers.set (r, c.remote r) c }

def installPeer (w : Dialing) (r : RuntimeId) (c : Conn) : Dialing × Bool :=
  match w.peers.get? (r, c.remote r) with
  | some existing =>
    if !newConnectionWins r (c.remote r) (r = c.dialer) then (w, false)
    else ((w.abort r existing).insert r c, true)
  | none => (w.insert r c, true)

def removePeer (w : Dialing) (r remote : RuntimeId) : Dialing :=
  match w.peers.get? (r, remote) with
  | some entry => { w.abort r entry with peers := w.peers.remove (r, remote) }
  | none => w

def holds (w : Dialing) (r : RuntimeId) (c : Conn) (k : RecvLoop) : Bool :=
  (w.loops.get? (r, c, k)).any fun p => p ≠ .ended

end Dialing

inductive DialAction where
  | dial (dialer acceptor : RuntimeId)
  | install (r : RuntimeId) (c : Conn)
  | close (r : RuntimeId) (c : Conn)
  | notice (r : RuntimeId) (c : Conn) (k : RecvLoop)
  | cancel (r : RuntimeId) (c : Conn) (k : RecvLoop)
  | remove (r : RuntimeId) (c : Conn) (k : RecvLoop)

open Dialing in
def dialStep (w : Dialing) : DialAction → Option Dialing
  | .dial dialer acceptor =>
    if dialer = acceptor || decide (⟨dialer, acceptor⟩ ∈ w.dialed) then none
    else some { w with dialed := w.dialed ++ [⟨dialer, acceptor⟩] }
  | .install r c =>
    if c.hasEnd r && decide (c ∈ w.dialed) && decide ((r, c) ∉ w.installed) then
      let w' := (w.installPeer r c).1
      some { w' with installed := (r, c) :: w'.installed }
    else none
  | .close r c =>
    if decide ((r, c) ∈ w.installed) && decide (w.peers.get? (r, c.remote r) ≠ some c) &&
        !w.holds r c .datagram && !w.holds r c .stream then
      some { w with closed := (r, c) :: w.closed }
    else none
  | .notice r c k =>
    match w.loops.get? (r, c, k) with
    | some .running | some .aborted =>
      if (c.remote r, c) ∈ w.closed then some (w.setLoop r c k .noticed) else none
    | _ => none
  | .cancel r c k =>
    match w.loops.get? (r, c, k) with
    | some .aborted => some (w.setLoop r c k .ended)
    | _ => none
  | .remove r c k =>
    match w.loops.get? (r, c, k) with
    | some .noticed => some ((w.removePeer r (c.remote r)).setLoop r c k .ended)
    | _ => none

namespace Dialing

/-- No connection is installed while a loop of the other one is about to call `remove_peer`, and a
loop that is aborted does not look at its connection any more. -/
def inTime (w : Dialing) : DialAction → Bool
  | .install r c =>
    w.loops.get? (r, c.flip, .datagram) ≠ some .noticed &&
      w.loops.get? (r, c.flip, .stream) ≠ some .noticed
  | .notice r c k => w.loops.get? (r, c, k) ≠ some .aborted
  | _ => true

def loopsEnded (w : Dialing) (c : Conn) : Bool :=
  !w.holds c.dialer c .datagram && !w.holds c.dialer c .stream &&
    !w.holds c.acceptor c .datagram && !w.holds c.acceptor c .stream

def succeeded (w : Dialing) (c : Conn) : Bool :=
  decide ((c.dialer, c) ∈ w.installed) && decide ((c.acceptor, c) ∈ w.installed)

end Dialing

end Vingilot.RelayMesh
