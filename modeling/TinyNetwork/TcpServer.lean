import Mathlib.Data.List.AList
import Mathlib.Logic.Function.Basic
import TinyNetwork.Buffer
import TinyNetwork.Decimals

/-! The server, its loops and their functors. Loop 0 is the base loop, whose thread
accepts, removes and destroys; the loops of the pool follow it. A connection is named
by its place in the order of acceptance. `trace` holds the functors that were called,
each with the loop whose thread called it. -/
namespace TinyNetwork
open Decimals

structure InetAddress where
  a : UInt8
  b : UInt8
  c : UInt8
  d : UInt8
  port : UInt16
  deriving DecidableEq, Repr

def InetAddress.toIp (address : InetAddress) : Bytes :=
  natural address.a.toNat ++ ascii "." ++ natural address.b.toNat ++ ascii "." ++
    natural address.c.toNat ++ ascii "." ++ natural address.d.toNat

def InetAddress.toIpPort (address : InetAddress) : Bytes :=
  address.toIp ++ ascii ":" ++ natural address.port.toNat

structure EventLoopThreadPool where
  loops : Nat
  next : Nat
  deriving DecidableEq, Repr

/- The loop handed out, 0 for the base loop, and the pool afterwards. -/
def EventLoopThreadPool.getNextLoop (p : EventLoopThreadPool) : Nat × EventLoopThreadPool :=
  if p.loops = 0 then (0, p)
  else (p.next + 1, { p with next := if p.next + 1 ≥ p.loops then 0 else p.next + 1 })

namespace TcpServer

structure Connection where
  name : Bytes
  loop : Nat
  deriving DecidableEq, Repr

inductive Functor where
  | connectEstablished (conn : Nat)
  | connectDestroyed (conn : Nat)
  | removeConnectionInLoop (conn : Nat)
  deriving DecidableEq, Repr

end TcpServer

/- `ending` are the connections that a destructor under way has still to end. -/
structure TcpServer where
  name : Bytes
  ipPort : Bytes
  threadPool : EventLoopThreadPool
  nextConnId : Int
  connections : AList (fun _ : Bytes => Nat)
  alive : Bool
  ending : List Nat
  accepted : List TcpServer.Connection
  queues : Nat → List TcpServer.Functor
  trace : List (Nat × TcpServer.Functor)

namespace TcpServer

def construct (listenAddr : InetAddress) (name : Bytes) (numThreads : Nat) : TcpServer :=
  ⟨name, listenAddr.toIpPort, ⟨numThreads, 0⟩, 1, ∅, true, [], [], fun _ => [], []⟩

/- snprintf keeps 63 bytes of "-%s#%d" in a buffer of 64. -/
def connName (name ipPort : Bytes) (id : Int) : Bytes :=
  name ++ (ascii "-" ++ ipPort ++ ascii "#" ++ integer id).take 63

def succ (id : Int) : Int := if id = 2 ^ 31 - 1 then -(2 ^ 31) else id + 1

def queueInLoop (s : TcpServer) (loop : Nat) (f : Functor) : TcpServer :=
  { s with queues := Function.update s.queues loop (s.queues loop ++ [f]) }

/- A functor that outlives the server still finds its connection; what it erases from
the map is then not looked at any more. -/
def removeConnectionInLoop (s : TcpServer) (conn : Nat) : TcpServer :=
  match s.accepted[conn]? with
  | none => s
  | some c =>
      let connections := if s.alive then s.connections.erase c.name else s.connections
      { s with connections }.queueInLoop c.loop (.connectDestroyed conn)

def call (s : TcpServer) (here : Nat) (f : Functor) : TcpServer :=
  let s := { s with trace := s.trace ++ [(here, f)] }
  match f with
  | .connectEstablished _ | .connectDestroyed _ => s
  | .removeConnectionInLoop conn => s.removeConnectionInLoop conn

def runInLoop (s : TcpServer) (here loop : Nat) (f : Functor) : TcpServer :=
  if here = loop then s.call here f else s.queueInLoop loop f

def newConnection (s : TcpServer) : TcpServer :=
  let (ioLoop, threadPool) := s.threadPool.getNextLoop
  let connName := connName s.name s.ipPort s.nextConnId
  let conn := s.accepted.length
  let s : TcpServer := { s with
    threadPool
    nextConnId := succ s.nextConnId
    connections := s.connections.insert connName conn
    accepted := s.accepted ++ [⟨connName, ioLoop⟩] }
  s.runInLoop 0 ioLoop (.connectEstablished conn)

def removeConnection (s : TcpServer) (here conn : Nat) : TcpServer :=
  s.runInLoop here 0 (.removeConnectionInLoop conn)

/- The destructor goes through the map in the map's own order, one connection a step. -/
def destroy (s : TcpServer) : TcpServer :=
  { s with alive := false, ending := s.connections.entries.map Sigma.snd }

def destroyNext (s : TcpServer) (conn : Nat) : Option TcpServer :=
  match s.accepted[conn]? with
  | none => none
  | some c =>
      if conn ∈ s.ending then
        some ({ s with ending := s.ending.erase conn }.runInLoop 0 c.loop (.connectDestroyed conn))
      else none

/- The next functor of a loop; the base loop does not get to one inside the destructor. -/
def runFunctor (s : TcpServer) (loop : Nat) : Option TcpServer :=
  match s.queues loop with
  | [] => none
  | f :: rest =>
      if loop = 0 ∧ s.ending ≠ [] then none
      else some ({ s with queues := Function.update s.queues loop rest }.call loop f)

end TcpServer
end TinyNetwork
