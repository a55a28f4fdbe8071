import Mathlib.Tactic.Common
import TinyNetwork.Basic
import TinyNetwork.Runs

/-! The pool of database connections. A MysqlConn* is an address; `objects` are the
connections that exist, and a function returns `none` when it follows a pointer to
none of them, or for an address that operator new cannot return. Each function is one
section under the mutex; clock readings are nanoseconds of the steady clock. What
happens on the database connection itself is no concern of the pool. -/
namespace TinyNetwork
open Runs Words

structure MysqlConn where
  alivetime : Int
  deriving DecidableEq, Repr

/- Milliseconds since the last refreshAliveTime. -/
def MysqlConn.getAliveTime (c : MysqlConn) (now : Int) : Int := (now - c.alivetime).tdiv 1000000

structure ConnectionPool where
  minSize : Int
  maxSize : Int
  currentSize : Int
  maxIdleTime : Int
  connectionQueue : List Nat
  objects : List (Nat × MysqlConn)
  deriving DecidableEq, Repr

namespace ConnectionPool

def existing (p : ConnectionPool) : List Nat := p.objects.map Prod.fst

def refreshAliveTime (p : ConnectionPool) (conn : Nat) (now : Int) : Option ConnectionPool := do
  let _ ← p.objects.lookup conn
  some { p with objects := p.objects.map (fun o => if o.1 = conn then (o.1, ⟨now⟩) else o) }

def push (p : ConnectionPool) (conn : Nat) : ConnectionPool :=
  { p with connectionQueue := p.connectionQueue ++ [conn] }

def addConnection (p : ConnectionPool) (conn : Nat) (now : Int) : Option ConnectionPool :=
  if conn ∈ p.existing then none
  else do
    let p := { p with objects := p.objects ++ [(conn, (⟨0⟩ : MysqlConn))] }
    let p ← p.refreshAliveTime conn now
    let p := p.push conn
    some { p with currentSize := p.currentSize + 1 }

/- addConnection(); currentSize_++; as the constructor and the producer have it. -/
def addCounted (p : ConnectionPool) (made : Nat × Int) : Option ConnectionPool := do
  let p ← p.addConnection made.1 made.2
  some { p with currentSize := p.currentSize + 1 }

/- The constructor makes minSize_ connections; `made` are their addresses and times. -/
def construct (minSize maxSize maxIdleTime : Int) (made : List (Nat × Int)) : Option ConnectionPool :=
  if made.length = minSize.toNat then run addCounted ⟨minSize, maxSize, 0, maxIdleTime, [], []⟩ made
  else none

def produceConnection (p : ConnectionPool) (conn : Nat) (now : Int) : Option ConnectionPool :=
  if !p.connectionQueue.isEmpty then some p
  else if p.currentSize < p.maxSize then p.addCounted (conn, now)
  else some p

/- The inner loop of the recycler from the front of the queue; `readings` are the
times at which it asks for the age of a connection. -/
def recycleFrom (readings : Nat → Int) : Nat → ConnectionPool → List Nat → Option ConnectionPool
  | _, p, [] => some { p with connectionQueue := [] }
  | n, p, conn :: rest =>
      if widen p.minSize < (conn :: rest).length then do
        let c ← p.objects.lookup conn
        if p.maxIdleTime ≤ c.getAliveTime (readings n) then
          recycleFrom readings (n + 1)
            { p with
              objects := p.objects.filter (fun o => o.1 ≠ conn)
              currentSize := p.currentSize - 1 } rest
        else some { p with connectionQueue := conn :: rest }
      else some { p with connectionQueue := conn :: rest }

def recycleConnection (p : ConnectionPool) (readings : Nat → Int) : Option ConnectionPool :=
  recycleFrom readings 0 p p.connectionQueue

def takeConnection (p : ConnectionPool) : Option (Nat × ConnectionPool) :=
  match p.connectionQueue with
  | [] => none
  | conn :: rest => some (conn, { p with connectionQueue := rest })

def giveBack (p : ConnectionPool) (conn : Nat) (now : Int) : Option ConnectionPool := do
  let p ← p.refreshAliveTime conn now
  some (p.push conn)

end ConnectionPool
end TinyNetwork
