import TinyNetwork.Buffer
import TinyNetwork.Channel

/-! One TCP connection inside its loop thread. A call takes the outcomes of the
system calls it makes and returns the connection together with what it did to the
outside, in order: bytes the kernel took, failed writes, functors queued in the
loop, the half-close and the log. A call returns `none` only where the output
buffer does, or for an outcome ::write cannot have. -/
namespace TinyNetwork

inductive StateE where
  | kDisconnected
  | kConnecting
  | kConnected
  | kDisconnecting
  deriving DecidableEq, Repr

inductive Errno where
  | ewouldblock
  | epipe
  | econnreset
  | other (code : Nat)
  deriving DecidableEq, Repr

inductive WriteOutcome where
  | wrote (n : Nat)
  | failed (errno : Errno)
  deriving DecidableEq, Repr

inductive Effect where
  | accepted (data : Bytes)
  | writeFailed (errno : Errno)
  | queueWriteComplete
  | queueHighWaterMark (size : Nat)
  | shutdownWrite
  | logError (text : String)
  deriving DecidableEq, Repr

structure TcpConnection where
  state : StateE
  channel : Channel
  writeCompleteCallback : Bool
  highWaterMarkCallback : Bool
  highWaterMark : Nat
  outputBuffer : Buffer
  deriving DecidableEq, Repr

namespace TcpConnection

/- The direct ::write of sendInLoop: how much of the data is gone, whether the
peer is, and the effects so far. -/
def directWrite (c : TcpConnection) (data : Bytes) : WriteOutcome → Option (Nat × Bool × List Effect)
  | .wrote n =>
      if n ≤ data.length then
        let complete := data.length - n = 0 ∧ c.writeCompleteCallback
        some (n, false, .accepted (data.take n) :: if complete then [.queueWriteComplete] else [])
      else none
  | .failed errno =>
      let faultError := errno = .epipe ∨ errno = .econnreset
      let log := if errno = .ewouldblock then [] else [.logError "TcpConnection::sendInLoop"]
      some (0, faultError, .writeFailed errno :: log)

/- The direct write is taken only when nothing is waiting to be written. -/
def firstWrite (c : TcpConnection) (data : Bytes) (outcome : WriteOutcome) :
    Option (Nat × Bool × List Effect) :=
  if !c.channel.isWriting && c.outputBuffer.readableBytes == 0 then c.directWrite data outcome
  else some (0, false, [])

def bufferRest (c : TcpConnection) (rest : Bytes) (effects : List Effect) :
    Option (TcpConnection × List Effect) := do
  let oldLen := c.outputBuffer.readableBytes
  let remaining := rest.length
  let mark := c.highWaterMark ≤ oldLen + remaining ∧ oldLen < c.highWaterMark ∧
    c.highWaterMarkCallback
  let output ← c.outputBuffer.append rest
  let channel := if c.channel.isWriting then c.channel else c.channel.enableWriting
  some ({ c with outputBuffer := output, channel },
    effects ++ if mark then [.queueHighWaterMark (oldLen + remaining)] else [])

def sendInLoop (c : TcpConnection) (data : Bytes) (outcome : WriteOutcome) :
    Option (TcpConnection × List Effect) :=
  if c.state = .kDisconnected then some (c, [.logError "disconnected, give up writing"])
  else do
    let (nwrote, faultError, effects) ← c.firstWrite data outcome
    let remaining := data.length - nwrote
    if !faultError && 0 < remaining then c.bufferRest (data.drop nwrote) effects
    else some (c, effects)

def shutdownInLoop (c : TcpConnection) : List Effect :=
  if c.channel.isWriting then [] else [.shutdownWrite]

/- shutdown() called in the loop thread, where runInLoop runs the functor at once. -/
def shutdown (c : TcpConnection) : TcpConnection × List Effect :=
  if c.state = .kConnected then
    let c := { c with state := .kDisconnecting }
    (c, c.shutdownInLoop)
  else (c, [])

/- handleWrite after writeFd gave n > 0. -/
def drained (c : TcpConnection) (n : Nat) : TcpConnection × List Effect :=
  let c := { c with outputBuffer := c.outputBuffer.retrieve n }
  if c.outputBuffer.readableBytes = 0 then
    let c := { c with channel := c.channel.disableWriting }
    let complete := if c.writeCompleteCallback then [.queueWriteComplete] else []
    (c, complete ++ if c.state = .kDisconnecting then c.shutdownInLoop else [])
  else (c, [])

def handleWrite (c : TcpConnection) (outcome : WriteOutcome) :
    Option (TcpConnection × List Effect) :=
  if c.channel.isWriting then
    match outcome with
    | .wrote n =>
        if n ≤ c.outputBuffer.readableBytes then
          let taken := Effect.accepted (c.outputBuffer.readable.take n)
          if 0 < n then
            let (c, effects) := c.drained n
            some (c, taken :: effects)
          else some (c, [taken, .logError "TcpConnection::handleWrite() failed"])
        else none
    | .failed errno =>
        some (c, [.writeFailed errno, .logError "TcpConnection::handleWrite() failed"])
  else
    some (c, [.logError ("TcpConnection fd=" ++ toString c.channel.fd ++ " is down, no more writing")])

end TcpConnection
end TinyNetwork
