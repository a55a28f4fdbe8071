import TinyNetwork.TcpConnection

/-! The life of a connection in its loop thread: what the channel calls for the events
of a mask, and what TcpServer calls at both ends. User callbacks run inside these
calls and may themselves call send() and shutdown(); what a callback does is a list
of such calls. A call returns `none` only where a buffer does, or for an outcome the
system call cannot have. -/
namespace TinyNetwork

inductive Note where
  | setState (state : StateE)
  | connectionCallback (connected : Bool)
  | messageCallback
  | closeCallback
  | removeChannel
  | handleError
  | effect (effect : Effect)
  deriving DecidableEq, Repr

inductive UserCall where
  | send (data : Bytes) (outcome : WriteOutcome)
  | shutdown
  deriving DecidableEq, Repr

structure LiveConnection where
  conn : TcpConnection
  inputBuffer : Buffer
  trace : List Note
  deriving DecidableEq, Repr

namespace LiveConnection

def make (fd : Nat) (writeComplete highWater : Bool) (mark : Nat) : LiveConnection :=
  ⟨⟨.kConnecting, Channel.make fd, writeComplete, highWater, mark, Buffer.fresh⟩, Buffer.fresh, []⟩

def note (l : LiveConnection) (n : Note) : LiveConnection := { l with trace := l.trace ++ [n] }

def setState (l : LiveConnection) (state : StateE) : LiveConnection :=
  { l with conn := { l.conn with state } }.note (.setState state)

def setChannel (l : LiveConnection) (channel : Channel) : LiveConnection :=
  { l with conn := { l.conn with channel } }

def effects (l : LiveConnection) (conn : TcpConnection) (effects : List Effect) : LiveConnection :=
  { l with conn, trace := l.trace ++ effects.map .effect }

def connected (l : LiveConnection) : Bool := decide (l.conn.state = .kConnected)

def send (l : LiveConnection) (data : Bytes) (outcome : WriteOutcome) : Option LiveConnection :=
  if l.conn.state = .kConnected then do
    let (conn, effects) ← l.conn.sendInLoop data outcome
    some (l.effects conn effects)
  else some l

def shutdown (l : LiveConnection) : LiveConnection :=
  if l.conn.state = .kConnected then
    let l := l.setState .kDisconnecting
    l.effects l.conn l.conn.shutdownInLoop
  else l

def call (l : LiveConnection) : UserCall → Option LiveConnection
  | .send data outcome => l.send data outcome
  | .shutdown => some l.shutdown

def calls (l : LiveConnection) : List UserCall → Option LiveConnection
  | [] => some l
  | c :: rest => do
      let l ← l.call c
      l.calls rest

def connectionCallback (l : LiveConnection) (script : List UserCall) : Option LiveConnection :=
  (l.note (.connectionCallback l.connected)).calls script

def connectEstablished (l : LiveConnection) (script : List UserCall) : Option LiveConnection :=
  let l := l.setState .kConnected
  let l := l.setChannel l.conn.channel.enableReading
  l.connectionCallback script

def connectDestroyed (l : LiveConnection) (script : List UserCall) : Option LiveConnection :=
  if l.conn.state = .kConnected then do
    let l := l.setState .kDisconnected
    let l := l.setChannel l.conn.channel.disableAll
    let l ← l.connectionCallback script
    some (l.note .removeChannel)
  else some (l.note .removeChannel)

def handleClose (l : LiveConnection) (script : List UserCall) : Option LiveConnection := do
  let l := l.setState .kDisconnected
  let l := l.setChannel l.conn.channel.disableAll
  let l ← l.connectionCallback script
  some (l.note .closeCallback)

def handleError (l : LiveConnection) : LiveConnection := l.note .handleError

/- `script` is what the message callback does, or the connection callback at the end
of the stream. -/
def handleRead (l : LiveConnection) (readv : Readv) (script : List UserCall) : Option LiveConnection := do
  let (inputBuffer, n) ← l.inputBuffer.readFd readv
  let l := { l with inputBuffer }
  if 0 < n then (l.note .messageCallback).calls script
  else if n = 0 then l.handleClose script
  else some (l.note (.effect (.logError "TcpConnection::handleRead() failed"))).handleError

def handleWrite (l : LiveConnection) (outcome : WriteOutcome) : Option LiveConnection := do
  let (conn, effects) ← l.conn.handleWrite outcome
  some (l.effects conn effects)

/- One report of the poller, with the outcomes of the system calls that handling it
makes and what the user does in the callbacks. -/
structure Delivery where
  revents : EpollMask
  readv : Readv
  write : WriteOutcome
  closeScript : List UserCall
  readScript : List UserCall
  deriving DecidableEq, Repr

def closeEvent (l : LiveConnection) (d : Delivery) : Option LiveConnection :=
  if d.revents.epollhup && !d.revents.epollin then l.handleClose d.closeScript else some l

def errorEvent (l : LiveConnection) (d : Delivery) : LiveConnection :=
  if d.revents.epollerr then
    (l.note (.effect (.logError ("the fd = " ++ toString l.conn.channel.fd)))).handleError
  else l

def readEvent (l : LiveConnection) (d : Delivery) : Option LiveConnection :=
  if d.revents.epollin || d.revents.epollpri then l.handleRead d.readv d.readScript else some l

def writeEvent (l : LiveConnection) (d : Delivery) : Option LiveConnection :=
  if d.revents.epollout then l.handleWrite d.write else some l

def handleEventWithGuard (l : LiveConnection) (d : Delivery) : Option LiveConnection := do
  let l ← l.closeEvent d
  let l := l.errorEvent d
  let l ← l.readEvent d
  l.writeEvent d

end LiveConnection
end TinyNetwork
