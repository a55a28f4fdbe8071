import TinyNetwork.HttpContext
import TinyNetwork.TcpConnection

/-! The HTTP server on one connection, inside the connection's loop thread. What a
client can see is the sequence of buffers that send() hands to the socket and of
shutdown() calls. A session that is not alive met an exception or a loop without
end: nothing more happens in it. -/
namespace TinyNetwork
open Buffer

inductive HttpStatusCode where
  | kUnknown
  | k200Ok
  | k301MovedPermanently
  | k400BadRequest
  | k404NotFound
  deriving DecidableEq, Repr

def HttpStatusCode.value : HttpStatusCode → Nat
  | .kUnknown => 0
  | .k200Ok => 200
  | .k301MovedPermanently => 301
  | .k400BadRequest => 400
  | .k404NotFound => 404

/- The headers are the entries of the hash map in the order it iterates over them. -/
structure HttpResponse where
  statusCode : HttpStatusCode := .kUnknown
  statusMessage : Bytes := []
  closeConnection : Bool
  headers : List (Bytes × Bytes) := []
  body : Bytes := []
  deriving DecidableEq, Repr

namespace HttpResponse

/- snprintf into the 32 bytes of buf keeps at most 31 characters. -/
def formatted (text : String) : Bytes := (ascii text).take 31

def connectionLines (r : HttpResponse) : List Bytes :=
  if r.closeConnection then [ascii "Connection: close\r\n"]
  else
    [formatted ("Content-Length: " ++ toString r.body.length ++ "\r\n"),
      ascii "Connection: Keep-Alive\r\n"]

def pieces (r : HttpResponse) : List Bytes :=
  [formatted ("HTTP/1.1 " ++ toString r.statusCode.value ++ " "), r.statusMessage, kCRLF] ++
    r.connectionLines ++
    r.headers.flatMap (fun header => [header.1, ascii ": ", header.2, kCRLF]) ++
    [kCRLF, r.body]

def appendToBuffer (r : HttpResponse) (output : Buffer) : Option Buffer :=
  r.pieces.foldlM Buffer.append output

theorem appendAll {pieces : List Bytes} {b c : Buffer} (valid : Valid b)
    (front : b.readerIndex = kCheapPrepend) (ok : pieces.foldlM Buffer.append b = some c) :
    c.readable = b.readable ++ pieces.flatten := by
  induction pieces generalizing b with
  | nil => cases Option.some.inj ok; simp
  | cons piece rest ih =>
    simp only [List.foldlM_cons, bind, Option.bind_eq_some_iff] at ok
    obtain ⟨d, first, later⟩ := ok
    obtain ⟨added, kept⟩ := appendedFront valid front first
    rw [ih added.valid kept later, added.content, List.flatten_cons, List.append_assoc]

theorem appendToBufferSpec {r : HttpResponse} {buf : Buffer} (ok : r.appendToBuffer fresh = some buf) :
    buf.readable = r.pieces.flatten := by
  rw [appendAll freshValid freshFront.1 ok, freshReadable, List.nil_append]

theorem piecesLength (r : HttpResponse) : 34 ≤ r.pieces.flatten.length := by
  have status : 11 ≤ (formatted ("HTTP/1.1 " ++ toString r.statusCode.value ++ " ")).length := by
    cases r.statusCode <;> decide
  have connection : 19 ≤ r.connectionLines.flatten.length := by
    unfold connectionLines
    split
    · decide
    · rw [List.flatten_cons, List.length_append]
      exact Nat.le_add_left_of_le (by decide)
  simp only [pieces, List.flatten_append, List.flatten_cons, List.flatten_nil, List.length_append,
    kCRLF, List.length_cons, List.length_nil]
  omega

end HttpResponse

def HttpCallback : Type := HttpRequest → HttpResponse → HttpResponse

def defaultHttpCallback : HttpCallback := fun _ resp =>
  { resp with
    statusCode := .k404NotFound
    statusMessage := ascii "Not Found"
    closeConnection := true }

inductive Event where
  | sent (data : Bytes)
  | shutdown
  deriving DecidableEq, Repr

structure Session where
  state : StateE
  inputBuffer : Buffer
  events : List Event
  alive : Bool
  deriving DecidableEq, Repr

namespace Session

def send (s : Session) (data : Bytes) : Session :=
  if s.state = .kConnected then { s with events := s.events ++ [.sent data] } else s

def shutdown (s : Session) : Session :=
  let s := { s with events := s.events ++ [.shutdown] }
  if s.state = .kConnected then { s with state := .kDisconnecting } else s

def abort (s : Session) : Session := { s with alive := false }

end Session

namespace HttpServer

def badRequest : Bytes := ascii "HTTP/1.1 400 Bad Request\r\n\r\n"

def onRequest (httpCallback : HttpCallback) (s : Session) (req : HttpRequest) : Session :=
  -- the Connection header and the version are read, but close is then set to true
  let response := httpCallback req { closeConnection := true }
  match response.appendToBuffer fresh with
  | some buf =>
      let s := s.send buf.readable
      if response.closeConnection then s.shutdown else s
  | none => s.abort

def onMessage (httpCallback : HttpCallback) (receiveTime : Timestamp) (s : Session) : Session :=
  -- a new context for every message: nothing of an earlier parse is kept
  match HttpContext.parseRequest {} s.inputBuffer receiveTime with
  | some (ok, context, inputBuffer) =>
      let s := { s with inputBuffer }
      let s := if ok then s else (s.send badRequest).shutdown
      if context.gotAll then onRequest httpCallback s context.request else s
  | none => s.abort

def deliver (httpCallback : HttpCallback) (receiveTime : Timestamp) (s : Session) (segment : Bytes) :
    Session :=
  if s.alive then
    match s.inputBuffer.append segment with
    | some inputBuffer => onMessage httpCallback receiveTime { s with inputBuffer }
    | none => s.abort
  else s

def connected : Session := ⟨.kConnected, fresh, [], true⟩

def serve (httpCallback : HttpCallback) (receiveTime : Timestamp) (segments : List Bytes) : List Event :=
  (segments.foldl (deliver httpCallback receiveTime) connected).events

end HttpServer
end TinyNetwork
