import Mathlib.Data.List.AList
import Mathlib.Data.List.DropRight
import TinyNetwork.Basic
import TinyNetwork.Buffer
import TinyNetwork.FirstMatch

/-! The HTTP request parser. `parseStep` is one turn of the while loop of
parseRequest; the loop runs on fuel, and running out of it stands for a loop that
does not end. A range [start, end) of the source is the list of its bytes. -/
namespace TinyNetwork
open FirstMatch

/- isspace of the "C" locale: tab, line feed, vertical tab, form feed, return, blank. -/
def isspace (c : UInt8) : Bool := c == 32 || (9 ≤ c && c ≤ 13)

inductive Method where
  | kInvalid
  | kGet
  | kPost
  | kHead
  | kPut
  | kDelete
  deriving DecidableEq, Repr

inductive Version where
  | kUnknown
  | kHttp10
  | kHttp11
  deriving DecidableEq, Repr

structure HttpRequest where
  method : Method := .kInvalid
  version : Version := .kUnknown
  path : Bytes := []
  query : Bytes := []
  receiveTime : Timestamp := ⟨0⟩
  headers : AList (fun _ : Bytes => Bytes) := ∅
  deriving DecidableEq

namespace HttpRequest

def methodOf (m : Bytes) : Method :=
  if m = ascii "GET" then .kGet
  else if m = ascii "POST" then .kPost
  else if m = ascii "HEAD" then .kHead
  else if m = ascii "PUT" then .kPut
  else if m = ascii "DELETE" then .kDelete
  else .kInvalid

def setMethod (r : HttpRequest) (m : Bytes) : Bool × HttpRequest :=
  (methodOf m != .kInvalid, { r with method := methodOf m })

def methodString (m : Method) : Bytes :=
  match m with
  | .kGet => ascii "GET"
  | .kPost => ascii "POST"
  | .kHead => ascii "HEAD"
  | .kPut => ascii "PUT"
  | .kDelete => ascii "DELETE"
  | .kInvalid => ascii "UNKNOWN"

/- The value loses its leading blanks by moving the pointer behind the colon and
its trailing ones by cutting the string. -/
def addHeader (r : HttpRequest) (line : Bytes) (colon : Nat) : HttpRequest :=
  let field := line.take colon
  let value := ((line.drop (colon + 1)).dropWhile isspace).rdropWhile isspace
  { r with headers := r.headers.insert field value }

def setTarget (r : HttpRequest) (target : Bytes) : HttpRequest :=
  let question := target.idxOf 63
  if question ≠ target.length then
    { r with path := target.take question, query := target.drop question }
  else { r with path := target }

def setVersionFrom (r : HttpRequest) (rest : Bytes) : Bool × HttpRequest :=
  if rest.length = 8 ∧ rest.take 7 = ascii "HTTP/1." then
    if rest.drop 7 = ascii "1" then (true, { r with version := .kHttp11 })
    else if rest.drop 7 = ascii "0" then (true, { r with version := .kHttp10 })
    else (false, r)
  else (false, r)

def processRequestLine (r : HttpRequest) (line : Bytes) : Bool × HttpRequest :=
  let space := line.idxOf 32
  if space ≠ line.length then
    let (known, r) := r.setMethod (line.take space)
    if known then
      let line := line.drop (space + 1)
      let space := line.idxOf 32
      if space ≠ line.length then
        (r.setTarget (line.take space)).setVersionFrom (line.drop (space + 1))
      else (false, r)
    else (false, r)
  else (false, r)

end HttpRequest

inductive HttpRequestParseState where
  | kExpectRequestLine
  | kExpectHeaders
  | kExpectBody
  | kGotAll
  deriving DecidableEq, Repr

structure HttpContext where
  state : HttpRequestParseState := .kExpectRequestLine
  request : HttpRequest := {}
  deriving DecidableEq

namespace Buffer

def findCRLF (b : Buffer) : Option Nat :=
  let crlf := b.peek + search kCRLF b.readable
  if crlf = b.beginWrite then none else some crlf

def upTo (b : Buffer) (last : Nat) : Bytes := b.readable.take (last - b.peek)

end Buffer

namespace HttpContext

def gotAll (c : HttpContext) : Bool := c.state == .kGotAll

def reset (_ : HttpContext) : HttpContext := {}

structure Loop where
  context : HttpContext
  buffer : Buffer
  ok : Bool
  hasMore : Bool
  deriving DecidableEq

def parseStep (receiveTime : Timestamp) (l : Loop) : Loop :=
  match l.context.state with
  | .kExpectRequestLine =>
      match l.buffer.findCRLF with
      | some crlf =>
          let (ok, request) := l.context.request.processRequestLine (l.buffer.upTo crlf)
          if ok then
            { l with
              context := ⟨.kExpectHeaders, { request with receiveTime }⟩
              buffer := l.buffer.retrieveUntil (crlf + 2)
              ok := true }
          else { l with context := { l.context with request }, ok := false, hasMore := false }
      | none => { l with hasMore := false }
  | .kExpectHeaders =>
      match l.buffer.findCRLF with
      | some crlf =>
          let line := l.buffer.upTo crlf
          let colon := line.idxOf 58
          let buffer := l.buffer.retrieveUntil (crlf + 2)
          if colon ≠ line.length then
            let request := l.context.request.addHeader line colon
            { l with context := { l.context with request }, buffer }
          else { l with context := { l.context with state := .kGotAll }, buffer, hasMore := false }
      | none => { l with hasMore := false }
  | .kExpectBody => l
  | .kGotAll => l

def parseLoop (receiveTime : Timestamp) : Nat → Loop → Option Loop
  | fuel, l =>
      if l.hasMore then
        match fuel with
        | 0 => none
        | fuel + 1 => parseLoop receiveTime fuel (parseStep receiveTime l)
      else some l

/- Every turn ends the loop or consumes a line end, so the fuel is enough for
every loop that ends. -/
def parseRequest (c : HttpContext) (b : Buffer) (receiveTime : Timestamp) :
    Option (Bool × HttpContext × Buffer) := do
  let l ← parseLoop receiveTime (b.readableBytes + 1) ⟨c, b, false, true⟩
  some (l.ok, l.context, l.buffer)

end HttpContext
end TinyNetwork
