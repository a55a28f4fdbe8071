import TinyNetwork.AsyncLogging
import TinyNetwork.Basic
import TinyNetwork.Decimals

/-! One log statement: a stream over a small FixedBuffer, what the operators insert
into it, and the Logger that opens it with the time and the level and closes it with
the source position. A C string is the bytes before its NUL; what localtime gives for
the time is an argument. Writing behind the array is `none`. -/
namespace TinyNetwork
open Windows Decimals

/- The text of one number and the NUL behind it, written at current(); add() then
moves the position behind the text. -/
def FixedBuffer.put {size : Nat} (b : FixedBuffer size) (text : Bytes) : Option (FixedBuffer size) :=
  if h : text.length + 1 ≤ b.avail then
    some ⟨⟨splice b.data.bytes b.cur (text ++ [0]),
      by
        unfold FixedBuffer.avail at h
        rw [spliceLength (by rw [b.data.sized, List.length_append, List.length_singleton]; omega)]
        exact b.data.sized⟩,
      b.cur + text.length, by unfold FixedBuffer.avail at h; omega⟩
  else none

def FixedBuffer.toString {size : Nat} (b : FixedBuffer size) : Bytes := window b.data.bytes 0 b.length

structure LogStream where
  buffer : FixedBuffer kSmallBuffer
  deriving DecidableEq, Repr

structure Numeric where
  value : Int
  low : -(2 ^ 63) ≤ value
  high : value < 2 ^ 64
  deriving DecidableEq, Repr

/- What can be streamed. const unsigned char* and const void* are C strings. -/
inductive Piece where
  | integer (v : Numeric)
  | char (c : UInt8)
  | cString (str : Option Bytes)
  | string (str : Bytes)
  | general (data : Bytes)
  | buffer (buf : FixedBuffer kSmallBuffer)
  deriving DecidableEq, Repr

namespace LogStream

def kMaxNumericSize : Nat := 48

def digits : List UInt8 := ascii "9876543210123456789"

/- zero[remainder] with zero = digits + 9. -/
def digit (remainder : Int) : UInt8 := digits.getD (9 + remainder).toNat 0

def reversedDigits (num : Int) : List UInt8 :=
  if num.tdiv 10 = 0 then [digit (num.tmod 10)]
  else digit (num.tmod 10) :: reversedDigits (num.tdiv 10)
termination_by num.natAbs
decreasing_by exact tdivLess ‹_›

def integerText (num : Int) : Bytes := (reversedDigits num ++ if num < 0 then [45] else []).reverse

def formatInteger (s : LogStream) (num : Int) : Option LogStream :=
  if kMaxNumericSize ≤ s.buffer.avail then do
    let buffer ← s.buffer.put (integerText num)
    some ⟨buffer⟩
  else some s

def append (s : LogStream) (data : Bytes) : LogStream := ⟨s.buffer.append data⟩

def untilNul (str : Bytes) : Bytes := str.takeWhile (fun c => c ≠ 0)

def insert (s : LogStream) : Piece → Option LogStream
  | .integer v => s.formatInteger v.value
  | .char c => some (s.append [c])
  | .cString (some str) => some (s.append (untilNul str))
  | .cString none => some (s.append (ascii "(null)"))
  | .string str => some (s.append str)
  | .general data => some (s.append data)
  | .buffer buf => some (s.append buf.toString)

def insertAll (s : LogStream) : List Piece → Option LogStream
  | [] => some s
  | p :: rest => do
      let s ← s.insert p
      s.insertAll rest

end LogStream

inductive LogLevel where
  | trace
  | debug
  | info
  | warn
  | error
  | fatal
  deriving DecidableEq, Repr

def getLevelName : LogLevel → Bytes
  | .trace => ascii "TRACE "
  | .debug => ascii "DEBUG "
  | .info => ascii "INFO  "
  | .warn => ascii "WARN  "
  | .error => ascii "ERROR "
  | .fatal => ascii "FATAL "

structure Tm where
  year : Int
  mon : Int
  mday : Int
  hour : Int
  min : Int
  sec : Int
  deriving DecidableEq, Repr

/- strrchr for '/'. -/
def sourceFile (filename : Bytes) : Bytes :=
  ((LogStream.untilNul filename).reverse.takeWhile (fun c => c ≠ 47)).reverse

/- What a Logger is made from: the clock and its calendar form, the level, the source
position, and the function name of LOG_DEBUG. -/
structure Logger where
  now : Timestamp
  tm : Tm
  level : LogLevel
  file : Bytes
  line : Numeric
  func : Option Bytes
  deriving DecidableEq, Repr

namespace Logger

/- t_time: "%4d/%02d/%02d %02d:%02d:%02d" in an array of 64. -/
def tTime (tm : Tm) : Bytes :=
  (padLeft 32 4 (integer (tm.year + 1900)) ++ [47] ++ zeroPadded 2 (tm.mon + 1) ++ [47] ++
    zeroPadded 2 tm.mday ++ [32] ++ zeroPadded 2 tm.hour ++ [58] ++ zeroPadded 2 tm.min ++ [58] ++
    zeroPadded 2 tm.sec).take 63

def microText (now : Timestamp) : Bytes :=
  zeroPadded 6 (now.microSecondsSinceEpoch.tmod Timestamp.kMicroSecondsPerSecond) ++ [32]

def formatTime (l : Logger) : List Piece :=
  [.general ((tTime l.tm).take 17), .general ((microText l.now).take 7)]

def opening (l : Logger) : List Piece :=
  l.formatTime ++ [.general (getLevelName l.level)] ++
    match l.func with
    | none => []
    | some func => [.cString (some func), .char 32]

def finish (l : Logger) : List Piece :=
  [.cString (some (ascii " - ")), .general (sourceFile l.file), .char 58, .integer l.line, .char 10]

/- The bytes that the destructor passes to g_output; `garbage` is what the array of
the stream held before. -/
def output (l : Logger) (garbage : Storage kSmallBuffer) (pieces : List Piece) : Option Bytes := do
  let stream : LogStream := ⟨FixedBuffer.make garbage⟩
  let stream ← stream.insertAll (l.opening ++ pieces ++ l.finish)
  some (window stream.buffer.data.bytes 0 stream.buffer.length)

end Logger
end TinyNetwork
