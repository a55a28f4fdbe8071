import TinyNetwork.Buffer

/-! The log files on disk. `LogFile` hands its data to one open `FileUtil` after the
other; each clock reading is an argument of the call that takes it. What the C library
does is a parameter: how much of a block fwrite accepts and the text of a local time. -/
namespace TinyNetwork

structure Libc where
  fwrite : Bytes → Nat
  timebuf : Int → Bytes

/- The sum of an off_t and a size_t, stored in an off_t of 64 bits. -/
def offAdd (a : Int) (n : Nat) : Int := Int.bmod (a + n) (2 ^ 64)

/- A stream that is open for appending: the bytes it was given and how many of them
were flushed. `created` is the clock reading in its name. -/
structure FileUtil where
  fileName : Bytes
  created : Int
  content : Bytes := []
  flushed : Nat := 0
  writtenBytes : Int := 0
  deriving DecidableEq, Repr

namespace FileUtil

def write (libc : Libc) (f : FileUtil) (data : Bytes) : Nat × FileUtil :=
  let n := libc.fwrite data
  (n, { f with content := f.content ++ data.take n })

/- A short write is reported on stderr and tried again with what is left. -/
def appendLoop (libc : Libc) (data : Bytes) : Nat → Nat → FileUtil → Option (Nat × FileUtil)
  | fuel, written, f =>
      if written ≠ data.length then
        match fuel with
        | 0 => none
        | fuel + 1 =>
            let (n, f) := f.write libc (data.drop written)
            appendLoop libc data fuel (written + n) f
      else some (written, f)

/- A turn that writes nothing meets the same data again, so the fuel is enough for
every loop that ends. -/
def append (libc : Libc) (f : FileUtil) (data : Bytes) : Option FileUtil := do
  let (written, f) ← appendLoop libc data (data.length + 1) 0 f
  some { f with writtenBytes := offAdd f.writtenBytes written }

def flush (f : FileUtil) : FileUtil := { f with flushed := f.content.length }

end FileUtil

/- file_ is null before the first roll. `closed` holds the files it pointed to before,
as their destructors left them, in the order in which they were opened. -/
structure LogFile where
  basename : Bytes
  rollSize : Int
  flushInterval : Int
  checkEveryN : Int
  count : Int
  startOfPeriod : Int
  lastRoll : Int
  lastFlush : Int
  file : Option FileUtil
  closed : List FileUtil
  deriving DecidableEq, Repr

namespace LogFile

def kRollPerSeconds : Int := 60 * 60 * 24

/- Integer division of the language goes towards zero. -/
def periodOf (now : Int) : Int := now.tdiv kRollPerSeconds * kRollPerSeconds

def getLogFileName (libc : Libc) (basename : Bytes) (now : Int) : Bytes :=
  basename ++ libc.timebuf now ++ ascii ".log"

def rollFile (libc : Libc) (l : LogFile) (now : Int) : Bool × LogFile :=
  let fileName := getLogFileName libc l.basename now
  let start := periodOf now
  if l.lastRoll < now then
    (true,
      { l with
        lastRoll := now
        lastFlush := now
        startOfPeriod := start
        file := some { fileName, created := now }
        closed := l.closed ++ (l.file.map FileUtil.flush).toList })
  else (false, l)

def make (libc : Libc) (basename : Bytes) (rollSize flushInterval checkEveryN now : Int) : LogFile :=
  let l : LogFile :=
    { basename, rollSize, flushInterval, checkEveryN, count := 0, startOfPeriod := 0, lastRoll := 0,
      lastFlush := 0, file := none, closed := [] }
  (l.rollFile libc now).2

/- One call of append: the data, what ::time says to the check in appendInLock, and
what it says to rollFile. -/
structure Call where
  data : Bytes
  check : Int
  roll : Int
  deriving DecidableEq, Repr

def appendInLock (libc : Libc) (l : LogFile) (call : Call) : Option LogFile := do
  let file ← l.file
  let file ← file.append libc call.data
  let l := { l with file := some file }
  if l.rollSize < file.writtenBytes then some (l.rollFile libc call.roll).2
  else
    let l := { l with count := l.count + 1 }
    if l.checkEveryN ≤ l.count then
      let l := { l with count := 0 }
      let thisPeriod := periodOf call.check
      if thisPeriod ≠ l.startOfPeriod then some (l.rollFile libc call.roll).2
      else if l.flushInterval < call.check - l.lastFlush then
        some { l with lastFlush := call.check, file := some file.flush }
      else some l
    else some l

/- The lock is held for the whole call. -/
def append (libc : Libc) (l : LogFile) (call : Call) : Option LogFile := l.appendInLock libc call

def flush (l : LogFile) : Option LogFile := do
  let file ← l.file
  some { l with file := some file.flush }

def files (l : LogFile) : List FileUtil := l.closed ++ l.file.toList

end LogFile
end TinyNetwork
