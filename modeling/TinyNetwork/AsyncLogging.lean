import TinyNetwork.Buffer

/-! The asynchronous logger. A FixedBuffer is a char array with a current position; a
BufferPtr is a unique_ptr to one, null after it was moved from. The front end is the
critical section of append; the back end thread is cut at the points where it holds
no lock or finishes a section. A step returns `none` where the code would touch a
null pointer or take the last element of an empty vector. -/
namespace TinyNetwork
open Windows

def kSmallBuffer : Nat := 4000
def kLargeBuffer : Nat := 4000 * 1000

structure Storage (size : Nat) where
  bytes : Bytes
  sized : bytes.length = size
  deriving DecidableEq, Repr

def Storage.zero (size : Nat) : Storage size := ⟨List.replicate size 0, List.length_replicate⟩

structure FixedBuffer (size : Nat) where
  data : Storage size
  cur : Nat
  inside : cur ≤ size
  deriving DecidableEq, Repr

namespace FixedBuffer
variable {size : Nat}

/- The constructor does not initialise the array. -/
def make (data : Storage size) : FixedBuffer size := ⟨data, 0, Nat.zero_le _⟩

def avail (b : FixedBuffer size) : Nat := size - b.cur

def append (b : FixedBuffer size) (buf : Bytes) : FixedBuffer size :=
  if h : buf.length < b.avail then
    ⟨⟨splice b.data.bytes b.cur buf,
      by unfold avail at h; rw [spliceLength (by rw [b.data.sized]; omega)]; exact b.data.sized⟩,
      b.cur + buf.length, by unfold avail at h; omega⟩
  else b

def reset (b : FixedBuffer size) : FixedBuffer size := ⟨b.data, 0, Nat.zero_le _⟩

def bzero (b : FixedBuffer size) : FixedBuffer size := { b with data := Storage.zero size }

/- end() - data_, the length of the array. -/
def length (_ : FixedBuffer size) : Nat := size

def content (b : FixedBuffer size) : Bytes := window b.data.bytes 0 b.cur

@[simp] theorem makeContent (data : Storage size) : (make data).content = [] := windowEmpty _ _

@[simp] theorem resetContent (b : FixedBuffer size) : b.reset.content = [] := windowEmpty _ _

theorem appendContent {b : FixedBuffer size} {buf : Bytes} (room : buf.length < b.avail) :
    (b.append buf).content = b.content ++ buf := by
  rw [append, dif_pos room, content]
  unfold avail at room
  exact windowSplice (Nat.zero_le _) (by rw [b.data.sized]; omega)

theorem emptyAvail {b : FixedBuffer size} (empty : b.content = []) : b.avail = size := by
  have length : b.content.length = b.cur := by
    rw [content, windowLength (by rw [b.data.sized]; exact b.inside), Nat.sub_zero]
  rw [empty] at length
  simp [avail, ← length]

end FixedBuffer

abbrev BufferPtr (size : Nat) := Option (FixedBuffer size)

/- Where the back end thread is: at the test of running_, between it and the lock,
inside wait_for, in the write loop, and at the four statements after it. -/
inductive Phase where
  | testing
  | locking
  | waiting
  | writing (next : Nat)
  | shrinking
  | recycling1
  | recycling2
  | clearing
  | exited
  deriving DecidableEq, Repr

structure AsyncLogging (size : Nat) where
  running : Bool
  currentBuffer : BufferPtr size
  nextBuffer : BufferPtr size
  buffers : List (BufferPtr size)
  phase : Phase
  newBuffer1 : BufferPtr size
  newBuffer2 : BufferPtr size
  buffersToWrite : List (BufferPtr size)
  output : List (FixedBuffer size)
  deriving DecidableEq, Repr

namespace AsyncLogging
variable {size : Nat}

def newBuffer (size : Nat) : BufferPtr size := some (FixedBuffer.make (Storage.zero size)).bzero

def started (size : Nat) : AsyncLogging size where
  running := true
  currentBuffer := newBuffer size
  nextBuffer := newBuffer size
  buffers := []
  phase := .testing
  newBuffer1 := newBuffer size
  newBuffer2 := newBuffer size
  buffersToWrite := []
  output := []

/- The current buffer is full: it is handed on and another one takes its place, the
spare one or else a new one with whatever its memory holds. -/
def replaceCurrent (s : AsyncLogging size) (garbage : Storage size) : AsyncLogging size :=
  { s with
    buffers := s.buffers ++ [s.currentBuffer]
    currentBuffer := s.nextBuffer.orElse (fun _ => some (FixedBuffer.make garbage))
    nextBuffer := none }

def append (s : AsyncLogging size) (logline : Bytes) (garbage : Storage size) :
    Option (AsyncLogging size) := do
  let current ← s.currentBuffer
  if logline.length < current.avail then
    some { s with currentBuffer := some (current.append logline) }
  else do
    let s := s.replaceCurrent garbage
    let current ← s.currentBuffer
    some { s with currentBuffer := some (current.append logline) }

def swapSection (s : AsyncLogging size) : AsyncLogging size :=
  let s := { s with buffers := s.buffers ++ [s.currentBuffer], currentBuffer := none }
  let s := { s with currentBuffer := s.newBuffer1, newBuffer1 := none }
  let s := { s with buffersToWrite := s.buffers, buffers := s.buffersToWrite }
  let s := { s with phase := .writing 0 }
  if s.nextBuffer.isNone then { s with nextBuffer := s.newBuffer2, newBuffer2 := none } else s

def takeBack (buffers : List (BufferPtr size)) :
    Option (BufferPtr size × List (BufferPtr size)) :=
  match buffers.getLast? with
  | some (some b) => some (some b.reset, buffers.dropLast)
  | _ => none

def threadFunc (s : AsyncLogging size) : Option (AsyncLogging size) :=
  match s.phase with
  | .testing =>
      if s.running then some { s with phase := .locking } else some { s with phase := .exited }
  | .locking => if s.buffers.isEmpty then some { s with phase := .waiting } else some s.swapSection
  | .waiting => some s.swapSection
  | .writing next =>
      match s.buffersToWrite[next]? with
      | some (some b) => some { s with output := s.output ++ [b], phase := .writing (next + 1) }
      | some none => none
      | none => some { s with phase := .shrinking }
  | .shrinking =>
      if 2 < s.buffersToWrite.length then
        some { s with buffersToWrite := s.buffersToWrite.take 2, phase := .recycling1 }
      else some { s with phase := .recycling1 }
  | .recycling1 =>
      if s.newBuffer1.isNone then do
        let (newBuffer1, buffersToWrite) ← takeBack s.buffersToWrite
        some { s with newBuffer1, buffersToWrite, phase := .recycling2 }
      else some { s with phase := .recycling2 }
  | .recycling2 =>
      if s.newBuffer2.isNone then do
        let (newBuffer2, buffersToWrite) ← takeBack s.buffersToWrite
        some { s with newBuffer2, buffersToWrite, phase := .clearing }
      else some { s with phase := .clearing }
  | .clearing => some { s with buffersToWrite := [], phase := .testing }
  | .exited => none

def stop (s : AsyncLogging size) : AsyncLogging size := { s with running := false }

end AsyncLogging
end TinyNetwork
