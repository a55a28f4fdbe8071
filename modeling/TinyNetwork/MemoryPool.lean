import TinyNetwork.Basic
import TinyNetwork.Chains
import TinyNetwork.Ranges

/-! The memory pool. Memory is the list of regions that were obtained and not yet
freed, together with what a SmallNode or a LargeNode stored at an address reads as;
a record can be touched only inside a live region. The loops over the two linked
lists run on fuel: a list without a cycle has no more nodes than live memory has
bytes. An operation returns `none` for what the language leaves undefined, for a
loop without end, and for an outcome posix_memalign cannot have. -/
namespace TinyNetwork
open Ranges Words

def PAGE_SIZE : Nat := 4096
def MP_ALIGNMENT : Nat := 16
def sizeofPool : Nat := 24
def sizeofSmallNode : Nat := 32
def sizeofLargeNode : Nat := 24
def uintLimit : Nat := 2 ^ 32

def mpAlignPtr (p : Nat) : Nat := (p + (MP_ALIGNMENT - 1)) % sizeLimit / MP_ALIGNMENT * MP_ALIGNMENT

structure SmallNode where
  end_ : Nat
  last : Nat
  quote : Nat
  failed : Nat
  next : Option Nat
  deriving DecidableEq, Repr

structure LargeNode where
  address : Option Nat
  size : Nat
  next : Option Nat
  deriving DecidableEq, Repr

structure Pool where
  largeList : Option Nat
  head : Nat
  current : Nat
  deriving DecidableEq, Repr

def zeroSmall : SmallNode := ⟨0, 0, 0, 0, none⟩
def zeroLarge : LargeNode := ⟨none, 0, none⟩

structure Memory where
  regions : List Range
  small : Nat → SmallNode
  large : Nat → LargeNode

/- One posix_memalign call: it fails, or grants a region with what a SmallNode read
from its uninitialised bytes would be. -/
inductive Memalign where
  | failed
  | granted (base : Nat) (content : Nat → SmallNode)

namespace Memory

def live (m : Memory) (r : Range) : Bool := m.regions.any (fun s => decide (Within r s))

def readSmall (m : Memory) (a : Nat) : Option SmallNode :=
  if m.live ⟨a, sizeofSmallNode⟩ then some (m.small a) else none

def writeSmall (m : Memory) (a : Nat) (node : SmallNode) : Option Memory :=
  if m.live ⟨a, sizeofSmallNode⟩ then some { m with small := Function.update m.small a node } else none

def readLarge (m : Memory) (a : Nat) : Option LargeNode :=
  if m.live ⟨a, sizeofLargeNode⟩ then some (m.large a) else none

def writeLarge (m : Memory) (a : Nat) (node : LargeNode) : Option Memory :=
  if m.live ⟨a, sizeofLargeNode⟩ then some { m with large := Function.update m.large a node } else none

/- What the documentation of posix_memalign promises of a region it returns. -/
def Grantable (m : Memory) (r : Range) : Prop :=
  0 < r.base ∧ r.base % MP_ALIGNMENT = 0 ∧ r.base + r.size < sizeLimit ∧ ∀ s ∈ m.regions, Apart r s
instance (m r) : Decidable (Grantable m r) := by unfold Grantable; infer_instance

def posixMemalign (m : Memory) (size : Nat) : Memalign → Option (Option Nat × Memory)
  | .failed => some (none, m)
  | .granted base content =>
      if Grantable m ⟨base, size⟩ then
        let small := fun a => if base ≤ a ∧ a < base + size then content a else m.small a
        some (some base, { m with regions := ⟨base, size⟩ :: m.regions, small })
      else none

def free (m : Memory) (a : Nat) : Option Memory :=
  if m.regions.any (fun r => r.base == a) then
    some { m with regions := m.regions.eraseP (fun r => r.base == a) }
  else none

def memset (m : Memory) (r : Range) : Option Memory :=
  if m.live r then
    some { m with
      small := fun a => if Apart ⟨a, sizeofSmallNode⟩ r then m.small a else zeroSmall
      large := fun a => if Apart ⟨a, sizeofLargeNode⟩ r then m.large a else zeroLarge }
  else none

def fuel (m : Memory) : Nat := bytes m.regions

end Memory

structure MemoryPool where
  address : Nat
  pool : Pool
  memory : Memory

namespace MemoryPool

/- quote_ and next_ of the first node keep what the fresh memory held. -/
def createPool (m : Memory) (outcome : Memalign) : Option (Option MemoryPool) := do
  let (granted, m) ← m.posixMemalign PAGE_SIZE outcome
  match granted with
  | none => some none
  | some base => do
      let head := base + sizeofPool
      let node ← m.readSmall head
      let m ← m.writeSmall head
        { node with
          last := base + sizeofPool + sizeofSmallNode
          end_ := base + PAGE_SIZE
          failed := 0 }
      some (some ⟨base, ⟨none, head, head⟩, m⟩)

/- The walk to the last node: every node on the way but the last one has failed
once more, and current_ skips the nodes that failed too often. -/
def skipFailed : Nat → Memory → Nat → Nat → Option (Memory × Nat × Nat)
  | 0, _, _, _ => none
  | fuel + 1, m, cur, current => do
      let node ← m.readSmall cur
      match node.next with
      | none => some (m, cur, current)
      | some next => do
          let current := if 5 ≤ node.failed then next else current
          let m ← m.writeSmall cur { node with failed := (node.failed + 1) % uintLimit }
          skipFailed fuel m next current

/- The node at the start of a new block. failed_ keeps what the fresh memory held,
and quote_ counts from there. -/
def newBlock (m : Memory) (block size : Nat) : Option Memory := do
  let node ← m.readSmall block
  m.writeSmall block
    { node with
      end_ := block + PAGE_SIZE
      next := none
      last := mpAlignPtr (block + sizeofSmallNode) + size
      quote := (node.quote + 1) % uintLimit }

def linkBlock (s : MemoryPool) (m : Memory) (block : Nat) : Option MemoryPool := do
  let (m, cur, current) ← skipFailed m.fuel m s.pool.current s.pool.current
  let last ← m.readSmall cur
  let m ← m.writeSmall cur { last with next := some block }
  some { s with pool := { s.pool with current }, memory := m }

def mallocSmallNode (s : MemoryPool) (size : Nat) (outcome : Memalign) :
    Option (Option Nat × MemoryPool) := do
  let (granted, m) ← s.memory.posixMemalign PAGE_SIZE outcome
  match granted with
  | none => some (none, { s with memory := m })
  | some block => do
      let m ← newBlock m block size
      let s ← s.linkBlock m block
      some (some (mpAlignPtr (block + sizeofSmallNode)), s)

/- The while loop of malloc: the first block from current_ on with enough room. The
difference of the two pointers is signed and is compared as an unsigned number. -/
def findRoom (m : Memory) (size : Nat) : Nat → Option Nat → Option (Option (Nat × Memory))
  | _, none => some none
  | 0, some _ => none
  | fuel + 1, some cur => do
      let node ← m.readSmall cur
      let addr := mpAlignPtr node.last
      if size ≤ widen (Int.ofNat node.end_ - Int.ofNat addr) then do
        let m ← m.writeSmall cur
          { node with quote := (node.quote + 1) % uintLimit, last := addr + size }
        some (some (addr, m))
      else findRoom m size fuel node.next

def mallocSmall (s : MemoryPool) (size : Nat) (outcome : Memalign) :
    Option (Option Nat × MemoryPool) := do
  let found ← findRoom s.memory size s.memory.fuel (some s.pool.current)
  match found with
  | some (addr, m) => some (some addr, { s with memory := m })
  | none => s.mallocSmallNode size outcome

def reuseLarge (m : Memory) (addr size : Nat) : Nat → Nat → Option Nat → Option (Option Memory)
  | _, _, none => some none
  | 0, _, some _ => none
  | fuel + 1, count, some cur => do
      let node ← m.readLarge cur
      if node.address = none then do
        let m ← m.writeLarge cur { node with size := size % uintLimit, address := some addr }
        some (some m)
      else if 3 < count then some none
      else reuseLarge m addr size fuel (count + 1) node.next

/- A new descriptor comes from the pool itself: malloc(sizeof(LargeNode)) takes the
branch for small sizes. -/
def mallocDescriptor (s : MemoryPool) (addr size : Nat) (outcome : Memalign) :
    Option (Option Nat × MemoryPool) := do
  let (descriptor, s) ← s.mallocSmall sizeofLargeNode outcome
  match descriptor with
  | none => do
      let m ← s.memory.free addr
      some (none, { s with memory := m })
  | some largeNode => do
      let m ← s.memory.writeLarge largeNode ⟨some addr, size % uintLimit, s.pool.largeList⟩
      some (some addr, { s with pool := { s.pool with largeList := some largeNode }, memory := m })

def mallocLargeNode (s : MemoryPool) (size : Nat) (first second : Memalign) :
    Option (Option Nat × MemoryPool) := do
  let (granted, m) ← s.memory.posixMemalign size first
  match granted with
  | none => some (none, { s with memory := m })
  | some addr => do
      let reused ← reuseLarge m addr size m.fuel 0 s.pool.largeList
      match reused with
      | some m => some (some addr, { s with memory := m })
      | none => mallocDescriptor { s with memory := m } addr size second

def malloc (s : MemoryPool) (size : Nat) (first second : Memalign) :
    Option (Option Nat × MemoryPool) :=
  if size = 0 then some (none, s)
  else if PAGE_SIZE - sizeofSmallNode < size then s.mallocLargeNode size first second
  else s.mallocSmall size first

def calloc (s : MemoryPool) (size : Nat) (first second : Memalign) :
    Option (Option Nat × MemoryPool) := do
  let (addr, s) ← s.malloc size first second
  match addr with
  | none => some (none, s)
  | some p => do
      let m ← s.memory.memset ⟨p, size⟩
      some (some p, { s with memory := m })

def freeLarge (m : Memory) (p : Nat) : Nat → Option Nat → Option (Option Memory)
  | _, none => some none
  | 0, some _ => none
  | fuel + 1, some cur => do
      let node ← m.readLarge cur
      if node.address = some p then do
        let m ← m.free p
        let m ← m.writeLarge cur { node with size := 0, address := none }
        some (some m)
      else freeLarge m p fuel node.next

/- One reference less; the block is empty again when it was the last one. Both
places that last_ goes back to are the end of the node's own record. -/
def unquote (s : MemoryPool) (small : Nat) (node : SmallNode) : Option MemoryPool := do
  let quote := (node.quote + (uintLimit - 1)) % uintLimit
  if quote = 0 then do
    let last :=
      if small = s.pool.head then s.address + sizeofPool + sizeofSmallNode
      else small + sizeofSmallNode
    let m ← s.memory.writeSmall small { node with quote, last, failed := 0 }
    some { s with pool := { s.pool with current := s.pool.head }, memory := m }
  else do
    let m ← s.memory.writeSmall small { node with quote }
    some { s with memory := m }

def freeSmall (s : MemoryPool) (p : Nat) : Nat → Option Nat → Option MemoryPool
  | _, none => some s
  | 0, some _ => none
  | fuel + 1, some cur => do
      let node ← s.memory.readSmall cur
      if cur ≤ p ∧ p ≤ node.end_ then s.unquote cur node
      else freeSmall s p fuel node.next

def freeMemory (s : MemoryPool) (p : Nat) : Option MemoryPool := do
  let freed ← freeLarge s.memory p s.memory.fuel s.pool.largeList
  match freed with
  | some m => some { s with memory := m }
  | none => s.freeSmall p s.memory.fuel (some s.pool.head)

/- The link is read when the region is gone, so the descriptor must not be in it. -/
def releaseLarge (m : Memory) : Nat → Option Nat → Option Memory
  | _, none => some m
  | 0, some _ => none
  | fuel + 1, some cur => do
      let node ← m.readLarge cur
      let m ← match node.address with
        | none => some m
        | some p => m.free p
      let node ← m.readLarge cur
      releaseLarge m fuel node.next

def rewindSmall (m : Memory) : Nat → Option Nat → Option Memory
  | _, none => some m
  | 0, some _ => none
  | fuel + 1, some cur => do
      let node ← m.readSmall cur
      let m ← m.writeSmall cur
        { node with last := cur + sizeofSmallNode, failed := 0, quote := 0 }
      rewindSmall m fuel node.next

def resetPool (s : MemoryPool) : Option MemoryPool := do
  let m ← releaseLarge s.memory s.memory.fuel s.pool.largeList
  let m ← rewindSmall m m.fuel (some s.pool.head)
  some { s with pool := { s.pool with largeList := none, current := s.pool.head }, memory := m }

def destroyLarge (m : Memory) : Nat → Option Nat → Option Memory
  | _, none => some m
  | 0, some _ => none
  | fuel + 1, some cur => do
      let node ← m.readLarge cur
      let m ← match node.address with
        | none => some m
        | some p => do
            let m ← m.free p
            m.writeLarge cur { node with address := none }
      let node ← m.readLarge cur
      destroyLarge m fuel node.next

/- The loop saves next_ before it frees the block, and then goes on with the next_ of
the block it has freed. -/
def destroySmall (m : Memory) : Nat → Option Nat → Option Memory
  | _, none => some m
  | 0, some _ => none
  | fuel + 1, some cur => do
      let _ ← m.readSmall cur
      let m ← m.free cur
      let node ← m.readSmall cur
      destroySmall m fuel node.next

def destroyPool (s : MemoryPool) : Option Memory := do
  let m ← destroyLarge s.memory s.memory.fuel s.pool.largeList
  let node ← m.readSmall s.pool.head
  let m ← destroySmall m m.fuel node.next
  m.free s.address

end MemoryPool
end TinyNetwork
