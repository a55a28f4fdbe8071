import TinyNetwork.MemoryLarges
import TinyNetwork.Runs

/-! The pool and its user. The user has the pointers that malloc and calloc returned
and that were neither freed nor ended by resetPool. Whatever the calls are, they go
through, and the user's memory is aligned, inside one region of the pool, and apart
from all other memory of the user and from every record the pool can reach. -/
namespace TinyNetwork.MemoryDisjoint
open Ranges Runs Words Chains Memory MemoryPool MemoryBlocks MemoryCustody MemoryLarges

structure State where
  pool : MemoryPool
  live : List Range

inductive Action where
  | malloc (size : Nat) (first second : Memalign)
  | calloc (size : Nat) (first second : Memalign)
  | freeMemory (p : Nat)
  | resetPool

def received (live : List Range) (size : Nat) : Option Nat × MemoryPool → State
  | (none, pool) => ⟨pool, live⟩
  | (some p, pool) => ⟨pool, ⟨p, size⟩ :: live⟩

def step (s : State) : Action → Option State
  | .malloc size first second => do
      let result ← s.pool.malloc size first second
      some (received s.live size result)
  | .calloc size first second => do
      let result ← s.pool.calloc size first second
      some (received s.live size result)
  | .freeMemory p => do
      let pool ← s.pool.freeMemory p
      some ⟨pool, s.live.eraseP (fun r => r.base == p)⟩
  | .resetPool => do
      let pool ← s.pool.resetPool
      some ⟨pool, []⟩

def isLarge (r : Range) : Bool := decide (PAGE_SIZE - sizeofSmallNode < r.size)

/- Outcomes the posix_memalign calls of one malloc can have. A large size may make
two of them, the second one after the first region is there. -/
def Outcomes (m : Memory) (size : Nat) (first second : Memalign) : Prop :=
  if PAGE_SIZE - sizeofSmallNode < size then
    Possible m size first ∧ ∀ base content, first = .granted base content →
      Possible { m with regions := ⟨base, size⟩ :: m.regions } PAGE_SIZE second
  else Possible m PAGE_SIZE first

/- Sizes are positive, and only a live pointer is freed. -/
def Allowed (s : State) : Action → Prop
  | .malloc size first second => 0 < size ∧ Outcomes s.pool.memory size first second
  | .calloc size first second => 0 < size ∧ Outcomes s.pool.memory size first second
  | .freeMemory p => ∃ r ∈ s.live, r.base = p
  | .resetPool => True

/- The same with bytes that are only known where the code reads them before it has
written them. -/
def CleanOutcomes (m : Memory) (size : Nat) (first second : Memalign) : Prop :=
  if PAGE_SIZE - sizeofSmallNode < size then
    Fits m size first ∧ ∀ base content, first = .granted base content →
      Clean { m with regions := ⟨base, size⟩ :: m.regions } second
  else Clean m first

theorem outcomesClean {m : Memory} {size : Nat} {first second : Memalign}
    (outcomes : Outcomes m size first second) : CleanOutcomes m size first second := by
  unfold Outcomes at outcomes
  unfold CleanOutcomes
  split at outcomes
  · rename_i large
    rw [if_pos large]
    exact ⟨possibleFits outcomes.1, fun base content granted => possibleClean (outcomes.2 base content granted)⟩
  · rename_i small
    rw [if_neg small]
    exact possibleClean outcomes

def CleanAllowed (s : State) : Action → Prop
  | .malloc size first second => CleanOutcomes s.pool.memory size first second
  | .calloc size first second => CleanOutcomes s.pool.memory size first second
  | .freeMemory p => ∃ r ∈ s.live, r.base = p
  | .resetPool => True

theorem allowedClean {s : State} {a : Action} (allowed : Allowed s a) : CleanAllowed s a := by
  cases a with
  | malloc | calloc => exact outcomesClean allowed.2
  | freeMemory => exact allowed
  | resetPool => trivial

inductive SmallReachable (s : MemoryPool) : Nat → Prop where
  | head : SmallReachable s s.pool.head
  | current : SmallReachable s s.pool.current
  | next {a b} (reached : SmallReachable s a) (link : (s.memory.small a).next = some b) :
      SmallReachable s b

inductive LargeReachable (s : MemoryPool) : Nat → Prop where
  | first {d} (link : s.pool.largeList = some d) : LargeReachable s d
  | next {d e} (reached : LargeReachable s d) (link : (s.memory.large d).next = some e) :
      LargeReachable s e

structure Safe (s : State) : Prop where
  aligned : ∀ r ∈ s.live, r.base % 16 = 0
  inside : ∀ r ∈ s.live, ∃ region ∈ s.pool.memory.regions, Within r region
  apart : s.live.Pairwise Apart
  pool : ∀ r ∈ s.live, Apart ⟨s.pool.address, sizeofPool⟩ r
  small : ∀ r ∈ s.live, ∀ a, SmallReachable s.pool a → Apart ⟨a, sizeofSmallNode⟩ r
  large : ∀ r ∈ s.live, ∀ d, LargeReachable s.pool d → Apart ⟨d, sizeofLargeNode⟩ r

def Kept (s : State) : Prop :=
  ∃ nodes cells, Custody s.pool nodes cells (s.live.filter (fun r => !isLarge r)) (s.live.filter isLarge)

section
variable {s : MemoryPool} {nodes cells : List Nat} {smalls larges : List Range}

theorem smallReached (core : Core s nodes smalls larges) {a : Nat} (reached : SmallReachable s a) :
    a ∈ nodes := by
  induction reached with
  | head => exact headMember core
  | current => exact core.current
  | next _ link ih => exact chainClosed core.chain ih link

theorem largeReached (listing : Listing s.memory.large s.pool.largeList cells larges) {d : Nat}
    (reached : LargeReachable s d) : d ∈ cells := by
  induction reached with
  | first link =>
    have chain := listing.chain
    rw [link] at chain
    cases cells with
    | nil => exact absurd chain (by simp [Chain])
    | cons c rest =>
      cases Option.some.inj chain.1
      exact List.mem_cons_self
  | next _ link ih => exact chainClosed listing.chain ih link

theorem poolWithin (core : Core s nodes smalls larges) :
    Within ⟨s.address, sizeofPool⟩ (blockOf s.address s.pool.head) := by
  rw [core.first, blockOf, if_pos rfl]
  unfold Within PAGE_SIZE sizeofPool
  dsimp only
  omega

structure Clear (s : MemoryPool) (nodes cells : List Nat) (r : Range) : Prop where
  live : s.memory.live r = true
  pool : Apart ⟨s.address, sizeofPool⟩ r
  nodes : ∀ a ∈ nodes, Apart ⟨a, sizeofSmallNode⟩ r
  cells : ∀ d ∈ cells, Apart (cell d) r

theorem smallClear (custody : Custody s nodes cells smalls larges) {r : Range} (member : r ∈ smalls) :
    Clear s nodes cells r := by
  obtain ⟨core, listing⟩ := custody
  have held := List.mem_append_left (cells.map cell) member
  obtain ⟨a, home, low, high⟩ := core.books.home r held
  have own := homeWithin (core.books.each a home) low high
  have far : ∀ b ∈ nodes, b ≠ a → ∀ q, Within q (blockOf s.address b) → Apart q r := fun b mem other q inside =>
    apartWithin (booksBlocks core.books mem home other) inside own
  refine ⟨heldLive core held, ?_, ?_, ?_⟩
  · by_cases same : s.pool.head = a
    · have first := core.first
      refine .inl ?_
      simp only [sizeofPool, sizeofSmallNode] at *
      omega
    · exact far _ (headMember core) same _ (poolWithin core)
  · intro b mem
    by_cases same : b = a
    · subst same
      exact .inl low
    · exact far b mem same _ (nodeWithin _ _)
  · intro d mem
    exact apartSymm ((List.pairwise_append.mp core.books.apart).2.2 r member _ (List.mem_map_of_mem mem))

theorem largeClear (custody : Custody s nodes cells smalls larges) {r : Range} (member : r ∈ larges) :
    Clear s nodes cells r := by
  obtain ⟨core, listing⟩ := custody
  have apart := pairwisePerm core.owned core.apart
  have far : ∀ a ∈ nodes, ∀ q, Within q (blockOf s.address a) → Apart q r := fun a mem q inside =>
    apartWithin ((List.pairwise_append.mp apart).2.2 _ (List.mem_map_of_mem mem) r member) inside
      ⟨Nat.le_refl _, Nat.le_refl _⟩
  refine ⟨?_, far _ (headMember core) _ (poolWithin core), fun a mem => far a mem _ (nodeWithin _ _), ?_⟩
  · exact liveWithin (core.owned.mem_iff.mpr (List.mem_append_right _ member)) ⟨Nat.le_refl _, Nat.le_refl _⟩
  · intro d mem
    obtain ⟨a, home, within⟩ := heldInside core.books _ (cellHeld mem)
    exact far a home _ within

theorem memsetCustody (custody : Custody s nodes cells smalls larges) {r : Range}
    (clear : Clear s nodes cells r) :
    ∃ m, s.memory.memset r = some m ∧ Custody { s with memory := m } nodes cells smalls larges := by
  obtain ⟨core, listing⟩ := custody
  refine ⟨_, if_pos clear.live, ?_, ?_⟩
  · refine ⟨chainFrame core.chain (fun a mem => ?_), core.first, core.current,
      booksFrame core.books (fun a mem => ?_), core.owned, core.apart, core.shaped⟩
    · simp only [if_pos (clear.nodes a mem)]
    · simp only [if_pos (clear.nodes a mem)]
      exact ⟨rfl, rfl, rfl⟩
  · refine ⟨chainFrame listing.chain (fun d mem => ?_), ?_⟩
    · have far : Apart ⟨d, sizeofLargeNode⟩ r := clear.cells d mem
      simp only [if_pos far]
    · have same : cells.filterMap (fun d =>
          (if Apart ⟨d, sizeofLargeNode⟩ r then s.memory.large d else zeroLarge).address) =
          cells.filterMap (fun d => (s.memory.large d).address) := by
        refine List.filterMap_congr (fun d mem => ?_)
        have far : Apart ⟨d, sizeofLargeNode⟩ r := clear.cells d mem
        rw [if_pos far]
      simp only [same]
      exact listing.named

end

theorem keptSafe {s : State} (kept : Kept s) : Safe s := by
  obtain ⟨nodes, cells, custody⟩ := kept
  have core := custody.core
  have parts : ∀ r ∈ s.live, r ∈ s.live.filter (fun r => !isLarge r) ∨ r ∈ s.live.filter isLarge := by
    intro r member
    cases large : isLarge r with
    | false => exact .inl (List.mem_filter.mpr ⟨member, by simp [large]⟩)
    | true => exact .inr (List.mem_filter.mpr ⟨member, large⟩)
  have clear : ∀ r ∈ s.live, Clear s.pool nodes cells r := fun r member =>
    (parts r member).elim (smallClear custody) (largeClear custody)
  refine ⟨?_, ?_, ?_, fun r member => (clear r member).pool, ?_, ?_⟩
  · intro r member
    rcases parts r member with small | large
    · exact (core.books.shaped r (List.mem_append_left _ small)).1
    · exact (core.shaped r (core.owned.mem_iff.mpr (List.mem_append_right _ large))).1
  · intro r member
    obtain ⟨region, there, within⟩ := List.any_eq_true.mp (clear r member).live
    exact ⟨region, there, of_decide_eq_true within⟩
  · have whole := List.filter_append_perm isLarge s.live
    refine pairwisePerm whole (List.pairwise_append.mpr ⟨?_, ?_, ?_⟩)
    · exact (List.pairwise_append.mp (pairwisePerm core.owned core.apart)).2.1
    · exact (List.pairwise_append.mp core.books.apart).1
    · intro large isL small isS
      obtain ⟨a, home, within⟩ := heldInside core.books small (List.mem_append_left _ isS)
      have apart := (List.pairwise_append.mp (pairwisePerm core.owned core.apart)).2.2
      exact apartSymm (apartWithin (apart _ (List.mem_map_of_mem home) large isL)
        within ⟨Nat.le_refl _, Nat.le_refl _⟩)
  · exact fun r member a reached => (clear r member).nodes a (smallReached core reached)
  · exact fun r member d reached => (clear r member).cells d (largeReached custody.listing reached)

theorem custodyPerm {s : MemoryPool} {nodes cells : List Nat} {smalls larges smalls' larges' : List Range}
    (custody : Custody s nodes cells smalls larges) (small : smalls.Perm smalls')
    (large : larges.Perm larges') : Custody s nodes cells smalls' larges' := by
  obtain ⟨core, listing⟩ := custody
  exact ⟨⟨core.chain, core.first, core.current, booksPerm (small.append_right _) core.books,
    core.owned.trans (large.append_left _), core.apart, core.shaped⟩,
    ⟨listing.chain, listing.named.trans (large.map _)⟩⟩

def NullUnchanged (s : MemoryPool) : Option Nat × MemoryPool → Prop
  | (none, s') => Unchanged s s'
  | (some _, _) => True

theorem mallocKept {s : State} (kept : Kept s) {size : Nat} {first second : Memalign}
    (outcomes : CleanOutcomes s.pool.memory size first second) :
    ∃ result, s.pool.malloc size first second = some result ∧ Kept (received s.live size result) ∧
      NullUnchanged s.pool result := by
  obtain ⟨nodes, cells, custody⟩ := kept
  rcases Nat.eq_zero_or_pos size with rfl | positive
  · refine ⟨(none, s.pool), ?_, ⟨nodes, cells, custody⟩, unchangedSelf s.pool⟩
    rw [malloc, if_pos rfl]
  have someSize : ¬ size = 0 := Nat.ne_of_gt positive
  by_cases large : PAGE_SIZE - sizeofSmallNode < size
  · have branch : s.pool.malloc size first second = s.pool.mallocLargeNode size first second := by
      rw [malloc, if_neg someSize, if_pos large]
    rw [CleanOutcomes, if_pos large] at outcomes
    rcases mallocLargeSpec custody positive outcomes.1 outcomes.2 with
      ⟨pool, done, unchanged, custody'⟩ | ⟨p, pool, nodes', cells', done, _, custody'⟩
    · exact ⟨_, branch.trans done, ⟨nodes, cells, custody'⟩, unchanged⟩
    · refine ⟨_, branch.trans done, ⟨nodes', cells', ?_⟩, trivial⟩
      have is : isLarge ⟨p, size⟩ = true := decide_eq_true large
      simpa [received, is] using custody'
  · have branch : s.pool.malloc size first second = s.pool.mallocSmall size first := by
      rw [malloc, if_neg someSize, if_neg large]
    rw [CleanOutcomes, if_neg large] at outcomes
    rcases mallocSmallSpec custody.core positive (by omega) outcomes with
      done | ⟨p, pool, nodes', done, core', beside⟩
    · exact ⟨_, branch.trans done, ⟨nodes, cells, custody⟩, unchangedSelf s.pool⟩
    · refine ⟨_, branch.trans done, ⟨nodes', cells, ?_⟩, trivial⟩
      have is : isLarge ⟨p, size⟩ = false := decide_eq_false large
      have listing := custody.listing
      rw [← beside.large, ← beside.largeList] at listing
      simpa [received, is] using Custody.mk core' listing

theorem callocKept {s : State} (kept : Kept s) {size : Nat} {first second : Memalign}
    (outcomes : CleanOutcomes s.pool.memory size first second) :
    ∃ result, s.pool.calloc size first second = some result ∧ Kept (received s.live size result) ∧
      NullUnchanged s.pool result := by
  obtain ⟨⟨result, pool⟩, done, kept', unchanged⟩ := mallocKept kept outcomes
  cases result with
  | none => exact ⟨(none, pool), by simp only [calloc, done, bind, Option.bind], kept', unchanged⟩
  | some p =>
    obtain ⟨nodes, cells, custody⟩ := kept'
    have clear : Clear pool nodes cells ⟨p, size⟩ := by
      cases large : isLarge ⟨p, size⟩ with
      | false => exact smallClear custody (List.mem_filter.mpr ⟨List.mem_cons_self, by simp [large]⟩)
      | true => exact largeClear custody (List.mem_filter.mpr ⟨List.mem_cons_self, large⟩)
    obtain ⟨m, zeroed, custody'⟩ := memsetCustody custody clear
    change pool.memory.memset ⟨p, size⟩ = some m at zeroed
    refine ⟨(some p, { pool with memory := m }), ?_, ⟨nodes, cells, custody'⟩, trivial⟩
    simp only [calloc, done, zeroed, bind, Option.bind]

theorem freeKept {s : State} (kept : Kept s) {r : Range} (member : r ∈ s.live) :
    ∃ pool, s.pool.freeMemory r.base = some pool ∧
      Kept ⟨pool, s.live.eraseP (fun q => q.base == r.base)⟩ := by
  obtain ⟨nodes, cells, custody⟩ := kept
  obtain ⟨q, front, back, _, same, split_, erased⟩ :=
    List.exists_of_eraseP (p := fun q : Range => q.base == r.base) member (by simp)
  have base : q.base = r.base := by simpa using same
  have perm : s.live.Perm (q :: (front ++ back)) := by rw [split_]; exact List.perm_middle
  have parts := custodyPerm custody (perm.filter (fun r => !isLarge r)) (perm.filter isLarge)
  rw [erased, ← base]
  cases large : isLarge q with
  | false =>
    simp only [List.filter_cons, large, Bool.not_false, if_true, Bool.false_eq_true, if_false] at parts
    obtain ⟨pool, done, _, custody'⟩ := freeSmallCustody parts
    exact ⟨pool, done, nodes, cells, custody'⟩
  | true =>
    simp only [List.filter_cons, large, Bool.not_true, if_true, Bool.false_eq_true, if_false] at parts
    obtain ⟨pool, done, _, custody'⟩ := freeLargeCustody parts
    exact ⟨pool, done, nodes, cells, custody'⟩

theorem stepClean {s : State} {a : Action} (kept : Kept s) (allowed : CleanAllowed s a) :
    ∃ t, step s a = some t ∧ Kept t := by
  cases a with
  | malloc size first second =>
    obtain ⟨result, done, kept', _⟩ := mallocKept kept allowed
    exact ⟨_, by simp only [step, done, bind, Option.bind], kept'⟩
  | calloc size first second =>
    obtain ⟨result, done, kept', _⟩ := callocKept kept allowed
    exact ⟨_, by simp only [step, done, bind, Option.bind], kept'⟩
  | freeMemory p =>
    obtain ⟨r, member, rfl⟩ := allowed
    obtain ⟨pool, done, kept'⟩ := freeKept kept member
    exact ⟨_, by simp only [step, done, bind, Option.bind], kept'⟩
  | resetPool =>
    obtain ⟨nodes, cells, custody⟩ := kept
    obtain ⟨pool, done, _, custody'⟩ := resetPoolSpec custody
    exact ⟨⟨pool, []⟩, by simp only [step, done, bind, Option.bind], nodes, [], custody'⟩

theorem stepKept {s : State} {a : Action} (kept : Kept s) (allowed : Allowed s a) :
    ∃ t, step s a = some t ∧ Kept t :=
  stepClean kept (allowedClean allowed)

/- The first region: createPool reads quote_ and next_ of its node as they are. -/
def CleanFirst (m : Memory) : Memalign → Prop
  | .failed => True
  | .granted base content => Grantable m ⟨base, PAGE_SIZE⟩ ∧ (content (base + sizeofPool)).quote = 0 ∧
      (content (base + sizeofPool)).next = none

theorem possibleFirst {m : Memory} {outcome : Memalign} (possible : Possible m PAGE_SIZE outcome) :
    CleanFirst m outcome := by
  cases outcome with
  | failed => trivial
  | granted base content =>
    obtain ⟨grantable, rfl⟩ := possible
    exact ⟨grantable, rfl, rfl⟩

theorem createKept {m : Memory} (empty : m.regions = []) {outcome : Memalign} (clean : CleanFirst m outcome)
    {pool : MemoryPool} (created : createPool m outcome = some (some pool)) : Kept ⟨pool, []⟩ := by
  cases outcome with
  | failed => simp [createPool, posixMemalign] at created
  | granted base content =>
    obtain ⟨grantable, quote, next⟩ := clean
    obtain ⟨positive, aligned, word, _⟩ := id grantable
    let head := base + sizeofPool
    let small := fun a => if base ≤ a ∧ a < base + PAGE_SIZE then content a else m.small a
    let m₁ : Memory := ⟨[⟨base, PAGE_SIZE⟩], small, m.large⟩
    let node : SmallNode := ⟨base + PAGE_SIZE, base + sizeofPool + sizeofSmallNode, 0, 0, none⟩
    have granted : m.posixMemalign PAGE_SIZE (.granted base content) = some (some base, m₁) := by
      simp only [posixMemalign, if_pos grantable, empty]
      rfl
    have inside : Within ⟨head, sizeofSmallNode⟩ ⟨base, PAGE_SIZE⟩ := by
      simp only [Within, head, sizeofPool, sizeofSmallNode, PAGE_SIZE]
      omega
    have live : m₁.live ⟨head, sizeofSmallNode⟩ = true := liveWithin List.mem_cons_self inside
    have raw : m₁.small head = content head := if_pos (by simp only [head, sizeofPool, PAGE_SIZE]; omega)
    have block : blockOf base head = ⟨base, PAGE_SIZE⟩ := by simp [blockOf, head]
    have made : createPool m (.granted base content) = some (some
        ⟨base, ⟨none, head, head⟩, { m₁ with small := Function.update m₁.small head node }⟩) := by
      simp only [createPool, granted, readSmall, writeSmall, show base + sizeofPool = head from rfl, live,
        if_true, raw, bind, Option.bind]
      rw [show content head = { content head with quote := 0, next := none } by
        rw [← quote, ← next]]
    rw [made] at created
    cases Option.some.inj (Option.some.inj created)
    have top : Function.update m₁.small head node head = node := Function.update_self ..
    have books : Books base (Function.update m₁.small head node) [head] [] := by
      have none {P : Range → Prop} : ∀ r ∈ ([] : List Range), P r := fun _ member => absurd member List.not_mem_nil
      refine ⟨fun a mem => ?_, none, .nil, none, List.pairwise_singleton _ _⟩
      cases List.mem_singleton.mp mem
      refine ⟨?_, ?_, ?_, ?_, ?_, ?_⟩ <;> simp only [block, top, node]
      · exact aligned
      · exact word
      · exact Nat.le_refl _
      · simp only [sizeofPool, sizeofSmallNode, PAGE_SIZE]
        omega
      · rfl
    refine ⟨[head], [], ⟨⟨⟨rfl, congrArg SmallNode.next top⟩, rfl, List.mem_singleton_self _, books, ?_, ?_, ?_⟩,
      ⟨rfl, .nil⟩⟩⟩
    · simp [block, m₁]
    · exact List.pairwise_singleton _ _
    · exact List.forall_mem_singleton.mpr ⟨aligned, show 0 < PAGE_SIZE by decide⟩

theorem poolDisjoint {m : Memory} (empty : m.regions = []) {outcome : Memalign}
    (possible : Possible m PAGE_SIZE outcome) {pool : MemoryPool}
    (created : createPool m outcome = some (some pool)) {actions : List Action}
    (allowed : Along step Allowed ⟨pool, []⟩ actions) :
    ∃ last, run step ⟨pool, []⟩ actions = some last ∧ Safe last := by
  obtain ⟨last, ok, kept⟩ := runProgress stepKept (createKept empty (possibleFirst possible) created) allowed
  exact ⟨last, ok, keptSafe kept⟩

def untouched : Memory := ⟨[], fun _ => zeroSmall, fun _ => zeroLarge⟩

def zeroed (base : Nat) : Memalign := .granted base fun _ => zeroSmall

def samplePool : MemoryPool :=
  ⟨4096, ⟨none, 4120, 4120⟩, ⟨[⟨4096, 4096⟩],
    Function.update (fun a => if 4096 ≤ a ∧ a < 4096 + 4096 then zeroSmall else zeroSmall) 4120
      ⟨8192, 4152, 0, 0, none⟩, fun _ => zeroLarge⟩⟩

theorem sampleCreated : createPool untouched (zeroed 4096) = some (some samplePool) := rfl

/- The pool is used and reset, and then has two small and two large pieces of memory, one
of which comes back. -/
def sampleActions : List Action :=
  [.malloc 200 .failed .failed, .resetPool, .malloc 100 .failed .failed, .calloc 5000 (zeroed 65536) .failed,
    .calloc 6000 (zeroed 131072) .failed, .freeMemory 65536, .malloc 64 .failed .failed,
    .malloc 7000 (zeroed 262144) .failed]

theorem largeAllowed {s : State} {size base : Nat} (regions : List Range) (same : s.pool.memory.regions = regions)
    (large : PAGE_SIZE - sizeofSmallNode < size)
    (grantable : Grantable { untouched with regions } ⟨base, size⟩) :
    0 < size ∧ Outcomes s.pool.memory size (zeroed base) .failed := by
  subst same
  refine ⟨Nat.zero_lt_of_lt large, ?_⟩
  rw [Outcomes, if_pos large]
  exact ⟨⟨grantable, rfl⟩, fun _ _ _ => trivial⟩

theorem poolDisjointSample :
    ∃ last, run step ⟨samplePool, []⟩ sampleActions = some last ∧
      last.live.map Range.size = [7000, 64, 6000, 100] ∧ Safe last := by
  have possible : Possible untouched PAGE_SIZE (zeroed 4096) := ⟨by decide, rfl⟩
  -- the regions when posix_memalign is asked, and the user's memory when some is freed
  have regions (n : Nat) (t : State) (ok : run step ⟨samplePool, []⟩ (sampleActions.take n) = some t) :
      some t.pool.memory.regions =
        (run step ⟨samplePool, []⟩ (sampleActions.take n)).map (fun s => s.pool.memory.regions) := by
    rw [ok]
    rfl
  have three : Along step Allowed ⟨samplePool, []⟩ (sampleActions.take 3) :=
    ⟨⟨by decide, trivial⟩, fun _ _ => ⟨trivial, fun _ _ => ⟨⟨by decide, trivial⟩, fun _ _ => trivial⟩⟩⟩
  have four : Along step Allowed ⟨samplePool, []⟩ (sampleActions.take 4) := by
    refine alongSnoc three fun t ok => largeAllowed [⟨4096, 4096⟩] ?_ (by decide) (by decide)
    exact Option.some.inj ((regions 3 t ok).trans (by decide +kernel))
  have five : Along step Allowed ⟨samplePool, []⟩ (sampleActions.take 5) := by
    refine alongSnoc four fun t ok => largeAllowed [⟨65536, 5000⟩, ⟨4096, 4096⟩] ?_ (by decide) (by decide)
    exact Option.some.inj ((regions 4 t ok).trans (by decide +kernel))
  have six : Along step Allowed ⟨samplePool, []⟩ (sampleActions.take 6) := by
    refine alongSnoc five fun t ok => ?_
    have live : (run step ⟨samplePool, []⟩ (sampleActions.take 5)).map State.live =
        some [⟨131072, 6000⟩, ⟨65536, 5000⟩, ⟨4160, 100⟩] := by decide +kernel
    rw [ok] at live
    exact ⟨⟨65536, 5000⟩, by rw [Option.some.inj live]; decide, rfl⟩
  have seven : Along step Allowed ⟨samplePool, []⟩ (sampleActions.take 7) :=
    alongSnoc six fun _ _ => ⟨by decide, trivial⟩
  have allowed : Along step Allowed ⟨samplePool, []⟩ sampleActions := by
    refine alongSnoc seven fun t ok => largeAllowed [⟨131072, 6000⟩, ⟨4096, 4096⟩] ?_ (by decide) (by decide)
    exact Option.some.inj ((regions 7 t ok).trans (by decide +kernel))
  obtain ⟨last, ok, safe⟩ := poolDisjoint rfl possible sampleCreated allowed
  have sizes : (run step ⟨samplePool, []⟩ sampleActions).map (fun s => s.live.map Range.size) =
      some [7000, 64, 6000, 100] := by decide +kernel
  rw [ok] at sizes
  exact ⟨last, ok, Option.some.inj sizes, safe⟩

end TinyNetwork.MemoryDisjoint
