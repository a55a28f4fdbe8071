import TinyNetwork.MemoryBlocks

/-! What the operations on the small blocks keep: the chain of nodes, the books, and
that the regions not yet freed are the blocks of the chain and the large ones. Each
operation has one specification: from a state of custody and an outcome that
posix_memalign can have it goes through, and custody is kept. -/
namespace TinyNetwork.MemoryCustody
open Ranges Words Chains Memory MemoryPool MemoryBlocks

structure Core (s : MemoryPool) (nodes : List Nat) (held larges : List Range) : Prop where
  chain : Chain (fun a => (s.memory.small a).next) (some s.pool.head) nodes
  first : s.pool.head = s.address + sizeofPool
  current : s.pool.current ∈ nodes
  books : Books s.address s.memory.small nodes held
  owned : s.memory.regions.Perm (nodes.map (blockOf s.address) ++ larges)
  apart : s.memory.regions.Pairwise Apart
  shaped : ∀ r ∈ s.memory.regions, r.base % MP_ALIGNMENT = 0 ∧ 0 < r.size

def Possible (m : Memory) (size : Nat) : Memalign → Prop
  | .failed => True
  | .granted base content => Grantable m ⟨base, size⟩ ∧ content = fun _ => zeroSmall

/- What the operations need of an outcome: the region is one that posix_memalign can
return, and a new block has a zero where its quote_ will be. -/
def Fits (m : Memory) (size : Nat) : Memalign → Prop
  | .failed => True
  | .granted base _ => Grantable m ⟨base, size⟩

def Clean (m : Memory) : Memalign → Prop
  | .failed => True
  | .granted block content => Grantable m ⟨block, PAGE_SIZE⟩ ∧ (content block).quote = 0

theorem possibleFits {m : Memory} {size : Nat} {outcome : Memalign} (possible : Possible m size outcome) :
    Fits m size outcome := by
  cases outcome with
  | failed => trivial
  | granted base content => exact possible.1

theorem possibleClean {m : Memory} {outcome : Memalign} (possible : Possible m PAGE_SIZE outcome) :
    Clean m outcome := by
  cases outcome with
  | failed => trivial
  | granted base content => exact ⟨possible.1, by rw [possible.2]; rfl⟩

section
variable {s : MemoryPool} {nodes : List Nat} {held larges : List Range}

theorem headMember (core : Core s nodes held larges) : s.pool.head ∈ nodes := by
  cases nodes with
  | nil => exact absurd core.current (by simp)
  | cons a rest => rw [Option.some.inj core.chain.1]; exact List.mem_cons_self

theorem coreBlock (core : Core s nodes held larges) {a : Nat} (member : a ∈ nodes) :
    blockOf s.address a ∈ s.memory.regions :=
  core.owned.mem_iff.mpr (List.mem_append_left _ (List.mem_map_of_mem member))

theorem liveWithin {m : Memory} {r region : Range} (member : region ∈ m.regions)
    (inside : Within r region) : m.live r = true :=
  List.any_eq_true.mpr ⟨region, member, by simpa using inside⟩

theorem nodeWithin (address a : Nat) : Within ⟨a, sizeofSmallNode⟩ (blockOf address a) := by
  have base := blockBase address a
  unfold Within
  simp only [blockSize]
  unfold sizeofSmallNode PAGE_SIZE sizeofPool at *
  omega

theorem nodeLive (core : Core s nodes held larges) {a : Nat} (member : a ∈ nodes) :
    s.memory.live ⟨a, sizeofSmallNode⟩ = true :=
  liveWithin (coreBlock core member) (nodeWithin _ _)

theorem nodesFuel (core : Core s nodes held larges) : nodes.length ≤ s.memory.fuel := by
  refine pointsBounded (booksNodup core.books) (fun a member => ?_)
  refine ⟨_, coreBlock core member, ?_⟩
  have base := blockBase s.address a
  simp only [blockSize]
  unfold PAGE_SIZE sizeofPool at *
  omega

end

theorem findRoomSpec {m : Memory} {address : Nat} (size : Nat) {nodes : List Nat} {held : List Range}
    (books : Books address m.small nodes held)
    (live : ∀ a ∈ nodes, m.live ⟨a, sizeofSmallNode⟩ = true) {start : Option Nat} {rest : List Nat}
    (chain : Chain (fun a => (m.small a).next) start rest) (inside : ∀ a ∈ rest, a ∈ nodes)
    {fuel : Nat} (enough : rest.length ≤ fuel) :
    findRoom m size fuel start = some none ∨
    ∃ a ∈ nodes, mpAlignPtr (m.small a).last + size ≤ (m.small a).end_ ∧
      findRoom m size fuel start = some (some (mpAlignPtr (m.small a).last,
        { m with small := Function.update m.small a (taken (m.small a) size) })) := by
  induction rest generalizing start fuel with
  | nil =>
    obtain rfl : start = none := chain
    exact .inl (by unfold findRoom; rfl)
  | cons a rest ih =>
    obtain ⟨rfl, more⟩ := chain
    have member := inside a List.mem_cons_self
    have alive := live a member
    cases fuel with
    | zero => simp at enough
    | succ fuel =>
      by_cases room : mpAlignPtr (m.small a).last + size ≤ (m.small a).end_
      · refine .inr ⟨a, member, room, ?_⟩
        simp only [findRoom, readSmall, writeSmall, alive, if_true, bind, Option.bind,
          (roomTest books member size).mpr room]
        rfl
      · have tight : ¬ size ≤ widen (Int.ofNat (m.small a).end_ - Int.ofNat (mpAlignPtr (m.small a).last)) :=
          fun h => room ((roomTest books member size).mp h)
        have step : findRoom m size (fuel + 1) (some a) = findRoom m size fuel (m.small a).next := by
          simp only [findRoom, readSmall, alive, if_true, bind, Option.bind, if_neg tight]
        rw [step]
        exact ih more (fun b mem => inside b (List.mem_cons_of_mem _ mem)) (by simpa using enough)

structure Walked (m m' : Memory) : Prop where
  regions : m'.regions = m.regions
  large : m'.large = m.large
  books : ∀ a, SameBooks (m'.small a) (m.small a)
  next : ∀ a, (m'.small a).next = (m.small a).next

theorem skipFailedSpec {m : Memory} {cur : Nat} {rest : List Nat} (current : Nat)
    (chain : Chain (fun a => (m.small a).next) (some cur) (cur :: rest))
    (live : ∀ a ∈ cur :: rest, m.live ⟨a, sizeofSmallNode⟩ = true)
    {fuel : Nat} (enough : (cur :: rest).length ≤ fuel) :
    ∃ m' current', skipFailed fuel m cur current =
        some (m', (cur :: rest).getLast (List.cons_ne_nil _ _), current') ∧
      (current' = current ∨ current' ∈ rest) ∧ Walked m m' := by
  induction rest generalizing m cur current fuel with
  | nil =>
    have stop : (m.small cur).next = none := chain.2
    cases fuel with
    | zero => simp at enough
    | succ fuel =>
      refine ⟨m, current, ?_, .inl rfl, ⟨rfl, rfl, fun _ => ⟨rfl, rfl, rfl⟩, fun _ => rfl⟩⟩
      simp [skipFailed, readSmall, live cur List.mem_cons_self, stop]
  | cons next rest ih =>
    obtain ⟨link, more⟩ := chain.2
    have alive := live cur List.mem_cons_self
    cases fuel with
    | zero => simp at enough
    | succ fuel =>
      let node : SmallNode :=
        { m.small cur with failed := ((m.small cur).failed + 1) % uintLimit, next := some next }
      let m₁ : Memory := { m with small := Function.update m.small cur node }
      have kept : ∀ a, SameBooks (m₁.small a) (m.small a) ∧ (m₁.small a).next = (m.small a).next := by
        intro a
        by_cases same : a = cur
        · subst same
          simpa [m₁, node, SameBooks] using link.symm
        · simp [m₁, SameBooks, Function.update_of_ne same]
      have chain₁ : Chain (fun a => (m₁.small a).next) (some next) (next :: rest) :=
        chainFrame ⟨rfl, more⟩ (fun a _ => (kept a).2)
      obtain ⟨m', current', run, place, walked⟩ := ih (m := m₁)
        (if 5 ≤ (m.small cur).failed then next else current) chain₁
        (fun a mem => live a (List.mem_cons_of_mem _ mem)) (by simpa using enough)
      refine ⟨m', current', ?_, ?_, ⟨walked.regions, walked.large, ?_, ?_⟩⟩
      · rw [List.getLast_cons (List.cons_ne_nil _ _), ← run]
        simp only [skipFailed, readSmall, writeSmall, alive, if_true, bind, Option.bind, link]
        rfl
      · rcases place with same | later
        · rw [same]
          split
          · exact .inr List.mem_cons_self
          · exact .inl rfl
        · exact .inr (List.mem_cons_of_mem _ later)
      · intro a
        obtain ⟨end_, last, quote⟩ := walked.books a
        obtain ⟨end₁, last₁, quote₁⟩ := (kept a).1
        exact ⟨end_.trans end₁, last.trans last₁, quote.trans quote₁⟩
      · exact fun a => (walked.next a).trans (kept a).2

structure Beside (s s' : MemoryPool) : Prop where
  address : s'.address = s.address
  largeList : s'.pool.largeList = s.pool.largeList
  large : s'.memory.large = s.memory.large

section
variable {s : MemoryPool} {nodes : List Nat} {held larges : List Range}

theorem grantedBlock (core : Core s nodes held larges) {block : Nat}
    (grantable : Grantable s.memory ⟨block, PAGE_SIZE⟩) :
    blockOf s.address block = ⟨block, PAGE_SIZE⟩ ∧ block ∉ nodes ∧
      (∀ a ∈ nodes, Apart (blockOf s.address a) ⟨block, PAGE_SIZE⟩) := by
  obtain ⟨_, aligned, _, far⟩ := grantable
  have apart : ∀ a ∈ nodes, Apart (blockOf s.address a) ⟨block, PAGE_SIZE⟩ :=
    fun a member => apartSymm (far _ (coreBlock core member))
  have base := (core.books.each _ (headMember core)).aligned
  rw [core.first, blockOf, if_pos rfl] at base
  have other : block ≠ s.address + sizeofPool := by
    rintro rfl
    unfold MP_ALIGNMENT sizeofPool at *
    dsimp only at *
    omega
  refine ⟨by rw [blockOf, if_neg other], fun member => ?_, apart⟩
  have self := apart block member
  simp only [blockOf, if_neg other, Apart, PAGE_SIZE] at self
  omega

theorem grantedKeeps (core : Core s nodes held larges) {r : Range} (grantable : Grantable s.memory r)
    {a : Nat} (member : a ∈ nodes) : ¬ (r.base ≤ a ∧ a < r.base + r.size) := by
  have apart := grantable.2.2.2 _ (coreBlock core member)
  have near := blockBase s.address a
  have inside := nodeWithin s.address a
  simp only [Apart, Within, blockSize, PAGE_SIZE, sizeofSmallNode] at *
  omega

structure Prepared (s : MemoryPool) (nodes : List Nat) (m : Memory) (block size : Nat) : Prop where
  regions : m.regions = ⟨block, PAGE_SIZE⟩ :: s.memory.regions
  large : m.large = s.memory.large
  kept : ∀ a ∈ nodes, m.small a = s.memory.small a
  node : ∃ failed, m.small block = ⟨block + PAGE_SIZE, block + sizeofSmallNode + size, 1, failed, none⟩

theorem newBlockSpec (core : Core s nodes held larges) {block : Nat} {content : Nat → SmallNode}
    (grantable : Grantable s.memory ⟨block, PAGE_SIZE⟩) (zero : (content block).quote = 0) (size : Nat) :
    ∃ m m', s.memory.posixMemalign PAGE_SIZE (.granted block content) = some (some block, m) ∧
      newBlock m block size = some m' ∧ Prepared s nodes m' block size ∧
      mpAlignPtr (block + sizeofSmallNode) = block + sizeofSmallNode := by
  obtain ⟨place, new, _⟩ := grantedBlock core grantable
  have start : mpAlignPtr (block + sizeofSmallNode) = block + sizeofSmallNode := by
    obtain ⟨_, aligned, word, _⟩ := grantable
    simp only [mpAlignPtr, MP_ALIGNMENT, sizeofSmallNode, PAGE_SIZE, sizeLimit] at *
    omega
  let m : Memory := ⟨⟨block, PAGE_SIZE⟩ :: s.memory.regions,
    fun a => if block ≤ a ∧ a < block + PAGE_SIZE then content a else s.memory.small a, s.memory.large⟩
  have raw : m.small block = content block := if_pos ⟨Nat.le_refl _, by unfold PAGE_SIZE; omega⟩
  have live : m.live ⟨block, sizeofSmallNode⟩ = true :=
    liveWithin List.mem_cons_self (place ▸ nodeWithin s.address block)
  let node : SmallNode :=
    ⟨block + PAGE_SIZE, block + sizeofSmallNode + size, 1, (content block).failed, none⟩
  refine ⟨m, { m with small := Function.update m.small block node },
    by simp only [posixMemalign, if_pos grantable]; rfl, ?_, ⟨rfl, rfl, ?_, ?_⟩, start⟩
  · simp only [newBlock, readSmall, writeSmall, live, if_true, bind, Option.bind, raw, start, zero]
    rfl
  · intro a member
    have other : a ≠ block := fun same => new (same ▸ member)
    have outside := grantedKeeps core grantable member
    simp only [m, Function.update_of_ne other, if_neg outside]
  · exact ⟨_, Function.update_self ..⟩

theorem skipToLast (core : Core s nodes held larges) {block size : Nat} {m : Memory}
    (prepared : Prepared s nodes m block size) :
    ∃ m' last current, skipFailed m.fuel m s.pool.current s.pool.current = some (m', last, current) ∧
      nodes = nodes.dropLast ++ [last] ∧ current ∈ nodes ∧ m'.live ⟨last, sizeofSmallNode⟩ = true ∧
      Walked m m' := by
  have chain : Chain (fun a => (m.small a).next) (some s.pool.head) nodes :=
    chainFrame core.chain (fun a member => by rw [prepared.kept a member])
  have live : ∀ a ∈ nodes, m.live ⟨a, sizeofSmallNode⟩ = true := fun a member =>
    liveWithin (prepared.regions ▸ List.mem_cons_of_mem _ (coreBlock core member)) (nodeWithin _ _)
  obtain ⟨front, rest, split_, tail⟩ := chainMember chain core.current
  have inTail : ∀ a ∈ s.pool.current :: rest, a ∈ nodes := by
    intro a member
    rw [split_]
    exact List.mem_append_right _ member
  have enough : (s.pool.current :: rest).length ≤ m.fuel := by
    have all := nodesFuel core
    have part : (s.pool.current :: rest).length ≤ nodes.length := by
      rw [split_, List.length_append]
      omega
    simp only [Memory.fuel, bytes, prepared.regions, List.map_cons, List.sum_cons] at all ⊢
    omega
  obtain ⟨m', current, run, skipped, walked⟩ := skipFailedSpec s.pool.current tail
    (fun a member => live a (inTail a member)) enough
  refine ⟨m', _, current, run, ?_, ?_, ?_, walked⟩
  · rw [split_]
    simp [List.dropLast_append_of_ne_nil, List.dropLast_append_getLast]
  · rcases skipped with unmoved | later
    · exact unmoved ▸ core.current
    · exact inTail _ (List.mem_cons_of_mem _ later)
  · simpa only [Memory.live, walked.regions] using live _ (inTail _ (List.getLast_mem _))

theorem linkBlockSpec (core : Core s nodes held larges) {block size : Nat} (positive : 0 < size)
    (fits : size ≤ PAGE_SIZE - sizeofSmallNode) (grantable : Grantable s.memory ⟨block, PAGE_SIZE⟩)
    {m : Memory} (prepared : Prepared s nodes m block size) :
    ∃ s', s.linkBlock m block = some s' ∧
      Core s' (nodes ++ [block]) (⟨block + sizeofSmallNode, size⟩ :: held) larges ∧ Beside s s' := by
  obtain ⟨place, new, far⟩ := grantedBlock core grantable
  obtain ⟨_, aligned, word, outside⟩ := grantable
  obtain ⟨m', last, current, run, cut, position, live, walked⟩ := skipToLast core prepared
  have chain : Chain (fun a => (m.small a).next) (some s.pool.head) nodes :=
    chainFrame core.chain (fun a member => by rw [prepared.kept a member])
  have lastMember : last ∈ nodes := cut ▸ List.mem_append_right _ (List.mem_singleton_self last)
  have before : ∀ a ∈ nodes.dropLast, a ≠ last := by
    rintro a member rfl
    have distinct := booksNodup core.books
    rw [cut] at distinct
    exact (List.nodup_append.mp distinct).2.2 a member a (List.mem_singleton_self a) rfl
  have other : block ≠ last := fun same => new (same ▸ lastMember)
  let linked := Function.update m'.small last { m'.small last with next := some block }
  have same : ∀ a, SameBooks (linked a) (m.small a) := by
    intro a
    obtain ⟨end_, top, quote⟩ := walked.books a
    by_cases here : a = last
    · subst here
      simpa [linked, SameBooks] using ⟨end_, top, quote⟩
    · simpa [linked, SameBooks, Function.update_of_ne here] using ⟨end_, top, quote⟩
  have next : ∀ a, a ≠ last → (linked a).next = (m.small a).next := by
    intro a here
    simpa [linked, Function.update_of_ne here] using walked.next a
  obtain ⟨failed, node⟩ := prepared.node
  have fresh := same block
  rw [node] at fresh
  have regions : m'.regions = ⟨block, PAGE_SIZE⟩ :: s.memory.regions :=
    walked.regions.trans prepared.regions
  refine ⟨⟨s.address, { s.pool with current }, { m' with small := linked }⟩, ?_, ?_,
    ⟨rfl, rfl, walked.large.trans prepared.large⟩⟩
  · simp only [linkBlock, run, readSmall, writeSmall, live, if_true, bind, Option.bind]
    rfl
  · refine ⟨?_, core.first, ?_, ?_, ?_, ?_, ?_⟩
    · rw [cut] at chain ⊢
      refine chainSnoc chain (fun a member => next a (before a member)) ?_ ?_
      · simp [linked]
      · rw [next block other, node]
    · exact List.mem_append_left _ position
    · refine booksGrow core.books place aligned word far (fun a member => ?_) rfl positive fits
        fresh.1 fresh.2.1 fresh.2.2
      rw [← prepared.kept a member]
      exact same a
    · simp only [regions, List.map_append, List.map_singleton, place]
      rw [List.append_assoc, List.singleton_append]
      exact (core.owned.cons ⟨block, PAGE_SIZE⟩).trans List.perm_middle.symm
    · simp only [regions]
      exact List.pairwise_cons.mpr ⟨outside, core.apart⟩
    · simp only [regions]
      exact List.forall_mem_cons.mpr ⟨⟨aligned, show 0 < PAGE_SIZE by decide⟩, core.shaped⟩

theorem mallocSmallSpec (core : Core s nodes held larges) {size : Nat} (positive : 0 < size)
    (fits : size ≤ PAGE_SIZE - sizeofSmallNode) {outcome : Memalign}
    (clean : Clean s.memory outcome) :
    s.mallocSmall size outcome = some (none, s) ∨
    ∃ addr s' nodes', s.mallocSmall size outcome = some (some addr, s') ∧
      Core s' nodes' (⟨addr, size⟩ :: held) larges ∧ Beside s s' := by
  obtain ⟨front, rest, split_, tail⟩ := chainMember core.chain core.current
  have inTail : ∀ a ∈ s.pool.current :: rest, a ∈ nodes := by
    intro a member
    rw [split_]
    exact List.mem_append_right _ member
  have enough : (s.pool.current :: rest).length ≤ s.memory.fuel := by
    have all := nodesFuel core
    rw [split_, List.length_append] at all
    omega
  rcases findRoomSpec size core.books (fun a => nodeLive core) tail inTail enough with
    full | ⟨a, member, room, found⟩
  · cases outcome with
    | failed =>
      exact .inl (by simp only [mallocSmall, full, mallocSmallNode, posixMemalign, bind, Option.bind])
    | granted block content =>
      obtain ⟨grantable, zero⟩ := clean
      obtain ⟨m, m', granted, new, prepared, start⟩ := newBlockSpec core grantable zero size
      obtain ⟨s', linked, core', beside⟩ := linkBlockSpec core positive fits grantable prepared
      refine .inr ⟨_, s', _, ?_, core', beside⟩
      simp only [mallocSmall, full, mallocSmallNode, granted, new, linked, start, bind, Option.bind]
  · refine .inr ⟨mpAlignPtr (s.memory.small a).last,
      { s with memory := { s.memory with
          small := Function.update s.memory.small a (taken (s.memory.small a) size) } }, nodes,
      by simp only [mallocSmall, found, bind, Option.bind], ?_, ⟨rfl, rfl, rfl⟩⟩
    refine ⟨?_, core.first, core.current, booksTake core.books member positive room, core.owned,
      core.apart, core.shaped⟩
    refine chainFrame core.chain (fun b _ => ?_)
    by_cases same : b = a
    · subst same
      simp [taken]
    · simp [Function.update_of_ne same]

theorem chainUpdate {small : Nat → SmallNode} {start : Option Nat} {rest : List Nat}
    (chain : Chain (fun a => (small a).next) start rest) {a : Nat} {node : SmallNode}
    (link : node.next = (small a).next) :
    Chain (fun b => (Function.update small a node b).next) start rest := by
  refine chainFrame chain (fun b _ => ?_)
  by_cases same : b = a
  · subst same
    simpa using link
  · simp [Function.update_of_ne same]

theorem unquoteSpec {h : Range} (core : Core s nodes (h :: held) larges) {a : Nat} (member : a ∈ nodes)
    (own : Within h (blockOf s.address a)) :
    ∃ s', s.unquote a (s.memory.small a) = some s' ∧ Core s' nodes held larges ∧ Beside s s' := by
  have block := core.books.each a member
  have near := blockBase s.address a
  have low := block.low
  have high := block.high
  have limit := block.limit
  have counted := block.counted
  rw [List.countP_cons_of_pos (by simpa using own)] at counted
  have less : ((s.memory.small a).quote + (uintLimit - 1)) % uintLimit = (s.memory.small a).quote - 1 := by
    simp only [uintLimit, PAGE_SIZE, sizeofPool] at *
    omega
  have alive := nodeLive core member
  have back : (if a = s.pool.head then s.address + sizeofPool + sizeofSmallNode
      else a + sizeofSmallNode) = a + sizeofSmallNode := by
    rw [core.first]
    split
    · rename_i same
      rw [same]
    · rfl
  simp only [unquote, less, back, writeSmall, alive, if_true, bind, Option.bind]
  by_cases empty : (s.memory.small a).quote - 1 = 0
  · rw [if_pos empty]
    exact ⟨_, rfl, ⟨chainUpdate core.chain rfl, core.first, headMember core,
      booksGive core.books member own rfl (by dsimp only; omega) (.inr ⟨empty, rfl⟩), core.owned,
      core.apart, core.shaped⟩, ⟨rfl, rfl, rfl⟩⟩
  · rw [if_neg empty]
    exact ⟨_, rfl, ⟨chainUpdate core.chain rfl, core.first, core.current,
      booksGive core.books member own rfl (by dsimp only; omega) (.inl rfl), core.owned, core.apart,
      core.shaped⟩, ⟨rfl, rfl, rfl⟩⟩

theorem freeSmallWalk {p a : Nat} {start : Option Nat} {rest : List Nat}
    (chain : Chain (fun b => (s.memory.small b).next) start rest) (member : a ∈ rest)
    (live : ∀ b ∈ rest, s.memory.live ⟨b, sizeofSmallNode⟩ = true)
    (here : a ≤ p ∧ p ≤ (s.memory.small a).end_)
    (only : ∀ b ∈ rest, b ≤ p ∧ p ≤ (s.memory.small b).end_ → b = a)
    {fuel : Nat} (enough : rest.length ≤ fuel) :
    s.freeSmall p fuel start = s.unquote a (s.memory.small a) := by
  induction rest generalizing start fuel with
  | nil => exact absurd member (by simp)
  | cons b rest ih =>
    obtain ⟨rfl, more⟩ := chain
    cases fuel with
    | zero => simp at enough
    | succ fuel =>
      simp only [freeSmall, readSmall, live b List.mem_cons_self, if_true, bind, Option.bind]
      by_cases found : b ≤ p ∧ p ≤ (s.memory.small b).end_
      · rw [if_pos found, only b List.mem_cons_self found]
      · rw [if_neg found]
        have later : a ∈ rest := by
          rcases List.mem_cons.mp member with same | later
          · exact absurd (same ▸ here) found
          · exact later
        exact ih more later (fun c mem => live c (List.mem_cons_of_mem _ mem))
          (fun c mem => only c (List.mem_cons_of_mem _ mem)) (by simpa using enough)

/- The test of freeMemory includes the end of a block; that address is never one
that another block has handed out. -/
theorem freeSmallSpec {h : Range} (core : Core s nodes (h :: held) larges) :
    ∃ s', s.freeSmall h.base s.memory.fuel (some s.pool.head) = some s' ∧
      Core s' nodes held larges ∧ Beside s s' := by
  obtain ⟨a, member, low, high⟩ := core.books.home h List.mem_cons_self
  have block := core.books.each a member
  have own := homeWithin block low high
  have only : ∀ b ∈ nodes, b ≤ h.base ∧ h.base ≤ (s.memory.small b).end_ → b = a := by
    intro b mem found
    by_contra ne
    have apart := booksBlocks core.books mem member ne
    have limit := (core.books.each b mem).limit
    have nearA := blockBase s.address a
    have nearB := blockBase s.address b
    have positive := (core.books.shaped h List.mem_cons_self).2
    simp only [Apart, Within, blockSize, sizeofSmallNode] at *
    omega
  rw [freeSmallWalk core.chain member (fun b => nodeLive core) ⟨?_, ?_⟩ only (nodesFuel core)]
  · exact unquoteSpec core member own
  · omega
  · have top := block.high
    omega

theorem rewindSmallSpec {m : Memory} {start : Option Nat} {rest : List Nat}
    (chain : Chain (fun b => (m.small b).next) start rest) (distinct : rest.Nodup)
    (live : ∀ b ∈ rest, m.live ⟨b, sizeofSmallNode⟩ = true)
    {fuel : Nat} (enough : rest.length ≤ fuel) :
    ∃ small, rewindSmall m fuel start = some { m with small } ∧
      (∀ b ∈ rest, small b =
        { m.small b with last := b + sizeofSmallNode, failed := 0, quote := 0 }) ∧
      ∀ b, b ∉ rest → small b = m.small b := by
  induction rest generalizing m start fuel with
  | nil =>
    obtain rfl : start = none := chain
    exact ⟨m.small, by unfold rewindSmall; rfl, nofun, fun _ _ => rfl⟩
  | cons a rest ih =>
    obtain ⟨rfl, more⟩ := chain
    obtain ⟨new, distinct⟩ := List.nodup_cons.mp distinct
    cases fuel with
    | zero => simp at enough
    | succ fuel =>
      let node : SmallNode := { m.small a with last := a + sizeofSmallNode, failed := 0, quote := 0 }
      obtain ⟨small, run, inside, outside⟩ := ih (m := { m with small := Function.update m.small a node })
        (chainUpdate more rfl) distinct (fun b mem => live b (List.mem_cons_of_mem _ mem))
        (by simpa using enough)
      refine ⟨small, ?_, ?_, ?_⟩
      · simp only [rewindSmall, readSmall, writeSmall, live a List.mem_cons_self, if_true, bind, Option.bind]
        exact run
      · rintro b (_ | ⟨_, mem⟩)
        · rw [outside a new]
          exact Function.update_self ..
        · have other : b ≠ a := fun same => new (same ▸ mem)
          rw [inside b mem]
          simp only [Function.update_of_ne other]
      · intro b mem
        rw [List.mem_cons, not_or] at mem
        obtain ⟨other, later⟩ := mem
        rw [outside b later]
        exact Function.update_of_ne other ..

end

end TinyNetwork.MemoryCustody
