import TinyNetwork.MemoryCustody

/-! The large regions and their descriptors. A descriptor is a range of its own in a
small block: it stays in the list with a null address when its region is freed and
names the next large region that is obtained. -/
namespace TinyNetwork.MemoryLarges
open Ranges Words Chains Memory MemoryPool MemoryBlocks MemoryCustody

def cell (d : Nat) : Range := ⟨d, sizeofLargeNode⟩

structure Listing (large : Nat → LargeNode) (start : Option Nat) (cells : List Nat)
    (larges : List Range) : Prop where
  chain : Chain (fun d => (large d).next) start cells
  named : (cells.filterMap (fun d => (large d).address)).Perm (larges.map Range.base)

/- The whole of what the pool has given away: `smalls` and `larges` to its user, and
the descriptors to itself. -/
structure Custody (s : MemoryPool) (nodes cells : List Nat) (smalls larges : List Range) : Prop where
  core : Core s nodes (smalls ++ cells.map cell) larges
  listing : Listing s.memory.large s.pool.largeList cells larges

theorem freeSpec {m : Memory} {r : Range} {rest : List Range} (owned : m.regions.Perm (r :: rest))
    (apart : m.regions.Pairwise Apart) (shaped : ∀ q ∈ m.regions, q.base % MP_ALIGNMENT = 0 ∧ 0 < q.size) :
    ∃ regions, m.free r.base = some { m with regions } ∧ regions.Perm rest ∧
      regions.Pairwise Apart ∧ ∀ q ∈ regions, q.base % MP_ALIGNMENT = 0 ∧ 0 < q.size := by
  have member : r ∈ m.regions := owned.mem_iff.mpr List.mem_cons_self
  obtain ⟨q, front, back, _, same, split_, erased⟩ :=
    List.exists_of_eraseP (p := fun q : Range => q.base == r.base) member (by simp)
  have there : q ∈ m.regions := by rw [split_]; simp
  have symm : Std.Symm Apart := ⟨fun _ _ apart => apartSymm apart⟩
  have equal : r = q := by
    by_contra ne
    have far := apart.forall member there ne
    have left := (shaped r member).2
    have right := (shaped q there).2
    have bases : q.base = r.base := by simpa using same
    unfold Apart at far
    omega
  subst equal
  refine ⟨front ++ back, ?_, ?_, ?_, ?_⟩
  · rw [free, if_pos (List.any_eq_true.mpr ⟨r, member, by simp⟩), erased]
  · have moved : m.regions.Perm (r :: (front ++ back)) := by rw [split_]; exact List.perm_middle
    exact (moved.symm.trans owned).cons_inv
  · rw [split_] at apart
    exact (pairwisePerm List.perm_middle apart).of_cons
  · intro q inside
    refine shaped q ?_
    rw [split_]
    rcases List.mem_append.mp inside with h | h
    · exact List.mem_append_left _ h
    · exact List.mem_append_right _ (List.mem_cons_of_mem _ h)

section
variable {s : MemoryPool} {nodes cells : List Nat} {held smalls larges : List Range}

theorem heldLive (core : Core s nodes held larges) {h : Range} (member : h ∈ held) :
    s.memory.live h = true := by
  obtain ⟨a, inside, within⟩ := heldInside core.books h member
  exact liveWithin (coreBlock core inside) within

theorem cellHeld {d : Nat} (member : d ∈ cells) : cell d ∈ smalls ++ cells.map cell :=
  List.mem_append_right _ (List.mem_map_of_mem member)

theorem cellsNodup (core : Core s nodes (smalls ++ cells.map cell) larges) : cells.Nodup := by
  have apart := (List.pairwise_append.mp core.books.apart).2.1
  rw [List.pairwise_map] at apart
  refine apart.imp ?_
  rintro d _ far rfl
  unfold Apart cell sizeofLargeNode at far
  dsimp only at far
  omega

theorem cellsFuel (core : Core s nodes (smalls ++ cells.map cell) larges) :
    cells.length ≤ s.memory.fuel := by
  refine pointsBounded (cellsNodup core) (fun d member => ?_)
  obtain ⟨region, inside, within⟩ := List.any_eq_true.mp (heldLive core (cellHeld member))
  refine ⟨region, inside, ?_⟩
  have within := of_decide_eq_true within
  simp only [Within, cell, sizeofLargeNode] at within
  omega

end

theorem namedSplit (large : Nat → LargeNode) {cells : List Nat} {d : Nat} (member : d ∈ cells) :
    (cells.filterMap (fun c => (large c).address)).Perm
      ((large d).address.toList ++ (cells.erase d).filterMap (fun c => (large c).address)) := by
  have perm := (List.perm_cons_erase member).filterMap (fun c => (large c).address)
  cases shape : (large d).address with
  | none => simpa [shape] using perm
  | some p => simpa [shape] using perm

theorem namedUpdate (large : Nat → LargeNode) {cells : List Nat} (distinct : cells.Nodup) {d : Nat}
    (member : d ∈ cells) (node : LargeNode) :
    (cells.filterMap (fun c => (Function.update large d node c).address)).Perm
      (node.address.toList ++ (cells.erase d).filterMap (fun c => (large c).address)) := by
  have perm := namedSplit (Function.update large d node) member
  rw [Function.update_self] at perm
  have same : (cells.erase d).filterMap (fun c => (Function.update large d node c).address) =
      (cells.erase d).filterMap (fun c => (large c).address) := by
    refine List.filterMap_congr (fun c inside => ?_)
    rw [Function.update_of_ne (distinct.mem_erase_iff.mp inside).1]
  rwa [same] at perm

theorem listUpdate {large : Nat → LargeNode} {start : Option Nat} {cells : List Nat}
    (chain : Chain (fun d => (large d).next) start cells) {d : Nat} {node : LargeNode}
    (link : node.next = (large d).next) :
    Chain (fun c => (Function.update large d node c).next) start cells := by
  refine chainFrame chain (fun c _ => ?_)
  by_cases same : c = d
  · subst same
    simpa using link
  · simp [Function.update_of_ne same]

theorem listingTake {large : Nat → LargeNode} {start : Option Nat} {cells : List Nat} {larges : List Range}
    (listing : Listing large start cells larges) (distinct : cells.Nodup) {d : Nat} (member : d ∈ cells)
    (unused : (large d).address = none) {r : Range} {node : LargeNode} (now : node.address = some r.base)
    (link : node.next = (large d).next) :
    Listing (Function.update large d node) start cells (r :: larges) := by
  refine ⟨listUpdate listing.chain link, ?_⟩
  have before := namedSplit large member
  have after := namedUpdate large distinct member node
  rw [unused, Option.toList_none, List.nil_append] at before
  rw [now, Option.toList_some, List.singleton_append] at after
  exact after.trans ((before.symm.trans listing.named).cons r.base)

theorem listingGive {large : Nat → LargeNode} {start : Option Nat} {cells : List Nat} {larges : List Range}
    {r : Range} (listing : Listing large start cells (r :: larges)) (distinct : cells.Nodup) {d : Nat}
    (member : d ∈ cells) (used : (large d).address = some r.base) {node : LargeNode}
    (now : node.address = none) (link : node.next = (large d).next) :
    Listing (Function.update large d node) start cells larges := by
  refine ⟨listUpdate listing.chain link, ?_⟩
  have before := namedSplit large member
  have after := namedUpdate large distinct member node
  rw [used, Option.toList_some, List.singleton_append] at before
  rw [now, Option.toList_none, List.nil_append] at after
  exact after.trans (before.symm.trans listing.named).cons_inv

theorem reuseLargeSpec {m : Memory} (addr size : Nat) {start : Option Nat} {rest : List Nat}
    (chain : Chain (fun d => (m.large d).next) start rest)
    (live : ∀ d ∈ rest, m.live (cell d) = true) {fuel : Nat} (enough : rest.length ≤ fuel) (count : Nat) :
    reuseLarge m addr size fuel count start = some none ∨
    ∃ d ∈ rest, (m.large d).address = none ∧
      reuseLarge m addr size fuel count start = some (some { m with
        large := Function.update m.large d
          { m.large d with size := size % uintLimit, address := some addr } }) := by
  induction rest generalizing start fuel count with
  | nil =>
    obtain rfl : start = none := chain
    exact .inl (by unfold reuseLarge; rfl)
  | cons d rest ih =>
    obtain ⟨rfl, more⟩ := chain
    have alive := live d List.mem_cons_self
    unfold cell at alive
    cases fuel with
    | zero => simp at enough
    | succ fuel =>
      simp only [reuseLarge, readLarge, writeLarge, alive, if_true, bind, Option.bind]
      by_cases unused : (m.large d).address = none
      · refine .inr ⟨d, List.mem_cons_self, unused, ?_⟩
        rw [if_pos unused]
      · rw [if_neg unused]
        by_cases tired : 3 < count
        · rw [if_pos tired]
          exact .inl rfl
        · rw [if_neg tired]
          rcases ih more (fun c mem => live c (List.mem_cons_of_mem _ mem)) (by simpa using enough)
            (count + 1) with none_ | ⟨c, mem, unused', found⟩
          · exact .inl none_
          · exact .inr ⟨c, List.mem_cons_of_mem _ mem, unused', found⟩

theorem freeLargeSpec {m : Memory} {p : Nat} {start : Option Nat} {rest : List Nat}
    (chain : Chain (fun d => (m.large d).next) start rest)
    (live : ∀ d ∈ rest, m.live (cell d) = true) {fuel : Nat} (enough : rest.length ≤ fuel) :
    (freeLarge m p fuel start = some none ∧ ∀ d ∈ rest, (m.large d).address ≠ some p) ∨
    ∃ d ∈ rest, (m.large d).address = some p ∧
      ∀ m' m'', m.free p = some m' →
        m'.writeLarge d { m.large d with size := 0, address := none } = some m'' →
        freeLarge m p fuel start = some (some m'') := by
  induction rest generalizing start fuel with
  | nil =>
    obtain rfl : start = none := chain
    exact .inl ⟨by unfold freeLarge; rfl, nofun⟩
  | cons d rest ih =>
    obtain ⟨rfl, more⟩ := chain
    have alive := live d List.mem_cons_self
    unfold cell at alive
    cases fuel with
    | zero => simp at enough
    | succ fuel =>
      simp only [freeLarge, readLarge, alive, if_true, bind, Option.bind]
      by_cases found : (m.large d).address = some p
      · refine .inr ⟨d, List.mem_cons_self, found, ?_⟩
        intro m' m'' freed written
        rw [if_pos found]
        simp only [freed, written]
      · rw [if_neg found]
        rcases ih more (fun c mem => live c (List.mem_cons_of_mem _ mem)) (by simpa using enough) with
          ⟨none_, absent⟩ | ⟨c, mem, there, run⟩
        · exact .inl ⟨none_, List.forall_mem_cons.mpr ⟨found, absent⟩⟩
        · exact .inr ⟨c, List.mem_cons_of_mem _ mem, there, run⟩

section
variable {s : MemoryPool} {nodes cells : List Nat} {held smalls larges : List Range}

theorem grantCore (core : Core s nodes held larges) {r : Range} (grantable : Grantable s.memory r)
    (positive : 0 < r.size) {m : Memory} (regions : m.regions = r :: s.memory.regions)
    (small : ∀ a, ¬ (r.base ≤ a ∧ a < r.base + r.size) → m.small a = s.memory.small a) :
    Core { s with memory := m } nodes held (r :: larges) := by
  have kept : ∀ a ∈ nodes, m.small a = s.memory.small a := fun a member =>
    small a (grantedKeeps core grantable member)
  refine ⟨chainFrame core.chain (fun a member => by rw [kept a member]), core.first, core.current,
    booksFrame core.books (fun a member => by rw [kept a member]; exact ⟨rfl, rfl, rfl⟩), ?_, ?_, ?_⟩
  · simp only [regions]
    exact (core.owned.cons r).trans List.perm_middle.symm
  · simp only [regions]
    exact List.pairwise_cons.mpr ⟨grantable.2.2.2, core.apart⟩
  · simp only [regions]
    exact List.forall_mem_cons.mpr ⟨⟨grantable.2.1, positive⟩, core.shaped⟩

theorem freeCore {r : Range} (core : Core s nodes held (r :: larges)) :
    ∃ regions, s.memory.free r.base = some { s.memory with regions } ∧
      Core { s with memory := { s.memory with regions } } nodes held larges := by
  obtain ⟨regions, done, owned, apart, shaped⟩ :=
    freeSpec (core.owned.trans List.perm_middle) core.apart core.shaped
  exact ⟨regions, done, ⟨core.chain, core.first, core.current, core.books, owned, apart, shaped⟩⟩

theorem cleanRegions {m m' : Memory} (regions : m'.regions = m.regions) {outcome : Memalign}
    (clean : Clean m outcome) : Clean m' outcome := by
  cases outcome with
  | failed => trivial
  | granted base content => simpa only [Clean, Grantable, regions] using clean

theorem mallocDescriptorSpec {r : Range} {rest : List Range} (top : s.memory.regions = r :: rest)
    (core : Core s nodes (smalls ++ cells.map cell) (r :: larges))
    (listing : Listing s.memory.large s.pool.largeList cells larges) {outcome : Memalign}
    (clean : Clean s.memory outcome) :
    (s.mallocDescriptor r.base r.size outcome =
        some (none, { s with memory := { s.memory with regions := rest } }) ∧
      Custody { s with memory := { s.memory with regions := rest } } nodes cells smalls larges) ∨
    ∃ s' nodes' cells', s.mallocDescriptor r.base r.size outcome = some (some r.base, s') ∧
      s'.address = s.address ∧ Custody s' nodes' cells' smalls (r :: larges) := by
  rcases mallocSmallSpec core (show 0 < sizeofLargeNode by decide) (by decide) clean with
    refused | ⟨d, s', nodes', done, core', beside⟩
  · obtain ⟨regions, freed, core'⟩ := freeCore core
    have first : s.memory.free r.base = some { s.memory with regions := rest } := by
      simp [free, top]
    rw [first] at freed
    cases Option.some.inj freed
    refine .inl ⟨?_, core', listing⟩
    simp only [mallocDescriptor, refused, first, bind, Option.bind]
  · have alive : s'.memory.live ⟨d, sizeofLargeNode⟩ = true := heldLive core' List.mem_cons_self
    have apart := (List.pairwise_cons.mp core'.books.apart).1
    have new : d ∉ cells := by
      intro member
      exact apartNotMem (show 0 < sizeofLargeNode by decide) apart (cellHeld member)
    have move : (cell d :: (smalls ++ cells.map cell)).Perm (smalls ++ (d :: cells).map cell) :=
      List.perm_middle.symm
    let node : LargeNode := ⟨some r.base, r.size % uintLimit, s'.pool.largeList⟩
    let large := Function.update s'.memory.large d node
    have others : ∀ c ∈ cells, large c = s.memory.large c := by
      intro c member
      have other : c ≠ d := fun same => new (same ▸ member)
      rw [← beside.large]
      exact Function.update_of_ne other ..
    refine .inr ⟨⟨s'.address, { s'.pool with largeList := some d }, { s'.memory with large }⟩, nodes',
      d :: cells, ?_, beside.address, ?_, ?_⟩
    · simp only [mallocDescriptor, done, writeLarge, alive, if_true, bind, Option.bind]
      rfl
    · exact ⟨core'.chain, core'.first, core'.current, booksPerm move core'.books, core'.owned,
        core'.apart, core'.shaped⟩
    · have top : large d = node := Function.update_self ..
      refine ⟨⟨rfl, ?_⟩, ?_⟩
      · simp only [top, node, beside.largeList]
        exact chainFrame listing.chain (fun c member => by rw [others c member])
      · have named : cells.filterMap (fun c => (large c).address) =
            cells.filterMap (fun c => (s.memory.large c).address) :=
          List.filterMap_congr (fun c member => by rw [others c member])
        have first : (large d).address = some r.base := by rw [top]
        simp only [List.filterMap_cons, first, named, List.map_cons]
        exact listing.named.cons r.base

structure Unchanged (s s' : MemoryPool) : Prop where
  address : s'.address = s.address
  pool : s'.pool = s.pool
  regions : s'.memory.regions = s.memory.regions
  small : ∀ a, s.memory.live ⟨a, sizeofSmallNode⟩ = true → s'.memory.small a = s.memory.small a
  large : s'.memory.large = s.memory.large

theorem unchangedSelf (s : MemoryPool) : Unchanged s s := ⟨rfl, rfl, rfl, fun _ _ => rfl, rfl⟩

theorem grantedApart {m : Memory} {r : Range} (grantable : Grantable m r) {a : Nat}
    (live : m.live ⟨a, sizeofSmallNode⟩ = true) : ¬ (r.base ≤ a ∧ a < r.base + r.size) := by
  obtain ⟨region, member, within⟩ := List.any_eq_true.mp live
  have apart := grantable.2.2.2 region member
  have within := of_decide_eq_true within
  simp only [Apart, Within, sizeofSmallNode] at *
  omega

theorem mallocLargeSpec (custody : Custody s nodes cells smalls larges) {size : Nat} (positive : 0 < size)
    {first second : Memalign} (fits : Fits s.memory size first)
    (after : ∀ base content, first = .granted base content →
      Clean { s.memory with regions := ⟨base, size⟩ :: s.memory.regions } second) :
    (∃ s', s.mallocLargeNode size first second = some (none, s') ∧ Unchanged s s' ∧
      Custody s' nodes cells smalls larges) ∨
    ∃ addr s' nodes' cells', s.mallocLargeNode size first second = some (some addr, s') ∧
      s'.address = s.address ∧ Custody s' nodes' cells' smalls (⟨addr, size⟩ :: larges) := by
  obtain ⟨core, listing⟩ := custody
  cases first with
  | failed =>
    refine .inl ⟨s, ?_, unchangedSelf s, core, listing⟩
    simp only [mallocLargeNode, posixMemalign, bind, Option.bind]
  | granted addr content =>
    have grantable : Grantable s.memory ⟨addr, size⟩ := fits
    let small := fun a => if addr ≤ a ∧ a < addr + size then content a else s.memory.small a
    let m : Memory := ⟨⟨addr, size⟩ :: s.memory.regions, small, s.memory.large⟩
    have granted : s.memory.posixMemalign size (.granted addr content) = some (some addr, m) := by
      simp only [posixMemalign, if_pos grantable]
      rfl
    have core' : Core { s with memory := m } nodes (smalls ++ cells.map cell) (⟨addr, size⟩ :: larges) :=
      grantCore core grantable positive rfl (fun a outside => if_neg outside)
    have live : ∀ d ∈ cells, m.live (cell d) = true := fun d member => heldLive core' (cellHeld member)
    rcases reuseLargeSpec (m := m) addr size listing.chain live (cellsFuel core') 0 with
      none_ | ⟨d, member, unused, found⟩
    · rcases mallocDescriptorSpec rfl core' listing (cleanRegions rfl (after addr content rfl)) with
        ⟨done, kept⟩ | ⟨s', nodes', cells', done, same, kept⟩
      · refine .inl ⟨{ s with memory := { m with regions := s.memory.regions } }, ?_,
          ⟨rfl, rfl, rfl, fun a alive => if_neg (grantedApart grantable alive), rfl⟩, kept⟩
        simp only [mallocLargeNode, granted, none_, bind, Option.bind]
        exact done
      · refine .inr ⟨addr, s', nodes', cells', ?_, same, kept⟩
        simp only [mallocLargeNode, granted, none_, bind, Option.bind]
        exact done
    · let node : LargeNode := { m.large d with size := size % uintLimit, address := some addr }
      refine .inr ⟨addr, { s with memory := { m with large := Function.update m.large d node } }, nodes,
        cells, ?_, rfl, ?_, ?_⟩
      · simp only [mallocLargeNode, granted, found, bind, Option.bind]
        rfl
      · exact ⟨core'.chain, core'.first, core'.current, core'.books, core'.owned, core'.apart, core'.shaped⟩
      · exact listingTake listing (cellsNodup core) member unused rfl rfl

theorem freeLargeCustody {r : Range} (custody : Custody s nodes cells smalls (r :: larges)) :
    ∃ s', s.freeMemory r.base = some s' ∧ s'.address = s.address ∧ Custody s' nodes cells smalls larges := by
  obtain ⟨core, listing⟩ := custody
  have live : ∀ d ∈ cells, s.memory.live (cell d) = true := fun d member => heldLive core (cellHeld member)
  obtain ⟨regions, freed, core'⟩ := freeCore core
  rcases freeLargeSpec (p := r.base) listing.chain live (cellsFuel core) with
    ⟨_, absent⟩ | ⟨d, member, used, run⟩
  · have named : r.base ∈ cells.filterMap (fun d => (s.memory.large d).address) :=
      listing.named.mem_iff.mpr List.mem_cons_self
    obtain ⟨d, member, used⟩ := List.mem_filterMap.mp named
    exact absurd used (absent d member)
  · have alive : Memory.live { s.memory with regions } (cell d) = true := heldLive core' (cellHeld member)
    let node : LargeNode := { s.memory.large d with size := 0, address := none }
    have written : writeLarge { s.memory with regions } d node =
        some { s.memory with regions, large := Function.update s.memory.large d node } := if_pos alive
    have done := run _ _ freed written
    refine ⟨{ s with memory := { s.memory with regions, large := Function.update s.memory.large d node } },
      ?_, rfl, ?_, ?_⟩
    · simp only [freeMemory, done, bind, Option.bind]
    · exact ⟨core'.chain, core'.first, core'.current, core'.books, core'.owned, core'.apart, core'.shaped⟩
    · exact listingGive listing (cellsNodup core) member used rfl rfl

theorem freeSmallCustody {h : Range} (custody : Custody s nodes cells (h :: smalls) larges) :
    ∃ s', s.freeMemory h.base = some s' ∧ s'.address = s.address ∧ Custody s' nodes cells smalls larges := by
  obtain ⟨core, listing⟩ := custody
  have live : ∀ d ∈ cells, s.memory.live (cell d) = true := fun d member => heldLive core (cellHeld member)
  obtain ⟨s', done, core', beside⟩ := freeSmallSpec core
  rcases freeLargeSpec (p := h.base) listing.chain live (cellsFuel core) with
    ⟨none_, _⟩ | ⟨d, member, used, _⟩
  · refine ⟨s', ?_, beside.address, core', ?_⟩
    · simp only [freeMemory, none_, bind, Option.bind]
      exact done
    · rw [beside.large, beside.largeList]
      exact listing
  · have named : h.base ∈ larges.map Range.base :=
      listing.named.mem_iff.mp (List.mem_filterMap.mpr ⟨d, member, used⟩)
    obtain ⟨r, inside, same⟩ := List.mem_map.mp named
    obtain ⟨a, node, within⟩ := heldInside core.books h List.mem_cons_self
    have apart := pairwisePerm core.owned core.apart
    have far := (List.pairwise_append.mp apart).2.2 _ (List.mem_map_of_mem node) r inside
    have region : r ∈ s.memory.regions := core.owned.mem_iff.mpr (List.mem_append_right _ inside)
    have nonempty := (core.shaped r region).2
    have small := (core.books.shaped h List.mem_cons_self).2
    unfold Apart Within at *
    omega

structure Releasing (m : Memory) (blocks larges : List Range) (start : Option Nat) (rest : List Nat) : Prop where
  chain : Chain (fun d => (m.large d).next) start rest
  distinct : rest.Nodup
  named : (rest.filterMap (fun d => (m.large d).address)).Perm (larges.map Range.base)
  owned : m.regions.Perm (blocks ++ larges)
  apart : m.regions.Pairwise Apart
  shaped : ∀ r ∈ m.regions, r.base % MP_ALIGNMENT = 0 ∧ 0 < r.size
  inside : ∀ d ∈ rest, ∃ b ∈ blocks, Within (cell d) b

structure Released (regions blocks : List Range) : Prop where
  owned : regions.Perm blocks
  apart : regions.Pairwise Apart
  shaped : ∀ r ∈ regions, r.base % MP_ALIGNMENT = 0 ∧ 0 < r.size

theorem releasingStart (custody : Custody s nodes cells smalls larges) :
    Releasing s.memory (nodes.map (blockOf s.address)) larges s.pool.largeList cells := by
  obtain ⟨core, listing⟩ := custody
  refine ⟨listing.chain, cellsNodup core, listing.named, core.owned, core.apart, core.shaped, fun d member => ?_⟩
  obtain ⟨a, node, within⟩ := heldInside core.books _ (cellHeld member)
  exact ⟨_, List.mem_map_of_mem node, within⟩

section
variable {m : Memory} {blocks : List Range} {start : Option Nat} {d : Nat} {rest : List Nat}

theorem releasingEnd (releasing : Releasing m blocks larges start []) :
    start = none ∧ Released m.regions blocks := by
  obtain ⟨chain, _, named, owned, apart, shaped, _⟩ := releasing
  obtain rfl : larges = [] := by simpa using named.symm
  rw [List.append_nil] at owned
  exact ⟨chain, owned, apart, shaped⟩

theorem releasingLive (releasing : Releasing m blocks larges start (d :: rest)) :
    m.live ⟨d, sizeofLargeNode⟩ = true := by
  obtain ⟨b, block, within⟩ := releasing.inside d List.mem_cons_self
  exact liveWithin (releasing.owned.mem_iff.mpr (List.mem_append_left _ block)) within

theorem releasingSkip (releasing : Releasing m blocks larges start (d :: rest))
    (address : (m.large d).address = none) : Releasing m blocks larges (m.large d).next rest := by
  obtain ⟨chain, distinct, named, owned, apart, shaped, inside⟩ := releasing
  simp only [List.filterMap_cons, address] at named
  exact ⟨chain.2, (List.nodup_cons.mp distinct).2, named, owned, apart, shaped,
    fun c mem => inside c (List.mem_cons_of_mem d mem)⟩

theorem releasingFree (releasing : Releasing m blocks larges start (d :: rest)) {p : Nat}
    (address : (m.large d).address = some p) :
    ∃ regions larges', m.free p = some { m with regions } ∧
      Memory.live { m with regions } ⟨d, sizeofLargeNode⟩ = true ∧
      Releasing { m with regions } blocks larges' (m.large d).next rest := by
  obtain ⟨chain, distinct, named, owned, apart, shaped, inside⟩ := releasing
  simp only [List.filterMap_cons, address] at named
  obtain ⟨r, member, rfl⟩ := List.mem_map.mp (named.mem_iff.mp List.mem_cons_self)
  have split_ := List.perm_cons_erase member
  have owned' : m.regions.Perm (r :: (blocks ++ larges.erase r)) :=
    owned.trans ((split_.append_left blocks).trans List.perm_middle)
  obtain ⟨regions, freed, left, far, good⟩ := freeSpec owned' apart shaped
  have named' := (named.trans (split_.map Range.base)).cons_inv
  obtain ⟨b, block, within⟩ := inside d List.mem_cons_self
  refine ⟨regions, larges.erase r, freed, liveWithin (left.mem_iff.mpr (List.mem_append_left _ block)) within, ?_⟩
  exact ⟨chain.2, (List.nodup_cons.mp distinct).2, named', left, far, good,
    fun c mem => inside c (List.mem_cons_of_mem d mem)⟩

theorem releaseLargeSpec (releasing : Releasing m blocks larges start rest) {fuel : Nat} (enough : rest.length ≤ fuel) :
    ∃ regions, releaseLarge m fuel start = some { m with regions } ∧ Released regions blocks := by
  induction rest generalizing m start larges fuel with
  | nil =>
    obtain ⟨rfl, released⟩ := releasingEnd releasing
    exact ⟨m.regions, by unfold releaseLarge; rfl, released⟩
  | cons d rest ih =>
    obtain rfl : start = some d := releasing.chain.1
    have alive := releasingLive releasing
    cases fuel with
    | zero => simp at enough
    | succ fuel =>
      cases address : (m.large d).address with
      | none =>
        simp only [releaseLarge, readLarge, alive, if_true, bind, Option.bind, address]
        exact ih (releasingSkip releasing address) (by simpa using enough)
      | some p =>
        obtain ⟨regions, larges', freed, still, next⟩ := releasingFree releasing address
        simp only [releaseLarge, readLarge, alive, if_true, bind, Option.bind, address, freed, still]
        exact ih next (by simpa using enough)

end

theorem resetPoolSpec (custody : Custody s nodes cells smalls larges) :
    ∃ s', s.resetPool = some s' ∧ s'.address = s.address ∧ Custody s' nodes [] [] [] := by
  have core := custody.core
  obtain ⟨regions, released, owned, apart, shaped⟩ := releaseLargeSpec (releasingStart custody) (cellsFuel core)
  have owned' : regions.Perm (nodes.map (blockOf s.address) ++ []) := by rwa [List.append_nil]
  have middle : Core { s with memory := { s.memory with regions } } nodes (smalls ++ cells.map cell) [] :=
    ⟨core.chain, core.first, core.current, core.books, owned', apart, shaped⟩
  obtain ⟨small, rewound, cleared, _⟩ := rewindSmallSpec (m := { s.memory with regions }) core.chain
    (booksNodup core.books) (fun a => nodeLive middle) (nodesFuel middle)
  refine ⟨⟨s.address, ⟨none, s.pool.head, s.pool.head⟩, ⟨regions, small, s.memory.large⟩⟩, ?_, rfl, ?_, ?_⟩
  · simp only [resetPool, released, bind, Option.bind, rewound]
  · refine ⟨chainFrame core.chain (fun a member => by simp only [cleared a member]), core.first,
      headMember core, ?_, owned', apart, shaped⟩
    refine booksRewind core.books (fun a member => ?_)
    simp only [cleared a member, and_self]
  · exact ⟨rfl, .nil⟩

end

end TinyNetwork.MemoryLarges
