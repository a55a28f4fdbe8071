import TinyNetwork.MemoryDisjoint

/-! The end of a pool. destroyPool gives every large region back and then walks the
blocks behind the first one; it frees a block and reads its link afterwards, so only a
pool that never grew comes to its end. -/
namespace TinyNetwork.MemoryDestroy
open Ranges Runs Chains Memory MemoryPool MemoryBlocks MemoryCustody MemoryLarges MemoryDisjoint

theorem liveLarge (m : Memory) (large : Nat → LargeNode) (r : Range) : Memory.live { m with large } r = m.live r := rfl

theorem destroyLargeTurn {m m' : Memory} {d p : Nat} (alive : m.live ⟨d, sizeofLargeNode⟩ = true)
    (address : (m.large d).address = some p) (freed : m.free p = some m') (kept : m'.large = m.large)
    (still : m'.live ⟨d, sizeofLargeNode⟩ = true) (fuel : Nat) :
    destroyLarge m (fuel + 1) (some d) =
      destroyLarge { m' with large := Function.update m.large d { m.large d with address := none } } fuel
        (m.large d).next := by
  simp only [destroyLarge, readLarge, writeLarge, alive, if_true, bind, Option.bind, address, freed, still, kept,
    liveLarge, Function.update_self]

theorem releasingForget {m : Memory} {blocks larges : List Range} {start : Option Nat} {rest : List Nat}
    (releasing : Releasing m blocks larges start rest) {d : Nat} (behind : d ∉ rest) (node : LargeNode)
    (link : node.next = (m.large d).next) :
    Releasing { m with large := Function.update m.large d node } blocks larges start rest := by
  have others : rest.filterMap (fun c => (Function.update m.large d node c).address) =
      rest.filterMap (fun c => (m.large c).address) := by
    refine List.filterMap_congr fun c mem => ?_
    have other : c ≠ d := fun same => behind (same ▸ mem)
    rw [Function.update_of_ne other]
  have named := releasing.named
  rw [← others] at named
  exact ⟨listUpdate releasing.chain link, releasing.distinct, named, releasing.owned, releasing.apart,
    releasing.shaped, releasing.inside⟩

theorem destroyLargeSpec {m : Memory} {blocks larges : List Range} {start : Option Nat} {rest : List Nat}
    (releasing : Releasing m blocks larges start rest) {fuel : Nat} (enough : rest.length ≤ fuel) :
    ∃ regions large, destroyLarge m fuel start = some { m with regions, large } ∧ Released regions blocks := by
  induction rest generalizing m start larges fuel with
  | nil =>
    obtain ⟨rfl, released⟩ := releasingEnd releasing
    exact ⟨m.regions, m.large, by unfold destroyLarge; rfl, released⟩
  | cons d rest ih =>
    obtain rfl : start = some d := releasing.chain.1
    have alive := releasingLive releasing
    have behind := (List.nodup_cons.mp releasing.distinct).1
    cases fuel with
    | zero => simp at enough
    | succ fuel =>
      cases address : (m.large d).address with
      | none =>
        simp only [destroyLarge, readLarge, alive, if_true, bind, Option.bind, address]
        exact ih (releasingSkip releasing address) (by simpa using enough)
      | some p =>
        obtain ⟨regions, larges', freed, still, next⟩ := releasingFree releasing address
        rw [destroyLargeTurn alive address freed rfl still]
        exact ih (releasingForget next behind { m.large d with address := none } rfl) (by simpa using enough)

theorem freedUnreadable {m : Memory} {r : Range} {rest : List Range} (owned : m.regions.Perm (r :: rest))
    (apart : m.regions.Pairwise Apart) (shaped : ∀ q ∈ m.regions, q.base % MP_ALIGNMENT = 0 ∧ 0 < q.size)
    {a : Nat} (within : Within ⟨a, sizeofSmallNode⟩ r) :
    ∃ m', m.free r.base = some m' ∧ m'.readSmall a = none := by
  obtain ⟨regions, freed, left, _, _⟩ := freeSpec owned apart shaped
  refine ⟨_, freed, if_neg ?_⟩
  rw [Memory.live, List.any_eq_true]
  rintro ⟨q, member, there⟩
  have far := (List.pairwise_cons.mp (pairwisePerm owned apart)).1 q (left.mem_iff.mp member)
  have there := of_decide_eq_true there
  simp only [Apart, Within, sizeofSmallNode] at *
  omega

/- The walk over the blocks reads the link of a block it has just freed. -/
theorem destroySmallStuck {m : Memory} {r : Range} {rest : List Range} (owned : m.regions.Perm (r :: rest))
    (apart : m.regions.Pairwise Apart) (shaped : ∀ q ∈ m.regions, q.base % MP_ALIGNMENT = 0 ∧ 0 < q.size)
    (within : Within ⟨r.base, sizeofSmallNode⟩ r) (fuel : Nat) : destroySmall m fuel (some r.base) = none := by
  obtain ⟨m', freed, gone⟩ := freedUnreadable owned apart shaped within
  cases fuel with
  | zero => rfl
  | succ fuel =>
    have alive : m.live ⟨r.base, sizeofSmallNode⟩ = true :=
      liveWithin (owned.mem_iff.mpr List.mem_cons_self) within
    simp only [destroySmall, readSmall, alive, if_true, bind, Option.bind, freed] at gone ⊢
    rw [gone]

def Destroyed (s : MemoryPool) : Prop := ∃ m, s.destroyPool = some m ∧ m.regions = []

section
variable {s : MemoryPool} {nodes cells : List Nat} {smalls larges : List Range}

theorem destroyLargePool (custody : Custody s nodes cells smalls larges) :
    ∃ m, destroyLarge s.memory s.memory.fuel s.pool.largeList = some m ∧ m.small = s.memory.small ∧
      Core { s with memory := m } nodes (smalls ++ cells.map cell) [] := by
  have core := custody.core
  obtain ⟨regions, large, done, owned, apart, shaped⟩ := destroyLargeSpec (releasingStart custody) (cellsFuel core)
  exact ⟨_, done, rfl, core.chain, core.first, core.current, core.books, by rwa [List.append_nil], apart, shaped⟩

theorem destroyPoolIff (custody : Custody s nodes cells smalls larges) :
    Destroyed s ↔ (s.memory.small s.pool.head).next = none := by
  obtain ⟨m, released, kept, core⟩ := destroyLargePool custody
  have head : s.pool.head ∈ nodes := headMember custody.core
  have alive : m.live ⟨s.pool.head, sizeofSmallNode⟩ = true := nodeLive core head
  have ends : s.destroyPool = (destroySmall m m.fuel (m.small s.pool.head).next).bind fun m => m.free s.address := by
    simp only [destroyPool, released, readSmall, alive, if_true, bind, Option.bind]
  rw [← kept]
  have chain : Chain (fun a => (m.small a).next) (some s.pool.head) nodes := core.chain
  have owned : m.regions.Perm (nodes.map (blockOf s.address) ++ []) := core.owned
  have first : s.pool.head = s.address + sizeofPool := core.first
  rw [List.append_nil] at owned
  cases nodes with
  | nil => simp at head
  | cons a rest =>
    obtain ⟨same, more⟩ := chain
    cases Option.some.inj same
    cases rest with
    | nil =>
      have alone : (m.small s.pool.head).next = none := more
      rw [List.map_singleton, blockOf, if_pos first] at owned
      obtain ⟨left, freed, empty, _, _⟩ := freeSpec owned core.apart core.shaped
      refine iff_of_true ⟨{ m with regions := left }, ?_, List.perm_nil.mp empty⟩ alone
      rw [ends, alone]
      unfold destroySmall
      exact freed
    | cons next rest =>
      have link : (m.small s.pool.head).next = some next := more.1
      have other : next ≠ s.address + sizeofPool := by
        have distinct := booksNodup core.books
        rw [← first]
        rintro rfl
        simp at distinct
      have block : blockOf s.address next = ⟨next, PAGE_SIZE⟩ := by rw [blockOf, if_neg other]
      have inside := nodeWithin s.address next
      rw [block] at inside
      rw [List.map_cons, List.map_cons, block] at owned
      have stuck := destroySmallStuck (owned.trans (.swap _ _ _)) core.apart core.shaped inside m.fuel
      refine iff_of_false ?_ (by simp [link])
      rintro ⟨_, done, _⟩
      rw [ends, link, stuck] at done
      contradiction

end

def NullKeeps (s : State) : Action → Prop
  | .malloc size first second => ∀ pool, s.pool.malloc size first second = some (none, pool) → Unchanged s.pool pool
  | .calloc size first second => ∀ pool, s.pool.calloc size first second = some (none, pool) → Unchanged s.pool pool
  | _ => True

theorem nullKeeps {s : State} {a : Action} (kept : Kept s) (allowed : CleanAllowed s a) : NullKeeps s a := by
  cases a with
  | malloc size first second =>
    intro pool null
    obtain ⟨result, done, _, unchanged⟩ := mallocKept kept allowed
    cases Option.some.inj (done.symm.trans null)
    exact unchanged
  | calloc size first second =>
    intro pool null
    obtain ⟨result, done, _, unchanged⟩ := callocKept kept allowed
    cases Option.some.inj (done.symm.trans null)
    exact unchanged
  | freeMemory | resetPool => trivial

theorem poolOwnsIff {m : Memory} (empty : m.regions = []) {outcome : Memalign} (clean : CleanFirst m outcome)
    {pool : MemoryPool} (created : createPool m outcome = some (some pool)) {actions : List Action}
    (allowed : Along step CleanAllowed ⟨pool, []⟩ actions) :
    Along step NullKeeps ⟨pool, []⟩ actions ∧
    ∃ last, run step ⟨pool, []⟩ actions = some last ∧
      (Destroyed last.pool ↔ (last.pool.memory.small last.pool.pool.head).next = none) := by
  have first := createKept empty clean created
  have stays : ∀ {s a t}, Kept s → CleanAllowed s a → step s a = some t → Kept t := by
    intro s a t kept may done
    obtain ⟨u, same, kept'⟩ := stepClean kept may
    cases Option.some.inj (done.symm.trans same)
    exact kept'
  refine ⟨alongShown nullKeeps stays first allowed, ?_⟩
  obtain ⟨last, done, nodes, cells, custody⟩ := runProgress stepClean first allowed
  exact ⟨last, done, destroyPoolIff custody⟩

def sampleCalls : List Action := [.malloc 5000 (zeroed 65536) .failed, .malloc 100 .failed .failed]

theorem poolOwnsSample :
    ∃ last, run step ⟨samplePool, []⟩ sampleCalls = some last ∧
      (Destroyed last.pool ↔ (last.pool.memory.small last.pool.pool.head).next = none) := by
  have first : CleanFirst untouched (zeroed 4096) := ⟨by decide, rfl, rfl⟩
  have granted : Fits samplePool.memory 5000 (zeroed 65536) := by
    unfold Fits zeroed
    decide
  refine (poolOwnsIff rfl first sampleCreated ?_).2
  exact ⟨⟨granted, fun _ _ _ => trivial⟩, fun _ _ => ⟨trivial, fun _ _ => trivial⟩⟩

/- The second block makes destroyPool read memory that it has freed. -/
theorem grownPoolStuck :
    createPool untouched (zeroed 4096) = some (some samplePool) ∧
    ∃ last, run step ⟨samplePool, []⟩ [.malloc 4000 .failed .failed, .malloc 4000 (zeroed 65536) .failed] = some last ∧
      last.live = [⟨65568, 4000⟩, ⟨4160, 4000⟩] ∧ last.pool.destroyPool = none := by
  have seen : (run step ⟨samplePool, []⟩ [.malloc 4000 .failed .failed, .malloc 4000 (zeroed 65536) .failed]).map
      (fun last => (last.live, last.pool.destroyPool.isNone)) = some ([⟨65568, 4000⟩, ⟨4160, 4000⟩], true) := by
    decide +kernel
  obtain ⟨last, done, both⟩ := Option.map_eq_some_iff.mp seen
  exact ⟨sampleCreated, last, done, congrArg Prod.fst both, Option.isNone_iff_eq_none.mp (congrArg Prod.snd both)⟩

end TinyNetwork.MemoryDestroy
