import TinyNetwork.MemoryDisjoint

/-! What malloc walks over. Its search and the walk of mallocSmallNode start at current_,
which is moved past a block that has failed five times. While nothing is given back, no
more than seven blocks are in front of the end of the chain, however long it has become. -/
namespace TinyNetwork.MemoryWindow
open Ranges Runs Words Chains Memory MemoryPool MemoryBlocks MemoryCustody MemoryLarges MemoryDisjoint

def countFrom (m : Memory) : Nat → Option Nat → Nat
  | _, none => 0
  | 0, some _ => 0
  | fuel + 1, some cur => countFrom m fuel (m.small cur).next + 1

def blocks (s : MemoryPool) : Nat := countFrom s.memory s.memory.fuel (some s.pool.head)

def Takes : Action → Prop
  | .malloc .. | .calloc .. => True
  | _ => False

instance (a : Action) : Decidable (Takes a) := by cases a <;> unfold Takes <;> infer_instance

/- A block has failed once for every block that was linked behind the one after it, at
least for the last `added` of them. -/
def Worn (failed : Nat → Nat) (added : Nat) : List Nat → Prop
  | [] => True
  | a :: rest => min (rest.length - 1) added ≤ failed a ∧ Worn failed added rest

section Lists
variable {failed failed' : Nat → Nat} {added : Nat} {window : List Nat}

theorem wornSame (worn : Worn failed added window) (same : ∀ a ∈ window, failed' a = failed a) :
    Worn failed' added window := by
  induction window with
  | nil => trivial
  | cons a rest ih =>
    refine ⟨?_, ih worn.2 fun b member => same b (List.mem_cons_of_mem _ member)⟩
    rw [same a List.mem_cons_self]
    exact worn.1

theorem wornBehind {front : List Nat} (worn : Worn failed added (front ++ window)) : Worn failed added window := by
  induction front with
  | nil => exact worn
  | cons a front ih => exact ih worn.2

theorem wornFresh : Worn failed 0 window := by
  induction window with
  | nil => trivial
  | cons a rest ih =>
    refine ⟨?_, ih⟩
    rw [Nat.min_zero]
    exact Nat.zero_le _

/- One more block at the end. What has not failed five times has failed once more, and a
window in which nothing has failed five times is short. -/
theorem wornGrown {block : Nat} (nonempty : window ≠ []) (worn : Worn failed added window)
    (few : ∀ a ∈ window.dropLast, failed a < 5) (more : ∀ a ∈ window.dropLast, failed' a = failed a + 1) :
    Worn failed' (added + 1) (window ++ [block]) ∧ (5 ≤ added → window.length ≤ 6) := by
  induction window with
  | nil => contradiction
  | cons a rest ih =>
    cases rest with
    | nil => exact ⟨⟨Nat.zero_le _, Nat.zero_le _, trivial⟩, fun _ => by simp⟩
    | cons b rest =>
      obtain ⟨here, behind⟩ := worn
      rw [List.dropLast_cons_of_ne_nil (List.cons_ne_nil b rest)] at few more
      obtain ⟨grown, _⟩ := ih (List.cons_ne_nil b rest) behind
        (fun c member => few c (List.mem_cons_of_mem _ member))
        (fun c member => more c (List.mem_cons_of_mem _ member))
      have less := few a List.mem_cons_self
      have next := more a List.mem_cons_self
      simp only [List.length_cons] at here
      refine ⟨⟨?_, grown⟩, fun many => ?_⟩
      · change min (((b :: rest) ++ [block]).length - 1) (added + 1) ≤ failed' a
        rw [List.length_append, List.length_cons, List.length_singleton]
        omega
      · rw [List.length_cons, List.length_cons]
        omega

end Lists

theorem countFromSpec {m : Memory} {start : Option Nat} {nodes : List Nat}
    (chain : Chain (fun a => (m.small a).next) start nodes) {fuel : Nat} (enough : nodes.length ≤ fuel) :
    countFrom m fuel start = nodes.length := by
  induction nodes generalizing start fuel with
  | nil =>
    obtain rfl : start = none := chain
    unfold countFrom
    rfl
  | cons a nodes ih =>
    obtain ⟨rfl, more⟩ := chain
    cases fuel with
    | zero => simp at enough
    | succ fuel =>
      rw [countFrom, ih more (by simpa using enough), List.length_cons]

theorem findRoomEnough {m : Memory} (size : Nat) {start : Option Nat} {window : List Nat}
    (chain : Chain (fun a => (m.small a).next) start window) {fuel other : Nat}
    (enough : window.length ≤ fuel) (enoughOther : window.length ≤ other) :
    findRoom m size fuel start = findRoom m size other start := by
  induction window generalizing start fuel other with
  | nil =>
    obtain rfl : start = none := chain
    unfold findRoom
    rfl
  | cons a window ih =>
    obtain ⟨rfl, more⟩ := chain
    cases fuel with
    | zero => simp at enough
    | succ fuel =>
      cases other with
      | zero => simp at enoughOther
      | succ other =>
        have same := ih more (by simpa using enough) (by simpa using enoughOther)
        simp only [findRoom, readSmall]
        split
        · simp only [bind, Option.bind, same]
        · rfl

theorem skipFailedWindow {m m' : Memory} {cur current last current' fuel : Nat} {rest : List Nat}
    (chain : Chain (fun a => (m.small a).next) (some cur) (cur :: rest)) (distinct : (cur :: rest).Nodup)
    (ok : skipFailed fuel m cur current = some (m', last, current')) :
    (∀ a ∈ (cur :: rest).dropLast, (m'.small a).failed = ((m.small a).failed + 1) % uintLimit) ∧
    (∀ a, a ∉ cur :: rest → m'.small a = m.small a) ∧
    (current' = current ∧ (∀ a ∈ (cur :: rest).dropLast, (m.small a).failed < 5) ∨
      ∃ front window, cur :: rest = front ++ current' :: window ∧
        ∀ a ∈ (current' :: window).dropLast, (m.small a).failed < 5) := by
  induction rest generalizing m cur current fuel with
  | nil =>
    have stop : (m.small cur).next = none := chain.2
    cases fuel with
    | zero => simp [skipFailed] at ok
    | succ fuel =>
      simp only [skipFailed, readSmall, bind, Option.bind_eq_some_iff, Option.ite_none_right_eq_some] at ok
      obtain ⟨node, ⟨-, same⟩, ok⟩ := ok
      cases Option.some.inj same
      simp only [stop] at ok
      cases Option.some.inj ok
      exact ⟨by simp, fun _ _ => rfl, .inl ⟨rfl, by simp⟩⟩
  | cons next rest ih =>
    obtain ⟨link, more⟩ := chain.2
    obtain ⟨new, distinct'⟩ := List.nodup_cons.mp distinct
    cases fuel with
    | zero => simp [skipFailed] at ok
    | succ fuel =>
      simp only [skipFailed, readSmall, writeSmall, bind, Option.bind_eq_some_iff,
        Option.ite_none_right_eq_some] at ok
      obtain ⟨node, ⟨-, same⟩, ok⟩ := ok
      cases Option.some.inj same
      simp only [link, Option.bind_eq_some_iff, Option.ite_none_right_eq_some] at ok
      obtain ⟨m₁, ⟨-, same⟩, ok⟩ := ok
      cases Option.some.inj same
      let node : SmallNode := { m.small cur with failed := ((m.small cur).failed + 1) % uintLimit, next := some next }
      let m₁ : Memory := { m with small := Function.update m.small cur node }
      have kept : ∀ a, a ≠ cur → m₁.small a = m.small a := fun a other => Function.update_of_ne other ..
      have behind : ∀ a ∈ next :: rest, a ≠ cur := fun a member same => new (same ▸ member)
      have chain₁ : Chain (fun a => (m₁.small a).next) (some next) (next :: rest) :=
        chainFrame ⟨rfl, more⟩ fun a member => by rw [kept a (behind a member)]
      obtain ⟨failed, outside, place⟩ := ih chain₁ distinct' ok
      have old : ∀ a ∈ next :: rest, (m₁.small a).failed = (m.small a).failed :=
        fun a member => by rw [kept a (behind a member)]
      have front : ∀ a ∈ (next :: rest).dropLast, (m₁.small a).failed = (m.small a).failed :=
        fun a member => old a (List.dropLast_subset _ member)
      refine ⟨?_, ?_, ?_⟩
      · rw [List.dropLast_cons_of_ne_nil (List.cons_ne_nil next rest)]
        intro a member
        rcases List.mem_cons.mp member with same | later
        · have own : m₁.small cur = node := Function.update_self ..
          rw [same, outside cur new, own]
        · rw [failed a later, front a later]
      · intro a member
        obtain ⟨other, later⟩ := not_or.mp (mt List.mem_cons.mpr member)
        rw [outside a later, kept a other]
      · rw [List.dropLast_cons_of_ne_nil (List.cons_ne_nil next rest)]
        rcases place with ⟨here, few⟩ | ⟨passed, window, cut, few⟩
        · by_cases tired : 5 ≤ (m.small cur).failed
          · rw [if_pos tired] at here
            subst here
            exact .inr ⟨[cur], rest, rfl, fun a member => front a member ▸ few a member⟩
          · rw [if_neg tired] at here
            refine .inl ⟨here, fun a member => ?_⟩
            rcases List.mem_cons.mp member with rfl | later
            · exact Nat.lt_of_not_le tired
            · exact front a later ▸ few a later
        · refine .inr ⟨cur :: passed, window, by rw [cut, List.cons_append], fun a member => ?_⟩
          have inside : a ∈ next :: rest := cut ▸ List.mem_append_right _ (List.dropLast_subset _ member)
          exact old a inside ▸ few a member

structure Window (s : MemoryPool) (nodes window : List Nat) (added : Nat) : Prop where
  behind : window <:+ nodes
  first : window.head? = some s.pool.current
  worn : Worn (fun a => (s.memory.small a).failed) added window
  short : 6 ≤ added → window.length ≤ 7

def Grown (s : MemoryPool) (nodes : List Nat) (added : Nat) : Prop :=
  ∃ nodes' window more, Chain (fun a => (s.memory.small a).next) (some s.pool.head) nodes' ∧
    nodes'.length = nodes.length + more ∧ Window s nodes' window (added + more)

section Calls
variable {s t : MemoryPool} {nodes cells window : List Nat} {held smalls larges : List Range} {added : Nat}

theorem windowChain {next : Nat → Option Nat} {start : Option Nat} (chain : Chain next start nodes)
    (before : Window s nodes window added) : Chain next (some s.pool.current) window := by
  obtain ⟨rest, rfl⟩ := List.head?_eq_some_iff.mp before.first
  obtain ⟨front, rfl⟩ := before.behind
  exact chainFrom chain

theorem windowSame (before : Window s nodes window added) (current : t.pool.current = s.pool.current)
    (same : ∀ a ∈ nodes, (t.memory.small a).failed = (s.memory.small a).failed) : Window t nodes window added :=
  ⟨before.behind, current ▸ before.first,
    wornSame before.worn fun a member => same a (before.behind.subset member), before.short⟩

theorem grownSame (grown : Grown s nodes added) (head : t.pool.head = s.pool.head)
    (current : t.pool.current = s.pool.current) (small : t.memory.small = s.memory.small) : Grown t nodes added := by
  obtain ⟨nodes', window, more, chain, length, window_⟩ := grown
  refine ⟨nodes', window, more, ?_, length, windowSame window_ current fun a _ => by rw [small]⟩
  rw [head, small]
  exact chain

theorem linkBlockWindow (core : Core s nodes held larges) (before : Window s nodes window added)
    {block size : Nat} {m : Memory} (prepared : Prepared s nodes m block size)
    (linked : s.linkBlock m block = some t) : ∃ window', Window t (nodes ++ [block]) window' (added + 1) := by
  obtain ⟨rest, rfl⟩ := List.head?_eq_some_iff.mp before.first
  obtain ⟨front, rfl⟩ := before.behind
  have chain : Chain (fun a => (m.small a).next) (some s.pool.current) (s.pool.current :: rest) :=
    chainFrom (chainFrame core.chain fun a member => by rw [prepared.kept a member])
  have distinct : (s.pool.current :: rest).Nodup := (List.nodup_append.mp (booksNodup core.books)).2.1
  have worn : Worn (fun a => (m.small a).failed) added (s.pool.current :: rest) :=
    wornSame before.worn fun a member => by rw [prepared.kept a (List.mem_append_right _ member)]
  simp only [linkBlock, readSmall, writeSmall, bind, Option.bind_eq_some_iff,
    Option.ite_none_right_eq_some] at linked
  obtain ⟨⟨m', last, current⟩, run, node, ⟨-, same⟩, m₂, ⟨-, same₂⟩, done⟩ := linked
  cases Option.some.inj same
  cases Option.some.inj same₂
  cases Option.some.inj done
  obtain ⟨failed, -, place⟩ := skipFailedWindow chain distinct run
  obtain ⟨passed, left, cut, few⟩ : ∃ passed left, s.pool.current :: rest = passed ++ current :: left ∧
      ∀ a ∈ (current :: left).dropLast, (m.small a).failed < 5 := by
    rcases place with ⟨rfl, few⟩ | later
    · exact ⟨[], rest, rfl, few⟩
    · exact later
  rw [cut] at worn failed
  rw [List.dropLast_append_of_ne_nil (List.cons_ne_nil current left)] at failed
  have onceMore : ∀ a ∈ (current :: left).dropLast,
      (Function.update m'.small last { m'.small last with next := some block } a).failed =
        (m.small a).failed + 1 := by
    intro a member
    have less := few a member
    have walked := failed a (List.mem_append_right _ member)
    have link : (Function.update m'.small last { m'.small last with next := some block } a).failed =
        (m'.small a).failed := by
      by_cases here : a = last
      · rw [here, Function.update_self]
      · rw [Function.update_of_ne here]
    rw [link, walked, Nat.mod_eq_of_lt (by unfold uintLimit; omega)]
  obtain ⟨grown, short⟩ := wornGrown (List.cons_ne_nil current left) (wornBehind worn) few onceMore
  refine ⟨current :: left ++ [block], ⟨?_, rfl, grown, fun many => ?_⟩⟩
  · rw [cut]
    exact ⟨front ++ passed, by simp⟩
  · have six := short (by omega)
    rw [List.length_append, List.length_singleton]
    omega

theorem mallocSmallWindow (core : Core s nodes held larges) (before : Window s nodes window added)
    {size : Nat} (positive : 0 < size) (fits : size ≤ PAGE_SIZE - sizeofSmallNode) {outcome : Memalign}
    (clean : Clean s.memory outcome) {result : Option Nat} (ok : s.mallocSmall size outcome = some (result, t)) :
    Grown t nodes added := by
  have tail := windowChain core.chain before
  have enough : window.length ≤ s.memory.fuel := Nat.le_trans before.behind.length_le (nodesFuel core)
  rcases findRoomSpec size core.books (fun a => nodeLive core) tail before.behind.subset enough with
    full | ⟨a, member, room, found⟩
  · cases outcome with
    | failed =>
      simp only [mallocSmall, full, mallocSmallNode, posixMemalign, bind, Option.bind] at ok
      cases Option.some.inj ok
      exact ⟨nodes, window, 0, core.chain, rfl, before⟩
    | granted block content =>
      obtain ⟨grantable, zero⟩ := clean
      obtain ⟨m, m', granted, new, prepared, start⟩ := newBlockSpec core grantable zero size
      obtain ⟨u, linked, core', -⟩ := linkBlockSpec core positive fits grantable prepared
      simp only [mallocSmall, full, mallocSmallNode, granted, new, linked, bind, Option.bind] at ok
      cases Option.some.inj ok
      obtain ⟨window', after⟩ := linkBlockWindow core before prepared linked
      exact ⟨_, window', 1, core'.chain, by rw [List.length_append, List.length_singleton], after⟩
  · simp only [mallocSmall, found, bind, Option.bind] at ok
    cases Option.some.inj ok
    refine ⟨nodes, window, 0, chainUpdate core.chain rfl, rfl, windowSame before rfl fun b _ => ?_⟩
    by_cases here : b = a
    · subst here
      simp [taken]
    · exact congrArg SmallNode.failed (Function.update_of_ne here ..)

theorem mallocLargeWindow (custody : Custody s nodes cells smalls larges) (before : Window s nodes window added)
    {size : Nat} (positive : 0 < size) {first second : Memalign} (fits : Fits s.memory size first)
    (after : ∀ base content, first = .granted base content →
      Clean { s.memory with regions := ⟨base, size⟩ :: s.memory.regions } second)
    {result : Option Nat} (ok : s.mallocLargeNode size first second = some (result, t)) : Grown t nodes added := by
  obtain ⟨core, listing⟩ := custody
  cases first with
  | failed =>
    simp only [mallocLargeNode, posixMemalign, bind, Option.bind] at ok
    cases Option.some.inj ok
    exact ⟨nodes, window, 0, core.chain, rfl, before⟩
  | granted addr content =>
    have grantable : Grantable s.memory ⟨addr, size⟩ := fits
    let small := fun a => if addr ≤ a ∧ a < addr + size then content a else s.memory.small a
    let m : Memory := ⟨⟨addr, size⟩ :: s.memory.regions, small, s.memory.large⟩
    have granted : s.memory.posixMemalign size (.granted addr content) = some (some addr, m) := by
      simp only [posixMemalign, if_pos grantable]
      rfl
    have core' : Core { s with memory := m } nodes (smalls ++ cells.map cell) (⟨addr, size⟩ :: larges) :=
      grantCore core grantable positive rfl (fun a outside => if_neg outside)
    have before' : Window { s with memory := m } nodes window added :=
      windowSame before rfl fun a member =>
        congrArg SmallNode.failed (if_neg (grantedKeeps core grantable member))
    have live : ∀ d ∈ cells, m.live (cell d) = true := fun d member => heldLive core' (cellHeld member)
    simp only [mallocLargeNode, granted, bind, Option.bind_eq_some_iff, Option.some.injEq,
      exists_eq_left'] at ok
    rcases reuseLargeSpec (m := m) addr size listing.chain live (cellsFuel core') 0 with
      none_ | ⟨d, member, unused, found⟩
    · simp only [none_, Option.some.injEq, exists_eq_left', mallocDescriptor, bind,
        Option.bind_eq_some_iff] at ok
      obtain ⟨⟨descriptor, u⟩, small', ok⟩ := ok
      have grown := mallocSmallWindow core' before' (show 0 < sizeofLargeNode by decide) (by decide)
        (cleanRegions rfl (after addr content rfl)) small'
      cases descriptor with
      | none =>
        obtain ⟨m', freed, same⟩ := Option.bind_eq_some_iff.mp ok
        obtain ⟨-, same'⟩ := Option.ite_none_right_eq_some.mp freed
        cases Option.some.inj same'
        cases Option.some.inj same
        exact grownSame grown rfl rfl rfl
      | some d =>
        obtain ⟨m', written, same⟩ := Option.bind_eq_some_iff.mp ok
        obtain ⟨-, same'⟩ := Option.ite_none_right_eq_some.mp written
        cases Option.some.inj same'
        cases Option.some.inj same
        exact grownSame grown rfl rfl rfl
    · simp only [found, Option.some.injEq, exists_eq_left'] at ok
      cases ok
      exact ⟨nodes, window, 0, core'.chain, rfl, windowSame before' rfl fun _ _ => rfl⟩

end Calls

def Held (before : Nat) (s : State) : Prop :=
  ∃ nodes cells window, Custody s.pool nodes cells (s.live.filter (fun r => !isLarge r)) (s.live.filter isLarge) ∧
    before ≤ nodes.length ∧ Window s.pool nodes window (nodes.length - before)

section Runs
variable {s t : State} {before size : Nat} {first second : Memalign} {result : Option Nat} {pool : MemoryPool}

@[simp] theorem receivedPool (live : List Range) : (received live size (result, pool)).pool = pool := by
  cases result <;> rfl

theorem mallocHeld (held : Held before s) (outcomes : CleanOutcomes s.pool.memory size first second)
    (ok : s.pool.malloc size first second = some (result, pool)) :
    Held before (received s.live size (result, pool)) := by
  obtain ⟨nodes, cells, window, custody, least, window_⟩ := held
  obtain ⟨other, done, ⟨nodes', cells', custody'⟩, -⟩ := mallocKept ⟨nodes, cells, custody⟩ outcomes
  cases Option.some.inj (ok.symm.trans done)
  have grown : Grown pool nodes (nodes.length - before) := by
    unfold malloc at ok
    unfold CleanOutcomes at outcomes
    split at ok
    · cases Option.some.inj ok
      exact ⟨nodes, window, 0, custody.core.chain, rfl, window_⟩
    · rename_i positive
      split at ok
      · rename_i large
        rw [if_pos large] at outcomes
        exact mallocLargeWindow custody window_ (Nat.pos_of_ne_zero positive) outcomes.1 outcomes.2 ok
      · rename_i small
        rw [if_neg small] at outcomes
        exact mallocSmallWindow custody.core window_ (Nat.pos_of_ne_zero positive) (Nat.le_of_not_lt small) outcomes ok
  obtain ⟨nodes'', window', more, chain, length, window''⟩ := grown
  have chain' := custody'.core.chain
  rw [receivedPool] at chain'
  obtain rfl := chainUnique chain chain'
  refine ⟨nodes'', cells', window', custody', by omega, ?_⟩
  rw [receivedPool, show nodes''.length - before = nodes.length - before + more by omega]
  exact window''

theorem callocHeld (held : Held before s) (outcomes : CleanOutcomes s.pool.memory size first second)
    (ok : s.pool.calloc size first second = some (result, pool)) :
    Held before (received s.live size (result, pool)) := by
  simp only [calloc, bind, Option.bind_eq_some_iff] at ok
  obtain ⟨⟨got, u⟩, done, ok⟩ := ok
  have held' := mallocHeld held outcomes done
  cases got with
  | none =>
    cases Option.some.inj ok
    exact held'
  | some p =>
    obtain ⟨nodes, cells, window, custody, least, window_⟩ := held'
    have clear : Clear u nodes cells ⟨p, size⟩ := by
      cases large : isLarge ⟨p, size⟩ with
      | false => exact smallClear custody (List.mem_filter.mpr ⟨List.mem_cons_self, by simp [large]⟩)
      | true => exact largeClear custody (List.mem_filter.mpr ⟨List.mem_cons_self, large⟩)
    obtain ⟨m, zeroed, custody'⟩ := memsetCustody custody clear
    obtain ⟨m', zeroed', same⟩ := Option.bind_eq_some_iff.mp ok
    cases Option.some.inj (zeroed.symm.trans zeroed')
    cases Option.some.inj same
    obtain ⟨-, same'⟩ := Option.ite_none_right_eq_some.mp zeroed
    cases Option.some.inj same'
    refine ⟨nodes, cells, window, custody', least, windowSame window_ rfl fun a member => ?_⟩
    exact congrArg SmallNode.failed (if_pos (clear.nodes a member))

theorem stepHeld {a : Action} (held : Held before s) (allowed : Allowed s a ∧ Takes a) (ok : step s a = some t) :
    Held before t := by
  obtain ⟨allowed, takes⟩ := allowed
  have clean := allowedClean allowed
  cases a with
  | malloc size first second =>
    obtain ⟨result, done, same⟩ := Option.bind_eq_some_iff.mp ok
    cases Option.some.inj same
    exact mallocHeld held clean done
  | calloc size first second =>
    obtain ⟨result, done, same⟩ := Option.bind_eq_some_iff.mp ok
    cases Option.some.inj same
    exact callocHeld held clean done
  | freeMemory | resetPool => contradiction

theorem blocksSpec (kept : Kept s) {nodes : List Nat}
    (chain : Chain (fun a => (s.pool.memory.small a).next) (some s.pool.pool.head) nodes) :
    blocks s.pool = nodes.length := by
  obtain ⟨nodes', cells, custody⟩ := kept
  obtain rfl := chainUnique chain custody.core.chain
  exact countFromSpec chain (nodesFuel custody.core)

theorem keptHeld (kept : Kept s) : Held (blocks s.pool) s := by
  obtain ⟨nodes, cells, custody⟩ := id kept
  rw [blocksSpec kept custody.core.chain]
  obtain ⟨front, rest, cut, -⟩ := chainMember custody.core.chain custody.core.current
  refine ⟨nodes, cells, s.pool.pool.current :: rest, custody, Nat.le_refl _, ⟨⟨front, cut.symm⟩, rfl, ?_, ?_⟩⟩
  · rw [Nat.sub_self]
    exact wornFresh
  · omega

end Runs

def searchBound (s t : MemoryPool) : Nat := if blocks s + 6 ≤ blocks t then 7 else blocks s + 5

theorem searchBounded {m : Memory} (empty : m.regions = []) {outcome : Memalign}
    (possible : Possible m PAGE_SIZE outcome) {pool : MemoryPool}
    (created : createPool m outcome = some (some pool)) {earlier taking : List Action} {s t : State}
    (allowed : Along step Allowed ⟨pool, []⟩ earlier) (ok : run step ⟨pool, []⟩ earlier = some s)
    (takes : Along step (fun s a => Allowed s a ∧ Takes a) s taking) (ok' : run step s taking = some t) (size : Nat) :
    (∃ window, Chain (fun a => (t.pool.memory.small a).next) (some t.pool.pool.current) window ∧
      window.length ≤ searchBound s.pool t.pool) ∧
    findRoom t.pool.memory size (searchBound s.pool t.pool) (some t.pool.pool.current) =
      findRoom t.pool.memory size t.pool.memory.fuel (some t.pool.pool.current) := by
  obtain ⟨s', same, kept⟩ := runProgress stepKept (createKept empty (possibleFirst possible) created) allowed
  cases Option.some.inj (ok.symm.trans same)
  obtain ⟨nodes, cells, window, custody, least, window_⟩ := runInvariantAlong stepHeld (keptHeld kept) takes ok'
  have all : blocks t.pool = nodes.length := blocksSpec ⟨nodes, cells, custody⟩ custody.core.chain
  have part : window.length ≤ nodes.length := window_.behind.length_le
  have short : window.length ≤ searchBound s.pool t.pool := by
    unfold searchBound
    split
    · exact window_.short (by omega)
    · omega
  have chain := windowChain custody.core.chain window_
  exact ⟨⟨window, chain, short⟩,
    findRoomEnough size chain short (Nat.le_trans part (nodesFuel custody.core))⟩

def fillingActions : List Action := [.malloc 100 .failed .failed, .calloc 4064 (zeroed 65536) .failed]

theorem searchBoundedSample :
    ∃ t, run step ⟨samplePool, []⟩ fillingActions = some t ∧
      (∃ window, Chain (fun a => (t.pool.memory.small a).next) (some t.pool.pool.current) window ∧
        window.length ≤ searchBound samplePool t.pool) ∧
      findRoom t.pool.memory 24 (searchBound samplePool t.pool) (some t.pool.pool.current) =
        findRoom t.pool.memory 24 t.pool.memory.fuel (some t.pool.pool.current) := by
  have possible : Possible untouched PAGE_SIZE (zeroed 4096) := ⟨by decide, rfl⟩
  have regions : (step ⟨samplePool, []⟩ (.malloc 100 .failed .failed)).map (fun s => s.pool.memory.regions) =
      some [⟨4096, 4096⟩] := by decide +kernel
  have takes : Along step (fun s a => Allowed s a ∧ Takes a) ⟨samplePool, []⟩ fillingActions := by
    refine ⟨⟨⟨by decide, trivial⟩, trivial⟩, fun t ok => ⟨⟨⟨by decide, ?_⟩, trivial⟩, fun _ _ => trivial⟩⟩
    rw [ok] at regions
    have same : t.pool.memory.regions = [⟨4096, 4096⟩] := Option.some.inj regions
    refine ⟨?_, rfl⟩
    unfold Grantable
    rw [same]
    decide
  have start : Along step Allowed ⟨samplePool, []⟩ [] := trivial
  obtain ⟨t, ok, -⟩ := runProgress (fun kept both => stepKept kept both.1)
    (createKept rfl (possibleFirst possible) sampleCreated) takes
  exact ⟨t, ok, searchBounded rfl possible sampleCreated start rfl takes ok 24⟩

end TinyNetwork.MemoryWindow
